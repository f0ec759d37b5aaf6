import QueryReplay.Proofs.Entries
import QueryReplay.Proofs.Identities
import QueryReplay.Proofs.Prefixes

/-! # Join cells — what a join keeps of its two tables

    The rows of a joined table are kept by column name, so a row keeps the cells of
    both its sources exactly when all names differ.  The route:

    * members written under distinct names are all there (`Snapshot.row_joined`), so a
      join whose names differ loses nothing (`joinStep_lossless_iff`);
    * the names of a joined table are those of all tables read so far, each behind
      its prefix (`Prefixed`), which is kept from join to join;
    * so in every run a join loses nothing exactly when no two of these tables have a
      column of one name behind their prefixes (`replay_join_cells`), which is so when
      no prefix goes on behind another one, and not always (`replay_join_collision`). -/

namespace QueryReplay

open Sql (Descriptor JoinClause)

/-! ## Cells of one side -/

namespace Snapshot

/-- The cells of the row at an index; `none` has nulls. -/
def cellsOrNulls (s : Snapshot) (i : Option Nat) : List Json :=
  (i.bind s.cells?).getD (List.replicate s.columns.length .null)

/-- Reading a row by its column names gives its cells in order, `NULL` for each when no row is
there. -/
theorem cellsOrNulls_eq (s : Snapshot) (i : Option Nat) :
    s.columns.map (Json.Members.getD (s.rowOrNulls i)) = s.cellsOrNulls i := by
  have hnulls : s.columns.map (Json.Members.getD []) = List.replicate s.columns.length .null :=
    List.map_const' ..
  cases i with
  | none => exact hnulls
  | some i =>
      unfold rowOrNulls cellsOrNulls cells?
      rw [Option.bind_some, Option.bind_some]
      cases s.rows[i]? with
      | none => exact hnulls
      | some row => rfl

/-- Tables with the same cells in place have the same cells at every index. -/
theorem cellsOrNulls_congr {s t : Snapshot} (hcells : s.cellRows = t.cellRows)
    (hwidth : s.columns.length = t.columns.length) (i : Option Nat) :
    s.cellsOrNulls i = t.cellsOrNulls i := by
  have hsame : s.cells? = t.cells? := by
    funext n
    rw [cells?_eq, cells?_eq, hcells]
  rw [cellsOrNulls, cellsOrNulls, hsame, hwidth]

/-- Prefixes keep every cell: columns of one name have the same cells, and others get
    different names. -/
theorem cellRows_qualify (s : Snapshot) (pre : String) : (s.qualify pre).cellRows = s.cellRows := by
  show (s.rows.map fun row => Json.Members.ofList
    (s.columns.map fun c => (qualifiedName pre c, Json.Members.getD row c))).map
      (s.qualify pre).cellsOf = s.rows.map s.cellsOf
  rw [List.map_map]
  refine List.map_congr_left fun row _ => ?_
  show (s.columns.map (qualifiedName pre)).map _ = s.columns.map _
  rw [List.map_map]
  refine List.map_congr_left fun c hc => ?_
  have hfound := Assoc.lookup_ofList_map (qualifiedName_injective pre) (Json.Members.getD row) hc
  have hread := congrArg (Option.getD · Json.null) hfound
  exact hread

/-- Cells written under distinct names beside each other stand side by side. -/
theorem row_joined {left right : Snapshot} {pre : String}
    (h : (left.columns ++ right.columns.map (qualifiedName pre)).Nodup) (i j : Option Nat) :
    Json.Members.ofList (left.columns.map (fun c => (c, Json.Members.getD (left.rowOrNulls i) c))
        ++ right.columns.map fun c => (qualifiedName pre c, Json.Members.getD (right.rowOrNulls j) c))
      = (left.columns ++ right.columns.map (qualifiedName pre)).zip
          (left.cellsOrNulls i ++ right.cellsOrNulls j) := by
  generalize hpairs : left.columns.map (fun c => (c, Json.Members.getD (left.rowOrNulls i) c))
    ++ right.columns.map (fun c => (qualifiedName pre c, Json.Members.getD (right.rowOrNulls j) c))
      = pairs
  have hnames : pairs.map Prod.fst = left.columns ++ right.columns.map (qualifiedName pre) := by
    rw [← hpairs, List.map_append, List.map_map, List.map_map]
    exact congrArg (· ++ _) (List.map_id' _)
  have hvalues : pairs.map Prod.snd = left.cellsOrNulls i ++ right.cellsOrNulls j := by
    rw [← hpairs, List.map_append, List.map_map, List.map_map, ← cellsOrNulls_eq, ← cellsOrNulls_eq]
    rfl
  rw [← hnames] at h
  rw [show Json.Members.ofList pairs = pairs from Assoc.ofList_of_nodup h, ← hnames, ← hvalues,
    List.zip_map', List.map_id']

@[simp] theorem length_cellsOrNulls (s : Snapshot) (i : Option Nat) :
    (s.cellsOrNulls i).length = s.columns.length := by
  rw [← cellsOrNulls_eq, List.length_map]

/-- They are read back in order. -/
theorem cells_joined {left right : Snapshot} {pre : String}
    (h : (left.columns ++ right.columns.map (qualifiedName pre)).Nodup) (i j : Option Nat) :
    (left.columns ++ right.columns.map (qualifiedName pre)).map (Json.Members.getD (.ofList
      (left.columns.map (fun c => (c, Json.Members.getD (left.rowOrNulls i) c))
        ++ right.columns.map fun c => (qualifiedName pre c, Json.Members.getD (right.rowOrNulls j) c))))
      = left.cellsOrNulls i ++ right.cellsOrNulls j := by
  have hwidth : (left.columns ++ right.columns.map (qualifiedName pre)).length
      = (left.cellsOrNulls i ++ right.cellsOrNulls j).length := by
    simp
  rw [row_joined h, map_getD_zip h, hwidth, fitted_self]

end Snapshot

section Joined

variable {left right : Snapshot} {pre : String}

/-- The rows of a joined table whose columns have distinct names. -/
theorem rows_joinTables (h : (left.columns ++ right.columns.map (qualifiedName pre)).Nodup)
    (scope : Scope) (clause : JoinClause) (name : String) :
    (joinTables left scope right clause pre name).result.rows
      = (joinTables left scope right clause pre name).pairs.sources.map fun (i, j) =>
        (left.columns ++ right.columns.map (qualifiedName pre)).zip
          (left.cellsOrNulls i ++ right.cellsOrNulls j) :=
  List.map_congr_left fun (i, j) _ => Snapshot.row_joined h i j

/-- The cells of its rows. -/
theorem cellRows_joinTables (h : (left.columns ++ right.columns.map (qualifiedName pre)).Nodup)
    (scope : Scope) (clause : JoinClause) (name : String) :
    (joinTables left scope right clause pre name).result.cellRows
      = (joinTables left scope right clause pre name).pairs.sources.map fun (i, j) =>
        left.cellsOrNulls i ++ right.cellsOrNulls j := by
  show (List.map _ (joinTables left scope right clause pre name).pairs.sources).map _ = _
  rw [List.map_map]
  exact List.map_congr_left fun (i, j) _ => Snapshot.cells_joined h i j

end Joined

/-! ## Joins that lose nothing -/

/-- All columns of the two tables have names of their own in the result, and under these
    its rows hold the cells of their sources: of each pair that met, and of each row that
    the kind of join keeps alone, beside nulls. -/
structure JoinStep.Lossless (s : JoinStep) : Prop where
  width : s.result.columns.length = s.left.columns.length + s.right.columns.length
  distinct : s.result.columns.Nodup
  cells : ∃ kind : Sql.JoinKind, s.joinType = kind.display ∧ ∃ sources : List (Option Nat × Option Nat),
    sources.Perm (s.matched.map (Prod.map some some)
      ++ (if kind.keepsLeft then s.unmatchedLeft.map fun i => (some i, none) else [])
      ++ if kind.keepsRight then s.unmatchedRight.map fun j => (none, some j) else [])
    ∧ s.result.cellRows = sources.map fun (i, j) => s.left.cellsOrNulls i ++ s.right.cellsOrNulls j

namespace Stage

variable (d : Descriptor) (current : Running) (clause : JoinClause) (right : Snapshot)

/-- A joined table has the columns of the running table, behind their prefixes, and those
    of the table that was read. -/
theorem joinStep_columns : (joinStep d current clause right).result.columns
    = (withPrefixes d current).table.columns ++ right.columns.map (qualifiedName
      ((withPrefixes d current).scope.choosePrefix clause.table clause.alias?)) := rfl

/-- Renaming the columns keeps their number. -/
theorem withPrefixes_width :
    (withPrefixes d current).table.columns.length = current.table.columns.length := by
  unfold withPrefixes
  split
  · rfl
  · exact List.length_map ..

/-- Renaming the columns keeps every cell in its place. -/
theorem withPrefixes_cellRows :
    (withPrefixes d current).table.cellRows = current.table.cellRows := by
  unfold withPrefixes
  split
  · rfl
  · exact Snapshot.cellRows_qualify ..

/-- A joined table is as wide as its two sides together. -/
theorem joinStep_width : (joinStep d current clause right).result.columns.length
    = (joinStep d current clause right).left.columns.length
      + (joinStep d current clause right).right.columns.length := by
  rw [joinStep_columns, List.length_append, List.length_map, withPrefixes_width]
  rfl

/-- Under distinct names the rows of the result hold the cells of their sources. -/
theorem joinStep_cellRows (h : (joinStep d current clause right).result.columns.Nodup) :
    (joinStep d current clause right).result.cellRows
      = (joined d current clause right).pairs.sources.map fun (i, j) =>
        (joinStep d current clause right).left.cellsOrNulls i
          ++ (joinStep d current clause right).right.cellsOrNulls j := by
  rw [joinStep_columns] at h
  have hleft : ∀ i, (withPrefixes d current).table.cellsOrNulls i
      = (joinStep d current clause right).left.cellsOrNulls i :=
    Snapshot.cellsOrNulls_congr (withPrefixes_cellRows d current) (withPrefixes_width d current)
  refine (cellRows_joinTables h _ clause "joined").trans ?_
  exact List.map_congr_left fun (i, j) _ => congrArg (· ++ right.cellsOrNulls j) (hleft i)

/-- A join loses nothing exactly when the names of its columns differ. -/
theorem joinStep_lossless_iff : (joinStep d current clause right).Lossless
    ↔ (joinStep d current clause right).result.columns.Nodup := by
  refine ⟨fun h => h.distinct, fun h => ⟨joinStep_width d current clause right, h, clause.kind, rfl,
    _, ?_, joinStep_cellRows d current clause right h⟩⟩
  exact sources_perm ..

end Stage

/-! ## The columns of a run -/

/-- The columns of the table that a step reads. -/
def Step.columnsRead? : Step → Option (List String)
  | .scan s => some s.result.columns
  | .join s => some s.right.columns
  | _ => none

/-- The columns of the tables that steps have read, table by table. -/
def columnsRead (steps : List Step) : List (List String) := steps.filterMap Step.columnsRead?

theorem columnsRead_join (shown : List Step) (s : JoinStep) :
    columnsRead (shown ++ [.join s]) = columnsRead shown ++ [s.right.columns] := by
  rw [columnsRead, List.filterMap_append]
  rfl

/-- A join behind other steps has the columns of all tables read so far, each behind its
    prefix, and loses nothing exactly when their names differ. -/
structure JoinStep.Prefixed (s : JoinStep) (d : Descriptor) (tables : List (List String)) : Prop where
  columns : s.result.columns = prefixedColumns d.prefixes tables
  distinct : ∀ columns ∈ tables, columns.Nodup
  width : s.result.columns.length = s.left.columns.length + s.right.columns.length
  lossless_iff : s.Lossless ↔ s.result.columns.Nodup

/-- All joins among the steps are such. -/
def JoinsPrefixed (d : Descriptor) (shown : List Step) : Prop :=
  ∀ front s, front ++ [.join s] <+: shown → s.Prefixed d (columnsRead (front ++ [.join s]))

theorem joinsPrefixed_nil (d : Descriptor) : JoinsPrefixed d [] := fun _ _ hfront =>
  absurd (List.prefix_nil.mp hfront) (by simp)

/-- One more step keeps the property when, being a join, it has it. -/
theorem JoinsPrefixed.concat {d : Descriptor} {shown : List Step} {step : Step}
    (h : JoinsPrefixed d shown)
    (hstep : ∀ s, step = .join s → s.Prefixed d (columnsRead (shown ++ [.join s]))) :
    JoinsPrefixed d (shown ++ [step]) := by
  intro front s hfront
  rcases List.prefix_concat_iff.mp hfront with heq | hbefore
  · obtain ⟨rfl, hs⟩ := List.append_inj' heq rfl
    exact hstep s (List.singleton_inj.mp hs).symm
  · exact h front s hbefore

/-- The running table behind some joins: with prefixes its columns are those of all
    tables read so far. -/
structure Running.Prefixed (current : Running) (d : Descriptor) (shown : List Step)
    (behind : List JoinClause) : Prop where
  joins : JoinsPrefixed d shown
  scope : (Stage.withPrefixes d current).scope = d.scopeBehind behind
  columns : (Stage.withPrefixes d current).table.columns
    = prefixedColumns (d.scopeBehind behind).taken (columnsRead shown)
  length : (d.scopeBehind behind).taken.length = (columnsRead shown).length
  distinct : ∀ columns ∈ columnsRead shown, columns.Nodup

namespace Stage

open Dialogue

variable {d : Descriptor} {asked : List (String × Reply)} {shown : List Step}

/-- What follows a scan may rely on column names that differ. -/
theorem scan_distinct {inv : List (String × Reply) → List Step → Prop}
    {post : List (String × Reply) → List Step → Snapshot → Prop} (table : String)
    (hpost : ∀ asked' (scanned : Snapshot), scanned.columns.Nodup → post asked' shown scanned) :
    (scan table).Maintains inv post asked shown := by
  refine maintains_bind (maintains_fetch fun reply => maintains_pure ?_)
  exact hpost _ _ (uniqueNames_nodup _)

/-- One more table behind the prefix that is chosen for it. -/
theorem joinStep_prefixed {current : Running} {behind rest : List JoinClause} {clause : JoinClause}
    {right : Snapshot} (h : current.Prefixed d shown behind)
    (hjoins : d.joins = behind ++ clause :: rest) (hright : right.columns.Nodup) :
    Running.Prefixed ⟨(joinStep d current clause right).result,
        (withPrefixes d current).scope.add clause.qualifier
          ((withPrefixes d current).scope.choosePrefix clause.table clause.alias?)⟩
      d (shown ++ [.join (joinStep d current clause right)]) (behind ++ [clause]) := by
  have hread : columnsRead (shown ++ [.join (joinStep d current clause right)])
      = columnsRead shown ++ [right.columns] := columnsRead_join ..
  have hdistinct : ∀ columns ∈ columnsRead (shown ++ [.join (joinStep d current clause right)]),
      columns.Nodup := by
    rw [hread]
    exact List.forall_mem_append.mpr ⟨h.distinct, List.forall_mem_singleton.mpr hright⟩
  -- the join takes one more prefix and reads the columns of one more table
  have htaken : (d.scopeBehind (behind ++ [clause])).taken = (d.scopeBehind behind).taken
      ++ [(d.scopeBehind behind).choosePrefix clause.table clause.alias?] := by
    rw [Sql.Descriptor.scopeBehind_concat, Scope.taken_add]
  have hlength : (d.scopeBehind (behind ++ [clause])).taken.length
      = (columnsRead (shown ++ [.join (joinStep d current clause right)])).length := by
    rw [htaken, hread, List.length_append, List.length_append, h.length]
    rfl
  have hcolumns : (joinStep d current clause right).result.columns
      = prefixedColumns (d.scopeBehind (behind ++ [clause])).taken
        (columnsRead (shown ++ [.join (joinStep d current clause right)])) := by
    rw [joinStep_columns, h.columns, h.scope, htaken, hread, prefixedColumns_concat h.length]
  -- the prefixes taken so far are a front of those of the statement
  have hprefix : (d.scopeBehind (behind ++ [clause])).taken <+: d.prefixes := by
    rw [Sql.Descriptor.prefixes, hjoins.trans (List.append_cons behind clause rest)]
    exact d.taken_scopeBehind _ rest
  constructor
  case joins =>
    refine h.joins.concat fun s hs => ?_
    obtain rfl := Step.join.inj hs
    refine ⟨?_, hdistinct, joinStep_width .., joinStep_lossless_iff ..⟩
    rw [hcolumns, prefixedColumns, prefixedColumns, zip_of_prefix hprefix hlength]
  case scope =>
    rw [withPrefixes, if_pos (by simp [Scope.isPrefixed, Scope.add]),
      Sql.Descriptor.scopeBehind_concat, ← h.scope]
  case columns =>
    rw [withPrefixes, if_pos (by simp [Scope.isPrefixed, Scope.add])]
    exact hcolumns
  case length => exact hlength
  case distinct => exact hdistinct

/-- One join leaves a running table whose columns are prefixed for the clauses behind and itself.
-/
theorem join_prefixed {post : List (String × Reply) → List Step → Running → Prop}
    {current : Running} {behind rest : List JoinClause} {clause : JoinClause}
    (h : current.Prefixed d shown behind) (hjoins : d.joins = behind ++ clause :: rest)
    (hpost : ∀ asked' shown' next, next.Prefixed d shown' (behind ++ [clause]) →
      post asked' shown' next) :
    (join d current clause).Maintains (fun _ => JoinsPrefixed d) post asked shown := by
  rw [join_eq]
  refine maintains_bind (scan_distinct clause.table (fun asked' right hright => ?_))
  have hnext := joinStep_prefixed h hjoins hright
  have hshow : (showStep (.join (joinStep d current clause right)) >>= fun _ =>
      pure ⟨(joinStep d current clause right).result, (withPrefixes d current).scope.add
        clause.qualifier ((withPrefixes d current).scope.choosePrefix clause.table clause.alias?)⟩
      : Dialogue Running).Maintains (fun _ => JoinsPrefixed d) post asked' shown :=
    maintains_bind (maintains_showStep hnext.joins (maintains_pure (hpost asked' _ _ hnext)))
  split
  · exact maintains_bind (maintains_noteEvent hshow)
  · exact hshow

/-- So do the joins of a statement, by induction on the clauses still to come. -/
theorem joinAll_prefixed {post : List (String × Reply) → List Step → Running → Prop}
    (clauses : List JoinClause) (hpost : ∀ asked' shown' next, JoinsPrefixed d shown' →
      post asked' shown' next) :
    ∀ {asked : List (String × Reply)} {shown : List Step} (behind : List JoinClause)
      (current : Running), current.Prefixed d shown behind → d.joins = behind ++ clauses →
      (joinAll d current clauses).Maintains (fun _ => JoinsPrefixed d) post asked shown := by
  induction clauses with
  | nil =>
      intro asked shown behind current h _
      exact maintains_pure (hpost _ _ _ h.joins)
  | cons clause rest ih =>
      intro asked shown behind current h hjoins
      refine maintains_bind (join_prefixed h hjoins fun _ _ next hnext => ?_)
      exact ih (behind ++ [clause]) next hnext (hjoins.trans (List.append_cons ..))

end Stage

namespace Replay

open Dialogue

variable {d : Descriptor} {asked : List (String × Reply)} {shown : List Step}

/-- Steps of other kinds are no joins. -/
theorem rest_prefixed {α : Type} {dialogue : Dialogue α} {kinds : List String}
    (hshows : dialogue.Shows kinds) (hkinds : "Join" ∉ kinds) (h : JoinsPrefixed d shown) :
    dialogue.Maintains (fun _ => JoinsPrefixed d) (fun _ _ _ => True) asked shown := by
  refine hshows.maintains (fun _ _ _ hinv => hinv) ?_ h
  intro asked shown step hkind hinv
  refine hinv.concat fun s hs => ?_
  rw [hs] at hkind
  exact absurd hkind hkinds

/-- The first table, before it has a prefix. -/
theorem scanned_prefixed {base : String} {scanned : Snapshot} (hbase : d.fromTable? = some base)
    (hscanned : scanned.columns.Nodup) :
    Running.Prefixed ⟨scanned, .unprefixed⟩ d [Stage.scanStep base scanned] [] := by
  have hread : columnsRead [Stage.scanStep base scanned] = [scanned.columns] := rfl
  have hprefixes : Stage.withPrefixes d ⟨scanned, .unprefixed⟩
      = ⟨scanned.qualify (d.fromTable?.getD ""), d.scopeBehind []⟩ := rfl
  constructor
  case joins => exact (joinsPrefixed_nil d).concat nofun
  case scope => rw [hprefixes]
  case columns =>
    have htaken : (d.scopeBehind []).taken = [base] := by
      rw [Sql.Descriptor.scopeBehind, hbase]
      rfl
    rw [hprefixes, hread, hbase, htaken, prefixedColumns]
    exact (List.flatMap_singleton ..).symm
  case length => rfl
  case distinct =>
    rw [hread]
    exact List.forall_mem_singleton.mpr hscanned

/-- The stages behind the joins: how `Replay.readSelect` ends. -/
def behindJoins (d : Sql.Descriptor) (joined : Running) : Dialogue Snapshot := do
  let filtered ← match d.filter? with
    | some condition => Stage.filter d joined.table condition
    | none => pure joined.table
  let (projected, names) ← shape d ⟨filtered, joined.scope⟩
  conclude d projected names

/-- Every join shown on the way through a `SELECT` is prefixed. -/
theorem readSelect_prefixed {sql : String} {s : Sql.Select} (hread : Sql.parse sql = .ok s) :
    (readSelect (.extract sql) s.base.name).Maintains (fun _ => JoinsPrefixed (.extract sql))
      (fun _ _ _ => True) [] [] := by
  have hbase : (Descriptor.extract sql).fromTable? = some s.base.name := by
    rw [Descriptor.extract, Descriptor.fromTable?, hread]
  generalize Descriptor.extract sql = d at hbase
  have hrest : ∀ (asked' : List (String × Reply)) (shown' : List Step) (joined : Running),
      JoinsPrefixed d shown' → (behindJoins d joined).Maintains (fun _ => JoinsPrefixed d)
        (fun _ _ _ => True) asked' shown' := by
    intro asked' shown' joined h
    have hshaped : ∀ filtered, (shape d ⟨filtered, joined.scope⟩ >>= fun p =>
        conclude d p.1 p.2).Shows _ := fun filtered =>
      shows_bind (shape_shows d _) fun p => conclude_shows d p.1 p.2
    have hkinds : ∀ {grouped filtered sorted limited : Bool}, "Join" ∉ kindIf grouped "GroupBy"
        ++ (kindIf filtered "Having" ++ ["Project"])
        ++ (kindIf sorted "OrderBy" ++ kindIf limited "Limit") :=
      fun hmem => shapedKinds_unrelational _ hmem (by decide)
    unfold behindJoins
    cases d.filter? with
    | some condition =>
        refine rest_prefixed (shows_bind (Stage.filter_shows d _ condition) hshaped) ?_ h
        exact fun hmem => hkinds ((List.mem_append.mp hmem).resolve_left (by decide))
    | none => exact rest_prefixed (hshaped joined.table) hkinds h
  refine maintains_bind (Stage.scan_distinct s.base.name (fun asked' scanned hscanned => ?_))
  have hstanding := scanned_prefixed hbase hscanned
  refine maintains_bind (maintains_showStep hstanding.joins ?_)
  exact maintains_bind (Stage.joinAll_prefixed d.joins (fun _ _ joined hjoined =>
    hrest _ _ joined hjoined) [] _ hstanding rfl)

/-- The joins of any statement have the columns of its own tables. -/
theorem statement_prefixed (sql : String) :
    (statement sql).Maintains (fun _ => JoinsPrefixed (.extract sql)) (fun _ _ _ => True) [] [] := by
  have hnil := joinsPrefixed_nil (.extract sql)
  refine statement_maintains (fun _ => readSelect_prefixed) (fun _ _ => ?_)
    fun kind => rest_prefixed (modification_shows sql kind) nofun hnil
  refine rest_prefixed (unreadSelect_shows _) ?_ hnil
  cases (Descriptor.extract sql).fromTable?.isSome <;> decide

end Replay

/-- In every run a joined table has as many columns as its two tables, and these are the
    columns of all tables read so far, in order, behind the prefixes of the statement.  No
    cell is lost, and no name comes twice, exactly when no two of these tables have a
    column of one name behind their prefixes; and that is so, whatever their columns are,
    when none of the prefixes goes on behind another one and an underscore. -/
theorem replay_join_cells {σ : Type} (engine : Engine σ) (sql : String) (s : σ)
    (before : List Step) (step : JoinStep)
    (h : before ++ [.join step] <+: (replay engine sql s).outcome.steps) :
    step.result.columns.length = step.left.columns.length + step.right.columns.length
      ∧ step.result.columns = prefixedColumns (Descriptor.extract (Sql.normalize sql)).prefixes
        (columnsRead (before ++ [.join step]))
      ∧ (step.Lossless ↔ ColumnsApart (Descriptor.extract (Sql.normalize sql)).prefixes
        (columnsRead (before ++ [.join step])))
      ∧ ((∀ p ∈ (Descriptor.extract (Sql.normalize sql)).prefixes,
          ∀ q ∈ (Descriptor.extract (Sql.normalize sql)).prefixes,
            ¬(p ++ "_").toList <+: q.toList) → step.Lossless) := by
  obtain ⟨exchanges, -, -, hjoins⟩ := Dialogue.maintains_run engine
    (fun _ _ _ hinv => hinv) (Replay.statement (Sql.normalize sql)) (s := s)
    (Replay.statement_prefixed (Sql.normalize sql)) (joinsPrefixed_nil _)
  rw [List.nil_append, ← replay_steps] at hjoins
  obtain ⟨hcolumns, hdistinct, hwidth, hlossless⟩ := hjoins before step h
  have happart : step.Lossless ↔ ColumnsApart (Descriptor.extract (Sql.normalize sql)).prefixes
      (columnsRead (before ++ [.join step])) := by
    rw [hlossless, hcolumns]
    exact prefixedColumns_nodup_iff hdistinct
  refine ⟨hwidth, hcolumns, happart, fun hprefixes => happart.mpr ?_⟩
  exact columnsApart_of_prefixes (Sql.Descriptor.prefixes_nodup _) hprefixes

/-- A step of this kind is a join. -/
theorem Step.join_of_kind {step : Step} (h : step.kind = "Join") : ∃ s, step = .join s := by
  cases step with
  | join s => exact ⟨s, rfl⟩
  | _ => exact absurd h (by simp [Step.kind])

/-- A table joined with itself, where the second row meets none. -/
theorem replay_join_cells_self :
    ∃ before step, before ++ [.join step] <+: (replay (Engine.scripted none)
        "SELECT t.x FROM t LEFT JOIN t AS u ON t.x = u.y"
        [.ok ⟨["id", "x", "y"], [[.int 1, .int 10, .int 5], [.int 2, .int 20, .int 10]]⟩,
          .ok ⟨["id", "x", "y"], [[.int 1, .int 10, .int 5], [.int 2, .int 20, .int 10]]⟩]).outcome.steps
      ∧ step.Lossless ∧ step.result.columns = ["t_x", "t_y", "u_x", "u_y"] := by
  have hprefixes : (Descriptor.extract (Sql.normalize
      "SELECT t.x FROM t LEFT JOIN t AS u ON t.x = u.y")).prefixes = ["t", "u"] := by decide +kernel
  have hshown : (replay (Engine.scripted none) "SELECT t.x FROM t LEFT JOIN t AS u ON t.x = u.y"
      [.ok ⟨["id", "x", "y"], [[.int 1, .int 10, .int 5], [.int 2, .int 20, .int 10]]⟩,
        .ok ⟨["id", "x", "y"], [[.int 1, .int 10, .int 5], [.int 2, .int 20, .int 10]]⟩]).outcome.steps.map
          (fun step => (step.kind, step.result.columns))
      = [("Scan", ["x", "y"]), ("Join", ["t_x", "t_y", "u_x", "u_y"]), ("Project", ["x"])] := by
    decide +kernel
  have htheorem := replay_join_cells (Engine.scripted none)
    "SELECT t.x FROM t LEFT JOIN t AS u ON t.x = u.y"
    [.ok ⟨["id", "x", "y"], [[.int 1, .int 10, .int 5], [.int 2, .int 20, .int 10]]⟩,
      .ok ⟨["id", "x", "y"], [[.int 1, .int 10, .int 5], [.int 2, .int 20, .int 10]]⟩]
  rw [hprefixes] at htheorem
  generalize (replay (Engine.scripted none) _ _).outcome.steps = steps at htheorem hshown ⊢
  obtain ⟨scanned, steps, rfl, -, hshown⟩ := List.map_eq_cons_iff.mp hshown
  obtain ⟨joined, steps, rfl, hjoin, -⟩ := List.map_eq_cons_iff.mp hshown
  obtain ⟨hkind, hcolumns⟩ := Prod.mk.inj hjoin
  obtain ⟨step, rfl⟩ := Step.join_of_kind hkind
  have hfront : [scanned] ++ [.join step] <+: scanned :: .join step :: steps := ⟨steps, rfl⟩
  exact ⟨[scanned], step, hfront, (htheorem _ step hfront).2.2.2 (by decide), hcolumns⟩

/-- Column `b_c` of a table `a` and column `c` of a table `a_b` have one name in the
    joined table, and the value of the first is lost. -/
theorem replay_join_collision :
    ∃ before step, before ++ [.join step] <+: (replay (Engine.scripted none) "SELECT * FROM a, a_b"
        [.ok ⟨["__sqlstep_rowid", "b_c"], [[.int 1, .int 10]]⟩,
          .ok ⟨["__sqlstep_rowid", "c"], [[.int 1, .int 20]]⟩]).outcome.steps
      ∧ step.result.columns = ["a_b_c", "a_b_c"]
      ∧ step.result.rows.map (·.map Prod.fst) = [["a_b_c"]] ∧ ¬step.Lossless := by
  have hshown : (replay (Engine.scripted none) "SELECT * FROM a, a_b"
      [.ok ⟨["__sqlstep_rowid", "b_c"], [[.int 1, .int 10]]⟩,
        .ok ⟨["__sqlstep_rowid", "c"], [[.int 1, .int 20]]⟩]).outcome.steps.map
          (fun step => (step.kind, step.result.columns, step.result.rows.map (·.map Prod.fst)))
      = [("Scan", ["b_c"], [["b_c"]]), ("Join", ["a_b_c", "a_b_c"], [["a_b_c"]]),
        ("Project", ["a_b_c", "a_b_c_1"], [["a_b_c", "a_b_c_1"]])] := by decide +kernel
  generalize (replay (Engine.scripted none) _ _).outcome.steps = steps at hshown ⊢
  obtain ⟨scanned, steps, rfl, -, hshown⟩ := List.map_eq_cons_iff.mp hshown
  obtain ⟨joined, steps, rfl, hjoin, -⟩ := List.map_eq_cons_iff.mp hshown
  obtain ⟨hkind, hjoin⟩ := Prod.mk.inj hjoin
  obtain ⟨hcolumns, hrows⟩ := Prod.mk.inj hjoin
  obtain ⟨step, rfl⟩ := Step.join_of_kind hkind
  have hcolumns : step.result.columns = ["a_b_c", "a_b_c"] := hcolumns
  refine ⟨[scanned], step, ⟨steps, rfl⟩, hcolumns, hrows, fun hlossless => ?_⟩
  have hdistinct := hlossless.distinct
  rw [hcolumns] at hdistinct
  exact absurd hdistinct (by decide)

end QueryReplay
