import QueryReplay.Proofs.Equality
import QueryReplay.Proofs.Chaining
import QueryReplay.Proofs.Qualifiers

/-! # Projection — a row of the result for each row of the input

    The items of a statement become columns of three sorts: those that wildcards stand for,
    references that the scope resolves, and expressions, which the engine computes.  The
    computed ones are counted by themselves, so a column has a position in the result and,
    if it is computed, another one in the engine's answer.  The route:

    * what a row of the input finds in the answer are the values behind the first row with
      its identity (`lookup_valuesById`), whatever the order of rows whose identities
      differ (`Reply.valuesOf_perm`);
    * the columns are those of the items in order, with the computed ones numbered through
      (`outputs_eq`), so the position of a computed one is the number of computed ones
      before it (`cells_numbered`);
    * so the step reproduces its sources cell by cell (`projectStep_reproduces`);
    * in every run it is the step for the scope of all tables (`joinAll_scope`) and for the
      answer to the expressions of its computed columns (`projectRows_maintains`). -/

namespace QueryReplay

open Sql (Descriptor SelectColumn ClauseKind JoinClause)

/-! ## The values of an answer -/

namespace Reply

/-- The values in the first row of an answer that begins with an identity, of the rows that
    are long enough to have one. -/
def valuesOf (r : Reply) (width : Nat) (id : RowId) : Option (List Json) :=
  (r.rows.find? fun row => width ≤ row.length ∧ (row.take width).map Json.int64? = id).map
    (·.drop width)

/-- The identities that the rows begin with which are long enough to have one. -/
def identities (r : Reply) (width : Nat) : List RowId :=
  (r.rows.filter (width ≤ ·.length)).map fun row => (row.take width).map Json.int64?

end Reply

namespace Stage

/-- What is found under an identity is what the reply says of it. -/
theorem lookup_valuesById (width : Nat) (r : Reply) (id : RowId) :
    (valuesById width r).lookup id = r.valuesOf width id := by
  rw [valuesById, Reply.valuesOf]
  induction r.rows with
  | nil => rfl
  | cons row rest ih =>
      rw [List.filterMap_cons, List.find?_cons]
      by_cases hshort : row.length < width
      · rw [if_pos hshort, decide_eq_false fun h => absurd hshort (Nat.not_lt.mpr h.1)]
        exact ih
      rw [if_neg hshort]
      dsimp only
      rw [List.lookup_cons, ih]
      by_cases hid : (row.take width).map Json.int64? = id
      · rw [decide_eq_true ⟨Nat.not_lt.mp hshort, hid⟩, beq_iff_eq.mpr hid.symm]
        rfl
      · rw [decide_eq_false fun h => hid h.2, beq_false_of_ne fun heq => hid heq.symm]

theorem keys_valuesById (width : Nat) (r : Reply) :
    (valuesById width r).map Prod.fst = r.identities width := by
  rw [valuesById, Reply.identities]
  induction r.rows with
  | nil => rfl
  | cons row rest ih =>
      rw [List.filterMap_cons, List.filter_cons]
      by_cases hshort : row.length < width
      · rw [if_pos hshort, if_neg (by simpa using hshort)]
        exact ih
      · rw [if_neg hshort, if_pos (by simpa using hshort)]
        exact congrArg (_ :: ·) ih

end Stage

/-- The order of rows with distinct identities does not matter. -/
theorem Reply.valuesOf_perm {r r' : Reply} {width : Nat} (h : r'.rows.Perm r.rows)
    (hnodup : (r.identities width).Nodup) (id : RowId) :
    r'.valuesOf width id = r.valuesOf width id := by
  rw [← Stage.keys_valuesById] at hnodup
  rw [← Stage.lookup_valuesById, ← Stage.lookup_valuesById]
  exact lookup_perm (h.filterMap _) hnodup id

/-! ## The columns of a statement -/

/-- The columns of an item, before their names are made distinct. -/
def shownColumns (scope : Scope) (columns : List String) (c : SelectColumn) :
    List ProjectedColumn :=
  match c.kind with
  | .wildcard => columns.map fun name => ⟨c.expression, none, name, some name⟩
  | .tableWildcard table =>
    (scope.columnsOf columns table).map fun (name, own) => ⟨c.expression, none, own, some name⟩
  | .column ref => [⟨c.expression, c.alias?, c.outputName, scope.resolve? columns ref⟩]
  | .expression => [⟨c.expression, c.alias?, c.outputName, none⟩]

/-- The expressions of the columns that are computed. -/
def computedOf (columns : List ProjectedColumn) : List String :=
  (columns.filter (·.source.isNone)).map (·.expression)

/-- Columns under names that differ. -/
def renamedApart (columns : List ProjectedColumn) : List ProjectedColumn :=
  (columns.zip (uniqueNames (columns.map (·.outputName)))).map fun (c, name) =>
    { c with outputName := name }

/-- The cells of a row with the given computed values: those of the source columns, and where
    there is no source, the values in order. -/
def cellsFrom (sources : List (Option String)) (row : Row) (values : List Json) : List Json :=
  sources.mapIdx fun k source =>
    match source with
    | some column => Json.Members.getD row column
    | none => values.getD ((sources.take k).countP Option.isNone) .null

namespace Stage

/-- Columns with their sources, the computed ones numbered from `count` on. -/
def numbered (count : Nat) : List ProjectedColumn → List Output
  | [] => []
  | c :: rest =>
    match c.source with
    | some column => ⟨c.expression, c.alias?, c.outputName, .column column⟩ :: numbered count rest
    | none => ⟨c.expression, c.alias?, c.outputName, .computed count⟩ :: numbered (count + 1) rest

/-- Computed columns are numbered through. -/
theorem numbered_append (count : Nat) (front back : List ProjectedColumn) :
    numbered count (front ++ back)
      = numbered count front ++ numbered (count + (computedOf front).length) back := by
  induction front generalizing count with
  | nil => rfl
  | cons c front ih =>
      rw [List.cons_append, numbered, numbered]
      cases hsource : c.source with
      | some column =>
          have hcount : computedOf (c :: front) = computedOf front := by
            rw [computedOf, List.filter_cons, hsource]
            rfl
          rw [hcount, List.cons_append, ih]
      | none =>
          have hcount : (computedOf (c :: front)).length = (computedOf front).length + 1 := by
            rw [computedOf, List.filter_cons, hsource]
            rfl
          rw [hcount, ← Nat.add_assoc, Nat.add_right_comm, ih (count + 1)]
          rfl

theorem computedOf_append (front back : List ProjectedColumn) :
    computedOf (front ++ back) = computedOf front ++ computedOf back := by
  rw [computedOf, List.filter_append, List.map_append]
  rfl

/-- Columns with a source are not computed. -/
theorem numbered_map {α : Type} (l : List α) (expression : α → String) (alias? : α → Option String)
    (name source : α → String) (count : Nat) :
    numbered count (l.map fun a => ⟨expression a, alias? a, name a, some (source a)⟩)
        = l.map (fun a => ⟨expression a, alias? a, name a, .column (source a)⟩)
      ∧ computedOf (l.map fun a => ⟨expression a, alias? a, name a, some (source a)⟩) = [] := by
  induction l with
  | nil => exact ⟨rfl, rfl⟩
  | cons a rest ih => exact ⟨congrArg (_ :: ·) ih.1, ih.2⟩

/-- An item shows its columns, those that are computed with numbers. -/
theorem outputsOf_eq (scope : Scope) (columns : List String) (count : Nat) (c : SelectColumn) :
    outputsOf scope columns count c
      = (numbered count (shownColumns scope columns c),
        computedOf (shownColumns scope columns c)) := by
  unfold outputsOf shownColumns
  cases c.kind with
  | wildcard =>
      obtain ⟨hnumbered, hnone⟩ := numbered_map columns (fun _ => c.expression) (fun _ => none)
        id id count
      exact (Prod.ext hnumbered hnone).symm
  | tableWildcard table =>
      obtain ⟨hnumbered, hnone⟩ := numbered_map (scope.columnsOf columns table)
        (fun _ => c.expression) (fun _ => none) Prod.snd Prod.fst count
      exact (Prod.ext hnumbered hnone).symm
  | column ref =>
      dsimp only
      cases scope.resolve? columns ref <;> rfl
  | expression => rfl

/-- The columns of all items, the computed ones numbered through. -/
theorem outputs_eq (scope : Scope) (columns : List String) (items : List SelectColumn) :
    outputs scope columns items = (numbered 0 (items.flatMap (shownColumns scope columns)),
      computedOf (items.flatMap (shownColumns scope columns))) := by
  induction items using List.reverseRecOn with
  | nil => rfl
  | append_singleton items c ih =>
      rw [outputs, List.foldl_concat, ← outputs, ih]
      dsimp only
      rw [outputsOf_eq, List.flatMap_append, List.flatMap_singleton, numbered_append,
        computedOf_append, Nat.zero_add]

theorem names_numbered (count : Nat) (columns : List ProjectedColumn) :
    (numbered count columns).map Output.name = columns.map (·.outputName) := by
  induction columns generalizing count with
  | nil => rfl
  | cons c rest ih =>
      rw [numbered]
      cases c.source with
      | some column => exact congrArg (c.outputName :: ·) (ih count)
      | none => exact congrArg (c.outputName :: ·) (ih (count + 1))

/-- Columns with new names keep their sources. -/
theorem toColumn_numbered (count : Nat) (columns : List ProjectedColumn) (names : List String) :
    ((numbered count columns).zip names).map (fun (o, name) => o.toColumn name)
      = (columns.zip names).map fun (c, name) => { c with outputName := name } := by
  induction columns generalizing count names with
  | nil => rfl
  | cons c rest ih =>
      obtain ⟨expression, alias?, outputName, source⟩ := c
      cases names with
      | nil => rw [List.zip_nil_right, List.zip_nil_right]; rfl
      | cons name names =>
          cases source with
          | some column => exact congrArg (_ :: ·) (ih count names)
          | none => exact congrArg (_ :: ·) (ih (count + 1) names)

/-- Each column shows its source, or the value at its position among the computed ones. -/
theorem cells_numbered (count : Nat) (columns : List ProjectedColumn) (row : Row)
    (values : List Json) :
    (numbered count columns).map (fun o => o.cell row values)
      = cellsFrom (columns.map (·.source)) row (values.drop count) := by
  induction columns generalizing count with
  | nil => rfl
  | cons c rest ih =>
      have hbefore : ∀ (source : Option String) k,
          ((source :: rest.map (·.source)).take (k + 1)).countP Option.isNone
            = ((rest.map (·.source)).take k).countP Option.isNone
              + if source.isNone then 1 else 0 := fun _ _ => List.countP_cons ..
      rw [numbered, cellsFrom, List.map_cons, List.mapIdx_cons]
      simp only [hbefore]
      cases c.source with
      | some column => exact congrArg (_ :: ·) (ih count)
      | none =>
          have hfirst : values.getD count .null = (values.drop count).getD 0 .null := by
            simp
          have hrest : ∀ j, (values.drop count).getD (j + 1) .null
              = (values.drop (count + 1)).getD j .null := by
            intro j
            simp [Nat.add_comm, Nat.add_left_comm]
          simp only [Option.isNone_none, if_true, hrest]
          exact congr (congrArg List.cons hfirst) (ih (count + 1))

end Stage

/-! ## Columns under names that differ -/

section Renamed

variable (columns : List ProjectedColumn)

/-- The names change, and all else of a column stays. -/
theorem map_renamedApart {β : Type} {f : ProjectedColumn → β}
    (hf : ∀ c name, f { c with outputName := name } = f c) :
    (renamedApart columns).map f = columns.map f := by
  have hlength : columns.length ≤ (uniqueNames (columns.map (·.outputName))).length := by
    rw [uniqueNames_length, List.length_map]
  conv_rhs => rw [← List.map_fst_zip hlength, List.map_map]
  rw [renamedApart, List.map_map]
  exact List.map_congr_left fun (c, name) _ => hf c name

theorem names_renamedApart :
    (renamedApart columns).map (·.outputName) = uniqueNames (columns.map (·.outputName)) := by
  rw [renamedApart, List.map_map]
  refine List.map_snd_zip ?_
  rw [uniqueNames_length, List.length_map]

theorem computedOf_renamedApart : computedOf (renamedApart columns) = computedOf columns := by
  have hpairs : ∀ columns : List ProjectedColumn, computedOf columns
      = ((columns.map fun c => (c.source, c.expression)).filter (·.1.isNone)).map Prod.snd := by
    intro columns
    rw [List.filter_map, List.map_map]
    rfl
  rw [hpairs, hpairs columns, map_renamedApart columns fun _ _ => rfl]

end Renamed

/-! ## The step -/

namespace ProjectStep

/-- The values that an answer has for a row of the input. -/
def valuesFor (p : ProjectStep) (width : Nat) (answer : Reply) (i : Nat) : List Json :=
  ((p.input.rowId? i).bind (answer.valuesOf width)).getD []

/-- A projection that reproduces its sources: a row for each row of the input, under column
    names that differ, with the cells of the source columns and the values that the answer
    has for the identity of the row. -/
structure Reproduces (p : ProjectStep) (width : Nat) (answer : Reply) : Prop where
  columns : p.result.columns = p.columns.map (·.outputName)
  distinct : p.result.columns.Nodup
  size : p.result.size = p.input.size
  names : ∀ row ∈ p.result.rows, row.map Prod.fst = p.result.columns
  cells : ∀ i, p.result.cells? i
    = p.input.rows[i]?.map fun row =>
      cellsFrom (p.columns.map (·.source)) row (p.valuesFor width answer i)

end ProjectStep

/-- Values count only where there is no source, and a missing one is null. -/
theorem cellsFrom_congr {sources : List (Option String)} {values values' : List Json} (row : Row)
    (h : none ∈ sources → ∀ j, values.getD j .null = values'.getD j .null) :
    cellsFrom sources row values = cellsFrom sources row values' := by
  refine List.ext_getElem? fun k => ?_
  rw [cellsFrom, cellsFrom, List.getElem?_mapIdx, List.getElem?_mapIdx]
  cases hsource : sources[k]? with
  | none => rfl
  | some source =>
      cases source with
      | some column => rfl
      | none => exact congrArg some (h (List.mem_of_getElem? hsource) _)

theorem length_cellsFrom (sources : List (Option String)) (row : Row) (values : List Json) :
    (cellsFrom sources row values).length = sources.length := List.length_mapIdx

/-- A column without a source has to be computed. -/
theorem computedOf_ne_nil {columns : List ProjectedColumn} (h : none ∈ columns.map (·.source)) :
    computedOf columns ≠ [] := by
  obtain ⟨c, hc, hsource⟩ := List.mem_map.mp h
  have hcomputed : c ∈ columns.filter (·.source.isNone) :=
    List.mem_filter.mpr ⟨hc, by rw [hsource]; rfl⟩
  exact List.ne_nil_of_mem (List.mem_map_of_mem hcomputed)

namespace Stage

/-- The columns of the items, before their names are made distinct. -/
def itemColumns (d : Descriptor) (current : Running) : List ProjectedColumn :=
  d.columns.flatMap (shownColumns current.scope current.table.columns)

/-- The values that an answer has for a row of a table. -/
def valuesAt (d : Descriptor) (table : Snapshot) (answer : Reply) (i : Nat) : List Json :=
  ((table.rowId? i).bind (answer.valuesOf d.qualifiers.length)).getD []

/-- The step that is shown for a table and the answer to its computed columns. -/
def projectStep (d : Descriptor) (current : Running) (answer : Reply) : ProjectStep :=
  let columns := itemColumns d current
  let names := uniqueNames (columns.map (·.outputName))
  { description := projectDescription d
    columns := renamedApart columns
    input := current.table
    result :=
      { name := "projected", columns := names, rowIds := current.table.rowIds
        rows := current.table.rows.mapIdx fun i row =>
          names.zip (cellsFrom (columns.map (·.source)) row (valuesAt d current.table answer i)) } }

/-- The step as it is put together from values row by row. -/
def stepShown (d : Descriptor) (current : Running) (values : List (List Json)) : ProjectStep :=
  let outs := numbered 0 (itemColumns d current)
  let names := uniqueNames (outs.map Output.name)
  { description := projectDescription d
    columns := (outs.zip names).map fun (o, name) => o.toColumn name
    input := current.table
    result :=
      { name := "projected", columns := names, rowIds := current.table.rowIds
        rows := current.table.rows.zipIdx.map fun (row, i) =>
          names.zip (outs.map fun o => o.cell row (values.getD i [])) } }

variable {d : Descriptor} {current : Running}

/-- Values that show the same cells as an answer make the same step. -/
theorem stepShown_eq {values : List (List Json)} {answer : Reply}
    (h : computedOf (itemColumns d current) ≠ [] → ∀ i < current.table.size, ∀ j,
      (values.getD i []).getD j .null = (valuesAt d current.table answer i).getD j .null) :
    stepShown d current values = projectStep d current answer := by
  have hrows : ∀ names : List String,
      (current.table.rows.zipIdx.map fun (row, i) =>
        names.zip ((numbered 0 (itemColumns d current)).map fun o => o.cell row (values.getD i [])))
      = current.table.rows.mapIdx fun i row => names.zip
        (cellsFrom ((itemColumns d current).map (·.source)) row
          (valuesAt d current.table answer i)) := by
    intro names
    rw [List.mapIdx_eq_zipIdx_map]
    refine List.map_congr_left fun (row, i) hmem => congrArg (names.zip ·) ?_
    have hi : i < current.table.size :=
      (List.getElem?_eq_some_iff.mp (List.mem_zipIdx_iff_getElem?.mp hmem)).1
    refine (cells_numbered 0 _ row _).trans (cellsFrom_congr row fun hnone => ?_)
    exact h (computedOf_ne_nil hnone) i hi
  unfold stepShown projectStep
  dsimp only
  rw [names_numbered, toColumn_numbered, hrows]
  rfl

/-- Only if something must be computed the engine is asked. -/
theorem projectRows_shown (hdistinct : d.distinct = false) : projectRows d current
    = (if (computedOf (itemColumns d current)).isEmpty then pure []
        else evaluate d current.table (computedOf (itemColumns d current))) >>= fun values =>
      Dialogue.showStep (.project (stepShown d current values)) >>= fun _ =>
      pure ((stepShown d current values).result, (stepShown d current values).result.columns) := by
  unfold projectRows
  dsimp only
  rw [outputs_eq, ← itemColumns, hdistinct]
  split <;> rfl

/-- A row finds the values of its identity in the answer, or nulls. -/
theorem valuesAt_evaluated (answer : Reply) (count : Nat) {i : Nat} (hi : i < current.table.size)
    (j : Nat) :
    ((((List.range current.table.size).map fun i => ((current.table.rowId? i).bind fun id =>
        (valuesById d.qualifiers.length answer).lookup id).getD
          (List.replicate count Json.null)).getD i []).getD j .null)
      = (valuesAt d current.table answer i).getD j .null := by
  have hrow : ((List.range current.table.size).map fun i => ((current.table.rowId? i).bind fun id =>
      (valuesById d.qualifiers.length answer).lookup id).getD (List.replicate count Json.null)).getD
        i [] = ((current.table.rowId? i).bind (answer.valuesOf d.qualifiers.length)).getD
          (List.replicate count Json.null) := by
    rw [List.getD_eq_getElem?_getD, List.getElem?_map, List.getElem?_range hi, Option.map_some,
      Option.getD_some]
    simp only [lookup_valuesById]
  rw [hrow, valuesAt]
  cases (current.table.rowId? i).bind (answer.valuesOf d.qualifiers.length) with
  | some values => rfl
  | none =>
      rw [Option.getD_none, Option.getD_none, List.getD_eq_getElem?_getD, List.getElem?_replicate]
      split <;> rfl

/-- What is shown for a table is the step for it and for some answer; if columns are computed,
    it is the engine's answer to their expressions. -/
theorem projectRows_maintains {inv : List (String × Reply) → List Step → Prop}
    {post : List (String × Reply) → List Step → Snapshot × List String → Prop}
    {asked : List (String × Reply)} {shown : List Step} (hdistinct : d.distinct = false)
    (hstep : ∀ exchanges answer, asked <+: exchanges →
      (computedOf (itemColumns d current) ≠ [] →
        exchanges = asked ++ [(perRowQuery d (computedOf (itemColumns d current)), answer)]) →
      inv exchanges (shown ++ [.project (projectStep d current answer)])
        ∧ ∀ a, post exchanges (shown ++ [.project (projectStep d current answer)]) a) :
    (projectRows d current).Maintains inv post asked shown := by
  rw [projectRows_shown hdistinct]
  by_cases hnone : (computedOf (itemColumns d current)).isEmpty = true
  · rw [if_pos hnone]
    have hnil := List.isEmpty_iff.mp hnone
    obtain ⟨hinv, hpost⟩ := hstep asked ⟨[], []⟩ (List.prefix_refl _) fun hsome => absurd hnil hsome
    refine Dialogue.maintains_bind (Dialogue.maintains_pure ?_)
    rw [stepShown_eq fun hsome => absurd hnil hsome]
    exact Dialogue.maintains_bind (Dialogue.maintains_showStep hinv
      (Dialogue.maintains_pure (hpost _)))
  · rw [if_neg hnone]
    refine Dialogue.maintains_bind (Dialogue.maintains_bind (Dialogue.maintains_fetch fun answer =>
      Dialogue.maintains_pure ?_))
    obtain ⟨hinv, hpost⟩ := hstep _ answer (List.prefix_append ..) fun _ => rfl
    rw [stepShown_eq fun _ i hi j => valuesAt_evaluated answer _ hi j]
    exact Dialogue.maintains_bind (Dialogue.maintains_showStep hinv
      (Dialogue.maintains_pure (hpost _)))

/-- The step holds what the table and the answer say, column by column. -/
theorem projectStep_reproduces (answer : Reply) :
    (projectStep d current answer).Reproduces d.qualifiers.length answer := by
  -- renaming leaves the sources and makes the names distinct, so each cell is looked up under a
  -- name of its own
  have hsources : (projectStep d current answer).columns.map (·.source)
      = (itemColumns d current).map (·.source) := map_renamedApart _ fun _ _ => rfl
  have hnames : (uniqueNames ((itemColumns d current).map (·.outputName))).Nodup :=
    uniqueNames_nodup _
  have hlength : ∀ row values,
      (cellsFrom ((itemColumns d current).map (·.source)) row values).length
        = (uniqueNames ((itemColumns d current).map (·.outputName))).length := by
    intro row values
    rw [length_cellsFrom, List.length_map, uniqueNames_length, List.length_map]
  constructor
  case columns => exact (names_renamedApart _).symm
  case distinct => exact hnames
  case size => exact List.length_mapIdx
  case names =>
    intro row hrow
    obtain ⟨i, hi, rfl⟩ := List.mem_mapIdx.mp hrow
    exact List.map_fst_zip (Nat.le_of_eq (hlength _ _).symm)
  case cells =>
    intro i
    rw [hsources, Snapshot.cells?]
    show (List.mapIdx _ current.table.rows)[i]?.map _ = current.table.rows[i]?.map _
    rw [List.getElem?_mapIdx, Option.map_map]
    congr 1
    funext row
    refine (map_getD_zip hnames _).trans ?_
    rw [← hlength row, fitted_self]
    rfl

/-- The order of the answer's rows does not matter where their identities differ. -/
theorem projectStep_perm {answer answer' : Reply} (hperm : answer'.rows.Perm answer.rows)
    (hnodup : (answer.identities d.qualifiers.length).Nodup) :
    projectStep d current answer' = projectStep d current answer := by
  have hvalues : valuesAt d current.table answer' = valuesAt d current.table answer := by
    funext i
    rw [valuesAt, valuesAt, funext (Reply.valuesOf_perm hperm hnodup)]
  rw [projectStep, projectStep, hvalues]

end Stage

/-! ## The scope of a statement -/

/-- The scope behind some joins: no prefixes as long as there is one table. -/
def Sql.Descriptor.scopeAt (d : Descriptor) (joins : List JoinClause) : Scope :=
  if joins.isEmpty then .unprefixed else d.scopeBehind joins

theorem Stage.withPrefixes_scope {d : Descriptor} {current : Running} {behind : List JoinClause}
    (h : current.scope = d.scopeAt behind) :
    (withPrefixes d current).scope = d.scopeBehind behind := by
  obtain ⟨table, scope⟩ := current
  obtain rfl : scope = d.scopeAt behind := h
  cases behind with
  | nil => rfl
  | cons clause rest =>
      have hprefixed : (d.scopeBehind (clause :: rest)).isPrefixed = true := by
        rw [Scope.isPrefixed, Bool.not_eq_true', List.isEmpty_eq_false_iff]
        intro hnone
        have hqualifiers := d.qualifiers_scopeBehind (clause :: rest)
        rw [hnone] at hqualifiers
        exact absurd hqualifiers.symm (List.cons_ne_nil _ _)
      exact congrArg Running.scope (if_pos hprefixed)

/-! ## The step in a run -/

/-- A projection that is made of the last of the exchanges, which asked for the expressions of
    its computed columns in order. -/
structure ProjectAnswered (d : Descriptor) (exchanges : List (String × Reply)) (p : ProjectStep)
    (answer : Reply) : Prop where
  columns : p.columns
    = renamedApart (d.columns.flatMap (shownColumns (d.scopeAt d.joins) p.input.columns))
  asked : computedOf p.columns ≠ [] →
    ∃ before, exchanges = before ++ [(perRowQuery d (computedOf p.columns), answer)]
  made : p = Stage.projectStep d ⟨p.input, d.scopeAt d.joins⟩ answer
  reproduces : p.Reproduces d.qualifiers.length answer
  /-- Its rows may come in any order if their identities differ. -/
  order : ∀ answer' : Reply, answer'.rows.Perm answer.rows →
    (answer.identities d.qualifiers.length).Nodup →
    Stage.projectStep d ⟨p.input, d.scopeAt d.joins⟩ answer' = p

/-- A step of another kind, or a projection that is made of the exchanges. -/
def ToldBy (d : Descriptor) (exchanges : List (String × Reply)) (step : Step) : Prop :=
  ∀ p, step = .project p → ∃ answer, ProjectAnswered d exchanges p answer

/-- Only projections are told by answers. -/
theorem toldBy_other {d : Descriptor} {exchanges : List (String × Reply)} {step : Step}
    (h : step.kind ≠ "Project") : ToldBy d exchanges step :=
  fun _ hp => absurd (congrArg Step.kind hp) h

section Stages

open Dialogue

variable {d : Descriptor} {asked : List (String × Reply)} {shown : List Step}

namespace Stage

/-- A join adds its qualifier to the scope. -/
theorem join_scope {post : List (String × Reply) → List Step → Running → Prop} {current : Running}
    {behind : List JoinClause} {clause : JoinClause} (hscope : current.scope = d.scopeAt behind)
    (h : Traced (ToldBy d) asked shown)
    (hpost : ∀ asked' shown' next, Traced (ToldBy d) asked' shown' →
      next.scope = d.scopeAt (behind ++ [clause]) → post asked' shown' next) :
    (join d current clause).Maintains (Traced (ToldBy d)) post asked shown := by
  rw [join_eq]
  refine maintains_bind (h.through (scan_shows clause.table) nofun fun asked' shown' right h => ?_)
  have hnext : Traced (ToldBy d) asked' (shown' ++ [.join (joinStep d current clause right)]) :=
    h.concat List.nil_prefix (toldBy_other (show "Join" ≠ "Project" by decide))
  have hscope' : (withPrefixes d current).scope.add clause.qualifier
      ((withPrefixes d current).scope.choosePrefix clause.table clause.alias?)
        = d.scopeAt (behind ++ [clause]) := by
    rw [withPrefixes_scope hscope, Sql.Descriptor.scopeAt, if_neg (by simp),
      Sql.Descriptor.scopeBehind_concat]
  have hshow : (showStep (.join (joinStep d current clause right)) >>= fun _ =>
      pure ⟨(joinStep d current clause right).result, (withPrefixes d current).scope.add
        clause.qualifier ((withPrefixes d current).scope.choosePrefix clause.table clause.alias?)⟩
      : Dialogue Running).Maintains (Traced (ToldBy d)) post asked' shown' :=
    maintains_bind (maintains_showStep hnext (maintains_pure (hpost _ _ _ hnext hscope')))
  split
  · exact maintains_bind (maintains_noteEvent hshow)
  · exact hshow

/-- Behind the joins, the scope is that of the statement. -/
theorem joinAll_scope {post : List (String × Reply) → List Step → Running → Prop}
    (clauses : List JoinClause) {behind : List JoinClause} {current : Running}
    (hscope : current.scope = d.scopeAt behind) (h : Traced (ToldBy d) asked shown)
    (hpost : ∀ asked' shown' next, Traced (ToldBy d) asked' shown' →
      next.scope = d.scopeAt (behind ++ clauses) → post asked' shown' next) :
    (joinAll d current clauses).Maintains (Traced (ToldBy d)) post asked shown := by
  induction clauses generalizing behind current asked shown with
  | nil => exact maintains_pure (hpost _ _ _ h (by rwa [List.append_nil]))
  | cons clause rest ih =>
      refine maintains_bind (join_scope hscope h fun asked' shown' next h hnext => ?_)
      refine ih hnext h fun asked'' shown'' last h hlast => hpost _ _ _ h ?_
      rwa [List.append_assoc] at hlast

/-- The step of a projection is told by the exchanges up to the answer for it. -/
theorem project_told {post : List (String × Reply) → List Step → Snapshot × List String → Prop}
    {current : Running} {labels : List String} (haggregate : d.isAggregateQuery = false)
    (hdistinct : d.distinct = false) (hscope : current.scope = d.scopeAt d.joins)
    (h : Traced (ToldBy d) asked shown)
    (hpost : ∀ asked' shown' a, Traced (ToldBy d) asked' shown' → post asked' shown' a) :
    (project d current labels).Maintains (Traced (ToldBy d)) post asked shown := by
  obtain ⟨table, scope⟩ := current
  obtain rfl : scope = d.scopeAt d.joins := hscope
  rw [project, haggregate, if_neg Bool.false_ne_true]
  refine projectRows_maintains hdistinct fun exchanges answer hfront hasked => ?_
  have hcomputed : computedOf (projectStep d ⟨table, d.scopeAt d.joins⟩ answer).columns
      = computedOf (itemColumns d ⟨table, d.scopeAt d.joins⟩) := computedOf_renamedApart _
  have hnext : Traced (ToldBy d) exchanges
      (shown ++ [.project (projectStep d ⟨table, d.scopeAt d.joins⟩ answer)]) := by
    refine (h.grow hfront).concat (List.prefix_refl _) fun p hp => ?_
    obtain rfl := Step.project.inj hp
    refine ⟨answer, rfl, ?_, rfl, projectStep_reproduces answer,
      fun _ hperm hnodup => projectStep_perm hperm hnodup⟩
    rw [hcomputed]
    exact fun hsome => ⟨asked, hasked hsome⟩
  exact ⟨hnext, fun a => hpost _ _ a hnext⟩

end Stage

namespace Replay

theorem shape_told {post : List (String × Reply) → List Step → Snapshot × List String → Prop}
    {current : Running} (haggregate : d.isAggregateQuery = false) (hdistinct : d.distinct = false)
    (hscope : current.scope = d.scopeAt d.joins) (h : Traced (ToldBy d) asked shown)
    (hpost : ∀ asked' shown' a, Traced (ToldBy d) asked' shown' → post asked' shown' a) :
    (shape d current).Maintains (Traced (ToldBy d)) post asked shown := by
  have hgroups : d.groupKeys.isEmpty = true := by
    rw [Descriptor.isAggregateQuery, Bool.or_eq_false_iff, Bool.not_eq_false'] at haggregate
    exact haggregate.1
  unfold shape
  rw [if_pos hgroups]
  refine maintains_bind (maintains_pure ?_)
  cases d.having? with
  | some condition =>
      refine maintains_bind (h.through (Stage.having_shows d _ _ _ condition) (fun step hkind => ?_)
        fun _ _ kept h => Stage.project_told haggregate hdistinct hscope h hpost)
      exact toldBy_other (List.mem_singleton.mp hkind ▸ by decide)
  | none => exact maintains_bind (maintains_pure
      (Stage.project_told haggregate hdistinct hscope h hpost))

/-- All projections of a run are told by its answers. -/
theorem readSelect_told (haggregate : d.isAggregateQuery = false) (hdistinct : d.distinct = false)
    (base : String) :
    (readSelect d base).Maintains (Traced (ToldBy d)) (fun _ _ _ => True) [] [] := by
  have hrest : ∀ {asked' shown'} (filtered : Snapshot) {scope : Scope}, scope = d.scopeAt d.joins →
      Traced (ToldBy d) asked' shown' →
      (shape d ⟨filtered, scope⟩ >>= fun shaped => conclude d shaped.1 shaped.2).Maintains
        (Traced (ToldBy d)) (fun _ _ _ => True) asked' shown' := by
    intro asked' shown' filtered scope hscope h
    refine maintains_bind (shape_told haggregate hdistinct hscope h fun _ _ shaped h => ?_)
    refine h.through (conclude_shows d shaped.1 shaped.2) (fun step hkind => ?_)
      fun _ _ _ _ => trivial
    refine toldBy_other fun hproject => ?_
    rw [hproject] at hkind
    revert hkind
    cases !d.sortKeys.isEmpty <;> cases d.limit?.isSome || d.offset?.isSome <;> decide
  refine maintains_bind (traced_nil.through (Stage.scan_shows base) nofun fun _ _ scanned h => ?_)
  have hscan : Traced (ToldBy d) _ (_ ++ [Stage.scanStep base scanned]) :=
    h.concat List.nil_prefix (toldBy_other (show "Scan" ≠ "Project" by decide))
  refine maintains_bind (maintains_showStep hscan ?_)
  have hunprefixed : Scope.unprefixed = d.scopeAt [] := rfl
  refine maintains_bind (Stage.joinAll_scope d.joins hunprefixed hscan fun _ _ joined h hscope => ?_)
  cases d.filter? with
  | some condition =>
      refine maintains_bind (h.through (Stage.filter_shows d joined.table condition)
        (fun step hkind => ?_) fun _ _ filtered h => hrest filtered hscope h)
      exact toldBy_other (List.mem_singleton.mp hkind ▸ by decide)
  | none => exact maintains_bind (maintains_pure (hrest _ hscope h))

/-- Every projection of a statement without groups and DISTINCT is told by the exchanges. -/
theorem statement_told {sql : String}
    (haggregate : (Descriptor.extract sql).isAggregateQuery = false)
    (hdistinct : (Descriptor.extract sql).distinct = false) :
    (statement sql).Maintains (Traced (ToldBy (.extract sql))) (fun _ _ _ => True) [] [] := by
  have hsilent : ∀ {kinds : List String} {dialogue : Dialogue Snapshot}, dialogue.Shows kinds →
      "Project" ∉ kinds →
      dialogue.Maintains (Traced (ToldBy (.extract sql))) (fun _ _ _ => True) [] [] :=
    fun hshows hkinds => traced_nil.through hshows
      (fun _ hkind => toldBy_other fun hproject => hkinds (hproject ▸ hkind)) fun _ _ _ _ => trivial
  refine statement_maintains (fun _ _ => readSelect_told haggregate hdistinct _) (fun _ _ => ?_)
    fun kind => hsilent (modification_shows sql kind) List.not_mem_nil
  refine hsilent (unreadSelect_shows _) ?_
  cases (Descriptor.extract sql).fromTable?.isSome <;> decide

end Replay

end Stages

/-- In every replay of a SELECT without groups, aggregates and DISTINCT, whatever the engine
    answers, the projection reproduces its sources.  Its result has a row for each row of the
    input, in order, and column names that differ; a cell is that of the source column, or it
    is the value at the column's position among the computed ones, behind the identity in the
    first row of the answer that begins with the identity of the row.  The answer is the one
    to the expressions of the computed columns, and rows with identities that differ may come
    in any order. -/
theorem replay_projection {σ : Type} (engine : Engine σ) (sql : String) (s : σ)
    (haggregate : (Descriptor.extract (Sql.normalize sql)).isAggregateQuery = false)
    (hdistinct : (Descriptor.extract (Sql.normalize sql)).distinct = false) :
    ∀ p, Step.project p ∈ (replay engine sql s).outcome.steps →
      ∃ exchanges answer, exchanges.map Prod.fst <+: (replay engine sql s).calls
        ∧ engine.Answers exchanges s
        ∧ ProjectAnswered (.extract (Sql.normalize sql)) exchanges p answer := by
  intro p hshown
  rw [replay_steps] at hshown
  obtain ⟨exchanges, hcalls, hanswers, htold⟩ := Dialogue.traced_run engine s
    (Replay.statement_told haggregate hdistinct) _ hshown
  obtain ⟨answer, hanswered⟩ := htold p rfl
  exact ⟨exchanges, answer, replay_calls engine sql s ▸ hcalls, hanswers, hanswered⟩

/-- Three rows, of which the engine evaluates two, in another order and beside a row without
    an identity; one row of its answer is short. -/
def answersByRow : Script :=
  [.ok ⟨["rowid", "a"], [[.int 1, .int 10], [.int 2, .int 20], [.int 3, .int 30]]⟩,
    .ok ⟨["id", "x", "y"], [[.int 2, .int 21, .string "b"], [], [.int 1, .int 11]]⟩,
    .ok ⟨["a", "a", "b"], []⟩]

/-- The projection that a step is, if it is one. -/
def Step.projected : Step → List ProjectStep
  | .project p => [p]
  | _ => []

/-- Two computed columns around a wildcard, the second one a name that the table does not
    have. -/
theorem replay_projection_mixed :
    "Project" ∈ (replay (Engine.scripted none) "SELECT a + 1 AS a, *, b FROM t"
        answersByRow).outcome.steps.map Step.kind
      ∧ ∀ p, Step.project p ∈ (replay (Engine.scripted none) "SELECT a + 1 AS a, *, b FROM t"
          answersByRow).outcome.steps →
        p.columns.map (fun c => (c.outputName, c.source))
            = [("a", none), ("a_1", some "a"), ("b", none)]
          ∧ p.Reproduces 1
            ⟨["id", "x", "y"], [[.int 2, .int 21, .string "b"], [], [.int 1, .int 11]]⟩
          ∧ p.Reproduces 1
            ⟨["id", "x", "y"], [[.int 1, .int 11], [.int 2, .int 21, .string "b"], []]⟩ := by
  have hextracted : (Descriptor.extract (Sql.normalize
        "SELECT a + 1 AS a, *, b FROM t")).isAggregateQuery = false
      ∧ (Descriptor.extract (Sql.normalize "SELECT a + 1 AS a, *, b FROM t")).distinct = false
      ∧ (Descriptor.extract (Sql.normalize "SELECT a + 1 AS a, *, b FROM t")).qualifiers.length = 1
      ∧ perRowQuery (.extract (Sql.normalize "SELECT a + 1 AS a, *, b FROM t")) ["a + 1", "b"]
        ≠ "SELECT rowid AS __sqlstep_rowid, * FROM \"t\""
      ∧ perRowQuery (.extract (Sql.normalize "SELECT a + 1 AS a, *, b FROM t")) ["a + 1", "b"]
        ≠ "SELECT a + 1 AS a, *, b FROM t" := by decide +kernel
  obtain ⟨haggregate, hdistinct, hwidth, hscan, hwhole⟩ := hextracted
  have hran : "Project" ∈ (replay (Engine.scripted none) "SELECT a + 1 AS a, *, b FROM t"
        answersByRow).outcome.steps.map Step.kind
      ∧ (replay (Engine.scripted none) "SELECT a + 1 AS a, *, b FROM t" answersByRow).calls
        = ["SELECT rowid AS __sqlstep_rowid, * FROM \"t\"",
          perRowQuery (.extract (Sql.normalize "SELECT a + 1 AS a, *, b FROM t")) ["a + 1", "b"],
          "SELECT a + 1 AS a, *, b FROM t"]
      ∧ ((replay (Engine.scripted none) "SELECT a + 1 AS a, *, b FROM t"
        answersByRow).outcome.steps.flatMap Step.projected).map
          (fun p => (p.columns.map fun c => (c.outputName, c.source), computedOf p.columns))
        = [([("a", none), ("a_1", some "a"), ("b", none)], ["a + 1", "b"])] := by decide +kernel
  obtain ⟨hproject, hcalled, hshown⟩ := hran
  refine ⟨hproject, fun p hmem => ?_⟩
  have hself : p ∈ Step.projected (.project p) := List.mem_singleton_self p
  have hstep := List.mem_map_of_mem (f := fun p : ProjectStep =>
      (p.columns.map fun c => (c.outputName, c.source), computedOf p.columns))
    (List.mem_flatMap_of_mem hmem hself)
  rw [hshown, List.mem_singleton, Prod.mk.injEq] at hstep
  obtain ⟨hcolumns, hcomputed⟩ := hstep
  obtain ⟨_, answer, hcalls, hanswers, hanswered⟩ :=
    replay_projection _ _ _ haggregate hdistinct p hmem
  obtain ⟨before, rfl⟩ := hanswered.asked (by rw [hcomputed]; exact List.cons_ne_nil _ _)
  rw [hcalled, hcomputed, List.map_append] at hcalls
  -- the second of the three statements is the one that asks for the values
  rcases before with _ | ⟨e, _ | ⟨e', _ | ⟨e'', before⟩⟩⟩
  · exact absurd (List.cons_prefix_cons.mp hcalls).1 hscan
  · obtain ⟨-, hsecond, -⟩ := hanswers
    obtain rfl := Except.ok.inj hsecond
    have hperm := @List.perm_append_comm _ [[Json.int 1, .int 11]]
      [[.int 2, .int 21, .string "b"], []]
    have hmade := hanswered.order ⟨["id", "x", "y"], _⟩ hperm (by rw [hwidth]; decide +kernel)
    have hreordered := hmade ▸ Stage.projectStep_reproduces _
    have hreproduces := hanswered.reproduces
    rw [hwidth] at hreproduces hreordered
    exact ⟨hcolumns, hreproduces, hreordered⟩
  · exact absurd (List.cons_prefix_cons.mp (List.cons_prefix_cons.mp
      (List.cons_prefix_cons.mp hcalls).2).2).1 hwhole
  · exact absurd hcalls.length_le (by simp)

end QueryReplay
