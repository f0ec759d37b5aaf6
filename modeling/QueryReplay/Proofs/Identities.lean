import QueryReplay.Proofs.Chaining

/-! # Row identities through the relational stages

    The filter, the groups and the projection find rows by their identities, so
    these have to survive the joins.  The route:

    * a table is `Identified` over `width` tables when each row has an identity
      with a component for each of them, no two rows share one, and none is
      wholly unknown;
    * a join of two identified tables is identified (`joinTables_identified`): a
      row that an outer join fills with nulls is told from the others because no
      identity of a row is wholly unknown;
    * a scan, the joins and the filter keep the running table identified, with
      component `t` from the scan of the `t`-th table of the statement. -/

namespace QueryReplay

open Sql (Descriptor)

/-! ## Identified tables -/

/-- Each row has an identity with `width` components, its own and not wholly unknown;
    `origin t x` tells what a known component `x` in place `t` comes from. -/
structure Snapshot.Identified (table : Snapshot) (width : Nat) (origin : Nat → Int → Prop) : Prop where
  count : table.rowIds.length = table.rows.length
  width : ∀ id ∈ table.rowIds, id.length = width
  distinct : table.rowIds.Nodup
  known : ∀ id ∈ table.rowIds, ∃ x, some x ∈ id
  origin : ∀ id ∈ table.rowIds, ∀ t x, id[t]? = some (some x) → origin t x

namespace Snapshot.Identified

variable {table : Snapshot} {width : Nat} {origin : Nat → Int → Prop}

theorem mono {origin' : Nat → Int → Prop} (h : table.Identified width origin)
    (horigin : ∀ t x, origin t x → origin' t x) : table.Identified width origin' where
  count := h.count
  width := h.width
  distinct := h.distinct
  known := h.known
  origin := fun id hid t x ht => horigin t x (h.origin id hid t x ht)

theorem isIdentified (h : table.Identified width origin) : table.isIdentified = true :=
  beq_iff_eq.mpr h.count

/-- The width that a join reads off the first identity. -/
theorem head_width (h : table.Identified width origin) :
    (table.rowIds.head?.map List.length).getD width = width := by
  cases hids : table.rowIds with
  | nil => rfl
  | cons id rest => exact h.width id (hids ▸ List.mem_cons_self)

/-- The identity at an index in range is that of a row. -/
theorem rowId_mem (h : table.Identified width origin) {i : Nat} (hi : i < table.rows.length) :
    ∃ id ∈ table.rowIds, table.rowIds[i]? = some id ∧ table.idOrNulls width (some i) = id := by
  have hlt : i < table.rowIds.length := h.count ▸ hi
  have hget := List.getElem?_eq_getElem hlt
  refine ⟨_, List.mem_of_getElem? hget, hget, ?_⟩
  show (table.rowIds[i]?).getD _ = _
  rw [hget]
  rfl

theorem idOrNulls_length (h : table.Identified width origin) {a : Option Nat}
    (ha : ∀ i ∈ a, i < table.rows.length) : (table.idOrNulls width a).length = width := by
  cases a with
  | none => exact List.length_replicate
  | some i =>
      obtain ⟨id, hid, -, heq⟩ := h.rowId_mem (ha i rfl)
      rw [heq]
      exact h.width id hid

/-- Only the row of nulls has an identity that is wholly unknown. -/
theorem idOrNulls_known (h : table.Identified width origin) {i : Nat} (hi : i < table.rows.length) :
    ∃ x, some x ∈ table.idOrNulls width (some i) := by
  obtain ⟨id, hid, -, heq⟩ := h.rowId_mem hi
  rw [heq]
  exact h.known id hid

/-- Identities tell rows apart, the row of nulls included. -/
theorem idOrNulls_inj (h : table.Identified width origin) {a b : Option Nat}
    (ha : ∀ i ∈ a, i < table.rows.length) (hb : ∀ i ∈ b, i < table.rows.length)
    (heq : table.idOrNulls width a = table.idOrNulls width b) : a = b := by
  have hnulls : ∀ i, i < table.rows.length →
      table.idOrNulls width (some i) ≠ List.replicate width none := by
    intro i hi hnull
    obtain ⟨x, hx⟩ := h.idOrNulls_known hi
    rw [hnull] at hx
    exact nomatch List.eq_of_mem_replicate hx
  cases a with
  | none =>
      cases b with
      | none => rfl
      | some j => exact absurd heq.symm (hnulls j (hb j rfl))
  | some i =>
      cases b with
      | none => exact absurd heq (hnulls i (ha i rfl))
      | some j =>
          obtain ⟨id, -, hi, hid⟩ := h.rowId_mem (ha i rfl)
          obtain ⟨id', -, hj, hid'⟩ := h.rowId_mem (hb j rfl)
          rw [hid, hid'] at heq
          rw [heq, ← hj] at hi
          have hlt : i < table.rowIds.length := h.count ▸ ha i rfl
          exact congrArg some ((List.getElem?_inj hlt h.distinct).mp hi)

theorem idOrNulls_origin (h : table.Identified width origin) {a : Option Nat}
    (ha : ∀ i ∈ a, i < table.rows.length) {t : Nat} {x : Int}
    (hx : (table.idOrNulls width a)[t]? = some (some x)) : origin t x := by
  cases a with
  | none => exact nomatch List.eq_of_mem_replicate (List.mem_of_getElem? hx)
  | some i =>
      obtain ⟨id, hid, -, heq⟩ := h.rowId_mem (ha i rfl)
      rw [heq] at hx
      exact h.origin id hid t x hx

/-- A selection of rows, each at most once, is identified as the table is. -/
theorem selectRows (h : table.Identified width origin) (name : String) {indices : List Nat}
    (hnodup : indices.Nodup) (hrange : ∀ i ∈ indices, i < table.size) :
    (table.selectRows name indices).Identified width origin := by
  have hids : (table.selectRows name indices).rowIds
      = indices.filterMap fun i => table.rowIds[i]? := if_pos h.isIdentified
  have hmem : ∀ id ∈ (table.selectRows name indices).rowIds, id ∈ table.rowIds := by
    intro id hid
    rw [hids] at hid
    obtain ⟨i, -, hi⟩ := List.mem_filterMap.mp hid
    exact List.mem_of_getElem? hi
  constructor
  case count =>
    rw [hids, length_filterMap_getElem? fun i hi => h.count ▸ hrange i hi]
    exact (length_filterMap_getElem? hrange).symm
  case width => exact fun id hid => h.width id (hmem id hid)
  case distinct =>
    rw [hids]
    refine List.Nodup.filterMap ?_ hnodup
    intro i j id hi hj
    have hlt := (List.getElem?_eq_some_iff.mp hi).1
    exact (List.getElem?_inj hlt h.distinct).mp (hi.trans hj.symm)
  case known => exact fun id hid => h.known id (hmem id hid)
  case origin => exact fun id hid => h.origin id (hmem id hid)

end Snapshot.Identified

/-! ## Joins -/

/-- The join of identified tables is identified: a row's identity is that of its left
    row and behind it that of its right row. -/
theorem joinTables_identified {left right : Snapshot} {scope : Scope} {width : Nat}
    {origin : Nat → Int → Prop} (hleft : left.Identified width origin)
    (hright : right.Identified 1 fun t => origin (width + t)) (hwidth : scope.width = width)
    (clause : Sql.JoinClause) (pre name : String) :
    (joinTables left scope right clause pre name).result.Identified (width + 1) origin := by
  have hpairs : ∃ rule, (joinTables left scope right clause pre name).pairs
      = joinPairs clause.kind rule left.rows right.rows := ⟨_, rfl⟩
  obtain ⟨rule, hpairs⟩ := hpairs
  have hids : (joinTables left scope right clause pre name).result.rowIds
      = (joinTables left scope right clause pre name).pairs.sources.map fun p =>
          left.idOrNulls width p.1 ++ right.idOrNulls 1 p.2 := by
    unfold joinTables
    dsimp only
    rw [hleft.isIdentified, hright.isIdentified, hwidth, hleft.head_width, hright.head_width]
    rfl
  have hrows : (joinTables left scope right clause pre name).result.rows.length
      = (joinTables left scope right clause pre name).pairs.sources.length := List.length_map ..
  rw [hpairs] at hids hrows
  have hin := fun a b => mem_sources clause.kind rule left.rows right.rows (a := a) (b := b)
  have hmem : ∀ id ∈ (joinTables left scope right clause pre name).result.rowIds, ∃ a b,
      (a, b) ∈ (joinPairs clause.kind rule left.rows right.rows).sources
        ∧ id = left.idOrNulls width a ++ right.idOrNulls 1 b := by
    intro id hid
    rw [hids] at hid
    obtain ⟨⟨a, b⟩, hab, rfl⟩ := List.mem_map.mp hid
    exact ⟨a, b, hab, rfl⟩
  constructor
  case count => rw [hids, hrows, List.length_map]
  case width =>
    intro id hid
    obtain ⟨a, b, hab, rfl⟩ := hmem id hid
    obtain ⟨ha, hb, -⟩ := hin a b hab
    rw [List.length_append, hleft.idOrNulls_length ha, hright.idOrNulls_length hb]
  case distinct =>
    rw [hids]
    refine List.Nodup.map_on ?_ (sources_nodup clause.kind rule left.rows right.rows)
    rintro ⟨a, b⟩ hab ⟨a', b'⟩ hab' heq
    obtain ⟨ha, hb, -⟩ := hin a b hab
    obtain ⟨ha', hb', -⟩ := hin a' b' hab'
    -- the left parts are equally long, so both parts are equal
    have hlength := (hleft.idOrNulls_length ha).trans (hleft.idOrNulls_length ha').symm
    obtain ⟨hl, hr⟩ := List.append_inj heq hlength
    rw [hleft.idOrNulls_inj ha ha' hl, hright.idOrNulls_inj hb hb' hr]
  case known =>
    intro id hid
    obtain ⟨a, b, hab, rfl⟩ := hmem id hid
    obtain ⟨ha, hb, hsome⟩ := hin a b hab
    cases a with
    | some i =>
        obtain ⟨x, hx⟩ := hleft.idOrNulls_known (ha i rfl)
        exact ⟨x, List.mem_append_left _ hx⟩
    | none =>
        cases b with
        | some j =>
            obtain ⟨x, hx⟩ := hright.idOrNulls_known (hb j rfl)
            exact ⟨x, List.mem_append_right _ hx⟩
        | none => exact (hsome.elim (· rfl) (· rfl)).elim
  case origin =>
    intro id hid t x ht
    obtain ⟨a, b, hab, rfl⟩ := hmem id hid
    obtain ⟨ha, hb, -⟩ := hin a b hab
    by_cases hlt : t < width
    · rw [List.getElem?_append_left (by rw [hleft.idOrNulls_length ha]; exact hlt)] at ht
      exact hleft.idOrNulls_origin ha ht
    · rw [List.getElem?_append_right (by rw [hleft.idOrNulls_length ha]; omega),
        hleft.idOrNulls_length ha] at ht
      have horigin := hright.idOrNulls_origin hb ht
      rwa [Nat.add_sub_cancel' (by omega)] at horigin

/-! ## Scans -/

/-- The first cell of each row, as far as it is a whole number of 64 bits. -/
def Reply.scannedIds (r : Reply) : List (Option Int) := r.rows.map fun row => row.head?.bind Json.int64?

/-- The first cells are such numbers, and no two are the same. -/
def Reply.NamesRows (r : Reply) : Prop := ∃ ids : List Int, r.scannedIds = ids.map some ∧ ids.Nodup

/-- A scan whose rows are named is identified over its one table. -/
theorem scannedTable_identified (table : String) {r : Reply} (h : r.NamesRows) :
    (Stage.scannedTable table r).Identified 1 fun t x => t = 0 ∧ some x ∈ r.scannedIds := by
  obtain ⟨ids, hscanned, hnodup⟩ := h
  -- each row is named by its one id, so all is told by the distinct ids of the reply
  have hids : (Stage.scannedTable table r).rowIds = ids.map fun x => [some x] := by
    show r.rows.map Stage.scannedId = _
    have hsingle : r.rows.map Stage.scannedId = r.scannedIds.map fun x => [x] := by
      rw [Reply.scannedIds, List.map_map]
      rfl
    rw [hsingle, hscanned, List.map_map]
    rfl
  have hmem : ∀ id ∈ (Stage.scannedTable table r).rowIds, ∃ x ∈ ids, id = [some x] := by
    intro id hid
    rw [hids] at hid
    obtain ⟨x, hx, rfl⟩ := List.mem_map.mp hid
    exact ⟨x, hx, rfl⟩
  constructor
  case count =>
    show (r.rows.map Stage.scannedId).length = _
    simp [Stage.scannedTable, Snapshot.withRowIds, Snapshot.ofCells]
  case width =>
    intro id hid
    obtain ⟨x, -, rfl⟩ := hmem id hid
    rfl
  case distinct =>
    rw [hids]
    exact hnodup.map fun x y heq => Option.some.inj (List.singleton_inj.mp heq)
  case known =>
    intro id hid
    obtain ⟨x, -, rfl⟩ := hmem id hid
    exact ⟨x, List.mem_cons_self⟩
  case origin =>
    intro id hid t x ht
    obtain ⟨y, hy, rfl⟩ := hmem id hid
    cases t with
    | zero =>
        obtain rfl := Option.some.inj (Option.some.inj ht)
        refine ⟨rfl, ?_⟩
        rw [hscanned]
        exact List.mem_map.mpr ⟨y, hy, rfl⟩
    | succ t => exact nomatch ht

namespace Sql.Descriptor

/-- The tables of a statement, each with what the statement calls it, in order. -/
def sources (d : Descriptor) : List (String × String) :=
  (d.fromTable?.toList.map fun table => (table, d.fromQualifier?.getD table))
    ++ d.joins.map fun j => (j.table, j.qualifier)

/-- The qualifiers of a statement are those of its tables. -/
theorem map_sources (d : Descriptor) : d.sources.map Prod.snd = d.qualifiers := by
  have hbase : (d.fromTable?.toList.map fun table => (table, d.fromQualifier?.getD table)).map
      Prod.snd = d.fromQualifier?.toList := by
    unfold fromQualifier? fromAlias? select?
    cases htable : d.fromTable? with
    | some table =>
        cases d.reading.toOption.bind (·.base.alias?) <;> rfl
    | none =>
        -- without a first table the grammar read nothing
        unfold fromTable? at htable
        cases hread : d.reading with
        | ok s =>
            rw [hread] at htable
            exact nomatch htable
        | error e => rfl
  rw [sources, List.map_append, hbase, List.map_map, qualifiers]
  rfl

end Sql.Descriptor

/-! ## The running table and what was asked for it -/

/-- The number of tables that steps have read. -/
def tablesRead (steps : List Step) : Nat :=
  steps.countP fun step => step.kind = "Scan" ∨ step.kind = "Join"

/-- The kinds of steps that make rows of the tables of the statement. -/
def relationalKinds : List String := ["Scan", "Join", "Filter"]

section Tracking

variable (d : Descriptor) (asked : List (String × Reply))

/-- The scan of the `t`-th table of the statement, and its answer. -/
def ScanAt (t : Nat) (reply : Reply) : Prop :=
  ∃ table qualifier, d.sources[t]? = some (table, qualifier)
    ∧ asked[t]? = some (scanQuery table, reply)

/-- All scans name their rows. -/
def ScansNameRows : Prop := ∀ t reply, ScanAt d asked t reply → reply.NamesRows

/-- A number that the scan of the `t`-th table answered. -/
def FromScan (t : Nat) (x : Int) : Prop := ∃ reply, ScanAt d asked t reply ∧ some x ∈ reply.scannedIds

/-- If the scans name their rows, each relational step leaves an identified table. -/
def Tracked (shown : List Step) : Prop :=
  ScansNameRows d asked → ∀ front step, front ++ [step] <+: shown → step.kind ∈ relationalKinds →
    step.result.Identified (tablesRead (front ++ [step])) (FromScan d asked)

/-- A running table behind relational steps. -/
structure Standing (shown : List Step) (current : Running) : Prop where
  tracked : Tracked d asked shown
  identified : ScansNameRows d asked →
    current.table.Identified (tablesRead shown) (FromScan d asked)
  width : current.scope.width = tablesRead shown

variable {d asked}

theorem ScanAt.grow {t : Nat} {reply : Reply} (h : ScanAt d asked t reply)
    (exchange : String × Reply) : ScanAt d (asked ++ [exchange]) t reply := by
  obtain ⟨table, qualifier, hsource, hasked⟩ := h
  have hlt := (List.getElem?_eq_some_iff.mp hasked).1
  exact ⟨table, qualifier, hsource, (List.getElem?_append_left hlt).trans hasked⟩

theorem ScansNameRows.shrink {exchange : String × Reply}
    (h : ScansNameRows d (asked ++ [exchange])) : ScansNameRows d asked :=
  fun t reply hscan => h t reply (hscan.grow exchange)

theorem FromScan.grow {t : Nat} {x : Int} (h : FromScan d asked t x) (exchange : String × Reply) :
    FromScan d (asked ++ [exchange]) t x := by
  obtain ⟨reply, hscan, hx⟩ := h
  exact ⟨reply, hscan.grow exchange, hx⟩

theorem Tracked.grow {shown : List Step} (h : Tracked d asked shown) (exchange : String × Reply) :
    Tracked d (asked ++ [exchange]) shown := by
  intro hnames front step hfront hkind
  exact (h hnames.shrink front step hfront hkind).mono fun t x hx => hx.grow exchange

theorem Standing.grow {shown : List Step} {current : Running} (h : Standing d asked shown current)
    (exchange : String × Reply) : Standing d (asked ++ [exchange]) shown current where
  tracked := h.tracked.grow exchange
  identified := fun hnames => (h.identified hnames.shrink).mono fun _ _ hx => hx.grow exchange
  width := h.width

/-- One more step, which leaves an identified table if it is relational. -/
theorem Tracked.concat {shown : List Step} {step : Step} (h : Tracked d asked shown)
    (hstep : step.kind ∈ relationalKinds → ScansNameRows d asked →
      step.result.Identified (tablesRead (shown ++ [step])) (FromScan d asked)) :
    Tracked d asked (shown ++ [step]) := by
  intro hnames front s hfront hkind
  rcases List.prefix_concat_iff.mp hfront with heq | hbefore
  · obtain ⟨rfl, hs⟩ := List.append_inj' heq rfl
    obtain rfl := List.singleton_inj.mp hs
    exact hstep hkind hnames
  · exact h hnames front s hbefore hkind

end Tracking

namespace Stage

open Dialogue

variable {d : Descriptor} {asked : List (String × Reply)} {shown : List Step}

/-- Prefixes do not touch the identities. -/
theorem withPrefixes_identified {current : Running} {width : Nat} {origin : Nat → Int → Prop}
    (h : current.table.Identified width origin) :
    (withPrefixes d current).table.Identified width origin := by
  have hids : (withPrefixes d current).table.rowIds = current.table.rowIds := by
    unfold withPrefixes
    split <;> rfl
  have hcount := h.count.trans (withPrefixes_size d current).symm
  exact ⟨hids ▸ hcount, hids ▸ h.width, hids ▸ h.distinct, hids ▸ h.known, hids ▸ h.origin⟩

theorem withPrefixes_prefixes (current : Running) :
    (withPrefixes d current).scope.prefixes.length = current.scope.width := by
  unfold withPrefixes Scope.isPrefixed Scope.width
  cases hprefixes : current.scope.prefixes with
  | nil => simp [Scope.add, hprefixes]
  | cons p rest => simp [hprefixes]

/-- A scan is the next exchange. -/
theorem scan_tracked {post : List (String × Reply) → List Step → Snapshot → Prop} (table : String)
    (hpost : ∀ reply, post (asked ++ [(scanQuery table, reply)]) shown (scannedTable table reply)) :
    (scan table).Maintains (Tracked d) post asked shown :=
  maintains_bind (maintains_fetch fun reply => maintains_pure (hpost reply))

/-- A join adds one table to the identities. -/
theorem join_tracked {post : List (String × Reply) → List Step → Running → Prop}
    (current : Running) (clause : Sql.JoinClause) (h : Standing d asked shown current)
    (hasked : asked.length = tablesRead shown)
    (hsource : d.sources[asked.length]? = some (clause.table, clause.qualifier))
    (hpost : ∀ asked' shown' next, Standing d asked' shown' next →
      asked'.length = asked.length + 1 → asked'.length = tablesRead shown' →
      post asked' shown' next) :
    (join d current clause).Maintains (Tracked d) post asked shown := by
  rw [join_eq]
  refine maintains_bind (scan_tracked clause.table (fun reply => ?_))
  have hgrown := h.grow (scanQuery clause.table, reply)
  have hcount : ∀ s, tablesRead (shown ++ [.join s]) = tablesRead shown + 1 := by
    intro s
    simp [tablesRead, Step.kind]
  -- the table that was read gives the component behind those of the running table
  have hjoined : ScansNameRows d (asked ++ [(scanQuery clause.table, reply)]) →
      (joinStep d current clause (scannedTable clause.table reply)).result.Identified
        (tablesRead shown + 1) (FromScan d (asked ++ [(scanQuery clause.table, reply)])) := by
    intro hnames
    have hscan : ScanAt d (asked ++ [(scanQuery clause.table, reply)]) (tablesRead shown) reply :=
      ⟨_, _, hasked ▸ hsource, by rw [← hasked, List.getElem?_concat_length]⟩
    have hright := scannedTable_identified clause.table (hnames _ reply hscan)
    refine joinTables_identified (withPrefixes_identified (hgrown.identified hnames))
      (hright.mono ?_) ?_ clause _ _
    · rintro t x ⟨rfl, hx⟩
      exact ⟨reply, hscan, hx⟩
    · rw [Scope.width, withPrefixes_prefixes, ← h.width, Scope.width]
      omega
  have hshow : ∀ scope : Scope, scope.width = tablesRead shown + 1 →
      (showStep (.join (joinStep d current clause (scannedTable clause.table reply))) >>= fun _ =>
        pure ⟨(joinStep d current clause (scannedTable clause.table reply)).result, scope⟩
        : Dialogue Running).Maintains (Tracked d) post
          (asked ++ [(scanQuery clause.table, reply)]) shown := by
    intro scope hscope
    have htracked : Tracked d (asked ++ [(scanQuery clause.table, reply)])
        (shown ++ [.join (joinStep d current clause (scannedTable clause.table reply))]) :=
      hgrown.tracked.concat fun _ hnames => (hcount _).symm ▸ hjoined hnames
    refine maintains_bind (maintains_showStep htracked (maintains_pure (hpost _ _ _ ?_ ?_ ?_)))
    · exact ⟨htracked, fun hnames => (hcount _).symm ▸ hjoined hnames,
        hscope.trans (hcount _).symm⟩
    · rw [List.length_append]
      rfl
    · rw [hcount, ← hasked, List.length_append]
      rfl
  have hscope : ((withPrefixes d current).scope.add clause.qualifier
      ((withPrefixes d current).scope.choosePrefix clause.table clause.alias?)).width
        = tablesRead shown + 1 := by
    rw [← h.width, ← withPrefixes_prefixes (d := d) current]
    simp [Scope.width, Scope.add]
  split
  · exact maintains_bind (maintains_noteEvent (hshow _ hscope))
  · exact hshow _ hscope

/-- Joins one after another, each of the next table of the statement. -/
theorem joinAll_tracked {post : List (String × Reply) → List Step → Running → Prop}
    (clauses : List Sql.JoinClause)
    (hpost : ∀ asked' shown' next, Standing d asked' shown' next → post asked' shown' next) :
    ∀ {asked : List (String × Reply)} {shown : List Step} (current : Running),
      Standing d asked shown current → asked.length = tablesRead shown →
      d.sources.drop asked.length = clauses.map (fun j => (j.table, j.qualifier)) →
      (joinAll d current clauses).Maintains (Tracked d) post asked shown := by
  induction clauses with
  | nil =>
      intro asked shown current h _ _
      exact maintains_pure (hpost _ _ _ h)
  | cons clause rest ih =>
      intro asked shown current h hasked hsources
      rw [List.map_cons] at hsources
      have hsource : d.sources[asked.length]? = some (clause.table, clause.qualifier) := by
        rw [← List.head?_drop, hsources]
        rfl
      refine maintains_bind (join_tracked current clause h hasked hsource
        (fun asked' shown' next hnext hone hasked' => ?_))
      refine ih next hnext hasked' ?_
      rw [hone, ← List.tail_drop, hsources]
      rfl

/-- The filter selects rows of the running table. -/
theorem filter_tracked {post : List (String × Reply) → List Step → Snapshot → Prop}
    (current : Running) (condition : String) (h : Standing d asked shown current)
    (hpost : ∀ asked' shown' result, Tracked d asked' shown' → post asked' shown' result) :
    (filter d current.table condition).Maintains (Tracked d) post asked shown := by
  refine maintains_bind (maintains_fetch fun reply => ?_)
  have hgrown := h.grow (identityQuery d, reply)
  obtain ⟨hnodup, hrange⟩ := identities_order current.table
    (reply.rows.map fun row => row.map Json.int64?)
  have htracked : Tracked d (asked ++ [(identityQuery d, reply)])
      (shown ++ [.filter (conditionStep "rows" condition current.table (reconcileByIdentity
        current.table (reply.rows.map fun row => row.map Json.int64?) "filtered"))]) := by
    refine hgrown.tracked.concat (fun _ hnames => ?_)
    have hread : ∀ s, tablesRead (shown ++ [.filter s]) = tablesRead shown := by
      intro s
      simp [tablesRead, Step.kind]
    rw [hread]
    exact (hgrown.identified hnames).selectRows "filtered" hnodup hrange
  exact maintains_bind (maintains_showStep htracked (maintains_pure (hpost _ _ _ htracked)))

end Stage

namespace Replay

open Dialogue

variable {d : Descriptor}

/-- Steps behind the filter are not relational. -/
theorem rest_tracked {α : Type} {asked : List (String × Reply)} {shown : List Step}
    {dialogue : Dialogue α} {kinds : List String} (hshows : dialogue.Shows kinds)
    (hkinds : ∀ kind ∈ kinds, kind ∉ relationalKinds) (h : Tracked d asked shown) :
    dialogue.Maintains (Tracked d) (fun _ _ _ => True) asked shown := by
  refine hshows.maintains (fun _ exchange _ hinv => hinv.grow exchange) ?_ h
  intro asked shown step hkind hinv
  exact hinv.concat fun hrelational => absurd hrelational (hkinds _ hkind)

/-- The kinds of the steps behind the filter. -/
theorem shapedKinds_unrelational {grouped filtered sorted limited : Bool} :
    ∀ kind ∈ kindIf grouped "GroupBy" ++ (kindIf filtered "Having" ++ ["Project"])
      ++ (kindIf sorted "OrderBy" ++ kindIf limited "Limit"), kind ∉ relationalKinds := by
  cases grouped <;> cases filtered <;> cases sorted <;> cases limited <;> decide

/-- The scan of the first table, by itself an identified running table. -/
theorem scanned_standing {base : String} {reply : Reply}
    (hsource : ∃ qualifier, d.sources[0]? = some (base, qualifier)) :
    Standing d [(scanQuery base, reply)]
      [Stage.scanStep base (Stage.scannedTable base reply)]
      ⟨Stage.scannedTable base reply, .unprefixed⟩ := by
  obtain ⟨qualifier, hsource⟩ := hsource
  have hidentified : ScansNameRows d [(scanQuery base, reply)] →
      (Stage.scannedTable base reply).Identified 1 (FromScan d [(scanQuery base, reply)]) := by
    intro hnames
    have hscan : ScanAt d [(scanQuery base, reply)] 0 reply := ⟨base, qualifier, hsource, rfl⟩
    refine (scannedTable_identified base (hnames 0 reply hscan)).mono ?_
    rintro t x ⟨rfl, hx⟩
    exact ⟨reply, hscan, hx⟩
  refine ⟨?_, hidentified, rfl⟩
  have hnil : Tracked d [(scanQuery base, reply)] [] := by
    intro _ front step hfront
    exact absurd (List.prefix_nil.mp hfront) (by simp)
  exact hnil.concat fun _ hnames => hidentified hnames

theorem readSelect_tracked {sql : String} {s : Sql.Select} (hread : Sql.parse sql = .ok s) :
    (readSelect (.extract sql) s.base.name).Maintains (Tracked (.extract sql)) (fun _ _ _ => True)
      [] [] := by
  have hbase : (Descriptor.extract sql).fromTable? = some s.base.name := by
    rw [Descriptor.extract, Descriptor.fromTable?, hread]
  generalize Descriptor.extract sql = d at hbase
  have hsources : d.sources = (s.base.name, d.fromQualifier?.getD s.base.name)
      :: d.joins.map fun j => (j.table, j.qualifier) := by
    rw [Descriptor.sources, hbase]
    rfl
  have hrest : ∀ (asked' : List (String × Reply)) (shown' : List Step) (filtered : Snapshot)
      (scope : Scope), Tracked d asked' shown' →
      (shape d ⟨filtered, scope⟩ >>= fun p => conclude d p.1 p.2).Maintains
        (Tracked d) (fun _ _ _ => True) asked' shown' := by
    intro asked' shown' filtered scope h
    exact rest_tracked (shows_bind (shape_shows d _) fun p =>
      conclude_shows d p.1 p.2) shapedKinds_unrelational h
  refine maintains_bind (Stage.scan_tracked s.base.name (fun reply => ?_))
  have hstanding : Standing d [(scanQuery s.base.name, reply)]
      [Stage.scanStep s.base.name (Stage.scannedTable s.base.name reply)]
      ⟨Stage.scannedTable s.base.name reply, .unprefixed⟩ :=
    scanned_standing ⟨_, by rw [hsources]; rfl⟩
  refine maintains_bind (maintains_showStep hstanding.tracked ?_)
  refine maintains_bind (Stage.joinAll_tracked d.joins (fun asked' shown' joined hjoined => ?_)
    _ hstanding rfl (by rw [hsources]; rfl))
  cases d.filter? with
  | some condition =>
      exact maintains_bind (Stage.filter_tracked joined condition hjoined
        fun _ _ filtered hfiltered => hrest _ _ filtered _ hfiltered)
  | none => exact maintains_bind (maintains_pure (hrest _ _ _ _ hjoined.tracked))

theorem unreadSelect_tracked (d : Descriptor) :
    (unreadSelect d).Maintains (Tracked d) (fun _ _ _ => True) [] [] := by
  unfold unreadSelect
  cases hbase : d.fromTable? with
  | some base =>
      refine maintains_bind (Stage.scan_tracked base (fun reply => ?_))
      have hstanding : Standing d [(scanQuery base, reply)]
          [Stage.scanStep base (Stage.scannedTable base reply)]
          ⟨Stage.scannedTable base reply, .unprefixed⟩ := by
        refine scanned_standing ⟨d.fromQualifier?.getD base, ?_⟩
        rw [Descriptor.sources, hbase]
        rfl
      exact maintains_bind (maintains_showStep hstanding.tracked
        (maintains_bind (maintains_fetch fun _ => maintains_pure trivial)))
  | none => exact maintains_bind (maintains_fetch fun _ => maintains_pure trivial)

/-- The steps of any statement are tracked, by the tables of its own text. -/
theorem statement_tracked (sql : String) :
    (statement sql).Maintains (Tracked (.extract sql)) (fun _ _ _ => True) [] [] := by
  have hnil : Tracked (.extract sql) [] [] := by
    intro _ front step hfront
    exact absurd (List.prefix_nil.mp hfront) (by simp)
  exact statement_maintains (fun _ => readSelect_tracked) (fun _ _ => unreadSelect_tracked _)
    fun kind => rest_tracked (modification_shows sql kind) (fun _ => nofun) hnil

end Replay

/-- If the scans of a replay answer distinct whole numbers first, every relational step
    leaves a table with one identity per row: as long as there are tables read, its
    own, not wholly unknown, and with each known component answered by the scan of the
    table in that place, which is also the place of its qualifier. -/
theorem replay_identities {σ : Type} (engine : Engine σ) (sql : String) (s : σ)
    (hscans : ∀ t table qualifier reply,
      (Descriptor.extract (Sql.normalize sql)).sources[t]? = some (table, qualifier) →
      (replay engine sql s).calls[t]? = some (scanQuery table) →
      (engine.execute (scanQuery table)
        (engine.stateAfter ((replay engine sql s).calls.take t) s)).1 = .ok reply →
      reply.NamesRows) :
    ∀ before step, before ++ [step] <+: (replay engine sql s).outcome.steps →
      step.kind ∈ relationalKinds →
      step.result.Identified (tablesRead (before ++ [step])) fun t x =>
        ∃ table qualifier reply,
          (Descriptor.extract (Sql.normalize sql)).sources[t]? = some (table, qualifier)
          ∧ (Descriptor.extract (Sql.normalize sql)).qualifiers[t]? = some qualifier
          ∧ (replay engine sql s).calls[t]? = some (scanQuery table)
          ∧ (engine.execute (scanQuery table)
              (engine.stateAfter ((replay engine sql s).calls.take t) s)).1 = .ok reply
          ∧ some x ∈ reply.scannedIds := by
  have hnil : Tracked (.extract (Sql.normalize sql)) [] [] := by
    intro _ front step hfront
    exact absurd (List.prefix_nil.mp hfront) (by simp)
  obtain ⟨exchanges, hcalls, hanswers, htracked⟩ := Dialogue.maintains_run engine
    (fun _ exchange _ hinv => hinv.grow exchange) (Replay.statement (Sql.normalize sql)) (s := s)
    (Replay.statement_tracked (Sql.normalize sql)) hnil
  rw [List.nil_append, List.nil_append, ← replay_steps] at htracked
  rw [← replay_calls] at hcalls
  -- a scan among the exchanges is one of the calls, with the engine's own answer
  have hscan : ∀ {t reply}, ScanAt (.extract (Sql.normalize sql)) exchanges t reply →
      ∃ table qualifier,
        (Descriptor.extract (Sql.normalize sql)).sources[t]? = some (table, qualifier)
        ∧ (replay engine sql s).calls[t]? = some (scanQuery table)
        ∧ (engine.execute (scanQuery table)
            (engine.stateAfter ((replay engine sql s).calls.take t) s)).1 = .ok reply := by
    rintro t reply ⟨table, qualifier, hsource, hasked⟩
    obtain ⟨rest, hrest⟩ := hcalls
    have hlt : t < (exchanges.map Prod.fst).length := by
      rw [List.length_map]
      exact (List.getElem?_eq_some_iff.mp hasked).1
    refine ⟨table, qualifier, hsource, ?_, ?_⟩
    · rw [← hrest, List.getElem?_append_left hlt, List.getElem?_map, hasked]
      rfl
    · rw [← hrest, List.take_append_of_le_length (Nat.le_of_lt hlt), ← List.map_take]
      exact engine.answers_getElem? hanswers hasked
  intro before step hfront hkind
  refine (htracked ?_ before step hfront hkind).mono ?_
  · intro t reply hat
    obtain ⟨table, qualifier, hsource, hcall, hreply⟩ := hscan hat
    exact hscans t table qualifier reply hsource hcall hreply
  · rintro t x ⟨reply, hat, hx⟩
    obtain ⟨table, qualifier, hsource, hcall, hreply⟩ := hscan hat
    refine ⟨table, qualifier, reply, hsource, ?_, hcall, hreply, hx⟩
    rw [← Sql.Descriptor.map_sources, List.getElem?_map, hsource]
    rfl

/-- A left join whose second row meets none, filtered by an engine that answers the
    rows in another order: after the filter the running table still has its identities. -/
theorem replay_identities_leftJoin :
    ∃ before step, before ++ [step] <+: (replay (Engine.scripted none)
        "SELECT a.x FROM a LEFT JOIN b ON a.x = b.x WHERE a.x > 0"
        [.ok ⟨["id", "x"], [[.int 1, .int 10], [.int 2, .int 20]]⟩,
          .ok ⟨["id", "x"], [[.int 7, .int 10]]⟩,
          .ok ⟨["i", "j"], [[.int 2, .null], [.int 1, .int 7]]⟩,
          .ok ⟨["x"], [[.int 20], [.int 10]]⟩]).outcome.steps
      ∧ step.kind = "Filter" ∧ step.result.rowIds = [[some 2, none], [some 1, some 7]]
      ∧ step.result.rowIds.Nodup ∧ ∀ id ∈ step.result.rowIds, id.length = 2 := by
  have htheorem := replay_identities (Engine.scripted none)
    "SELECT a.x FROM a LEFT JOIN b ON a.x = b.x WHERE a.x > 0"
    [.ok ⟨["id", "x"], [[.int 1, .int 10], [.int 2, .int 20]]⟩,
      .ok ⟨["id", "x"], [[.int 7, .int 10]]⟩,
      .ok ⟨["i", "j"], [[.int 2, .null], [.int 1, .int 7]]⟩,
      .ok ⟨["x"], [[.int 20], [.int 10]]⟩] ?scans
  case scans =>
    have hsources : (Descriptor.extract (Sql.normalize
        "SELECT a.x FROM a LEFT JOIN b ON a.x = b.x WHERE a.x > 0")).sources
        = [("a", "a"), ("b", "b")] := by decide +kernel
    have hcalls : (replay (Engine.scripted none)
        "SELECT a.x FROM a LEFT JOIN b ON a.x = b.x WHERE a.x > 0"
        [.ok ⟨["id", "x"], [[.int 1, .int 10], [.int 2, .int 20]]⟩,
          .ok ⟨["id", "x"], [[.int 7, .int 10]]⟩,
          .ok ⟨["i", "j"], [[.int 2, .null], [.int 1, .int 7]]⟩,
          .ok ⟨["x"], [[.int 20], [.int 10]]⟩]).calls.take 1 = [scanQuery "a"] := by decide +kernel
    intro t table qualifier reply hsource _ hreply
    rw [hsources] at hsource
    rcases t with _ | _ | t
    · rw [List.take_zero] at hreply
      obtain rfl : _ = reply := Except.ok.inj hreply
      exact ⟨[1, 2], by decide, by decide⟩
    · rw [Nat.zero_add, hcalls] at hreply
      obtain rfl : _ = reply := Except.ok.inj hreply
      exact ⟨[7], by decide, by decide⟩
    · exact nomatch hsource
  have hkinds : (replay (Engine.scripted none)
      "SELECT a.x FROM a LEFT JOIN b ON a.x = b.x WHERE a.x > 0"
      [.ok ⟨["id", "x"], [[.int 1, .int 10], [.int 2, .int 20]]⟩,
        .ok ⟨["id", "x"], [[.int 7, .int 10]]⟩,
        .ok ⟨["i", "j"], [[.int 2, .null], [.int 1, .int 7]]⟩,
        .ok ⟨["x"], [[.int 20], [.int 10]]⟩]).outcome.steps.map
          (fun step => (step.kind, step.result.rowIds))
      = [("Scan", [[some 1], [some 2]]), ("Join", [[some 1, some 7], [some 2, none]]),
        ("Filter", [[some 2, none], [some 1, some 7]]),
        ("Project", [[some 2, none], [some 1, some 7]])] := by decide +kernel
  generalize (replay (Engine.scripted none) _ _).outcome.steps = steps at htheorem hkinds ⊢
  obtain ⟨scanned, steps, rfl, hscan, hkinds⟩ := List.map_eq_cons_iff.mp hkinds
  obtain ⟨joined, steps, rfl, hjoin, hkinds⟩ := List.map_eq_cons_iff.mp hkinds
  obtain ⟨filtered, steps, rfl, hfilter, -⟩ := List.map_eq_cons_iff.mp hkinds
  obtain ⟨hkind, hids⟩ := Prod.mk.inj hfilter
  have hfront : [scanned, joined] ++ [filtered] <+: scanned :: joined :: filtered :: steps :=
    ⟨steps, rfl⟩
  have hidentified := htheorem [scanned, joined] filtered hfront (by rw [hkind]; decide)
  have hread : tablesRead ([scanned, joined] ++ [filtered]) = 2 := by
    simp [tablesRead, hkind, (Prod.mk.inj hscan).1, (Prod.mk.inj hjoin).1]
  exact ⟨[scanned, joined], filtered, hfront, hkind, hids, hidentified.distinct,
    hread ▸ hidentified.width⟩

end QueryReplay
