import TableGate.Proofs.NameMap
import TableGate.Proofs.Query.Predicate
import TableGate.Query.Write

/-! # Values that a write binds

A write statement binds the values of its rows, each under the name of its column, and behind them those
of its conditions. -/

namespace TableGate

open Template

/-- The rows of an insertion as it binds them: each value under the name of its column. -/
def Insert.bound (i : Insert) : List (List (String × Value)) :=
  i.tuples.map fun tuple => (i.columns.map (·.text)).zip tuple

/-- A value that is assigned, under the name of its column; other assignments bind nothing. -/
def Assigned.bound? : Identifier × Assigned → Option (String × Value)
  | (n, .value v) => some (n.text, v)
  | _ => none

/-- The rows that a write binds. -/
def Write.bound : Write → List (List (String × Value))
  | .insert rows => rows.bound
  | .upsert rows _ => rows.bound
  | .update _ assignments _ => [assignments.filterMap Assigned.bound?]
  | .delete _ _ => []

theorem Reference.params_eq_nil {s : String} {r : Reference} (h : Reference.of? s = .ok r) :
    params r.template = [] :=
  (Reference.carries (d := .sqlite) h).params_eq

theorem Condition.params_whereTemplate {cs : List Condition} {chain : Chain}
    (h : Condition.chain? .parameter cs = .ok chain) :
    params (Write.whereTemplate chain) = Condition.boundValuesOf cs := by
  have hchain := (Condition.carries_chain (d := .sqlite) cs chain h).1.params_eq
  unfold Write.whereTemplate
  split
  · rename_i hempty
    rw [Condition.boundValuesOf_eq_nil h hempty]
    rfl
  · simpa [params, ValueMode.bound] using hchain

/-! ## Insertions -/

theorem Write.hasColumns_iff (first row : Row) :
    Write.hasColumns first.names row = true ↔ row.names = first.names := by
  rw [hasColumns, Bool.and_eq_true, beq_iff_eq, List.all_eq_true, ← NameMap.size_eq]
  constructor
  · rintro ⟨hsize, hnames⟩
    refine NameMap.names_eq_of_subset hsize fun name hname => ?_
    have hcontains := hnames name hname
    rwa [NameMap.contains_eq, List.contains_iff_mem] at hcontains
  · intro h
    refine ⟨by rw [NameMap.size_eq, NameMap.size_eq, h], fun name hname => ?_⟩
    rwa [NameMap.contains_eq, List.contains_iff_mem, h]

/-- No row is unlike the first if and only if all have its columns. -/
theorem Write.firstUnlike?_eq_none {first : Row} {index : ℕ} {rows : List Row} :
    Write.firstUnlike? first.names index rows = none ↔ ∀ row ∈ rows, row.names = first.names := by
  induction rows generalizing index with
  | nil => simp [firstUnlike?]
  | cons row rows ih =>
      rw [firstUnlike?, List.forall_mem_cons, ← hasColumns_iff, ← @ih (index + 1)]
      by_cases h : hasColumns first.names row = true <;> simp [h]

theorem Insert.params_tuple (values : List Value) : params (Insert.tupleTemplate values) = values := by
  have hvalues : (values.map fun v => [Piece.param v]).flatMap params = values := by
    induction values with
    | nil => rfl
    | cons v values ih => simpa [params] using ih
  simp [Insert.tupleTemplate, parenthesized, params, params_append, params_joined, hvalues]

theorem Insert.params_names (names : List Identifier) : params (Insert.nameTemplate names) = [] := by
  rw [Insert.nameTemplate, params_joined]
  simp [params]

theorem NameMap.zip_names_values {α : Type} (m : NameMap α) : m.names.zip m.values = m.entries := by
  rw [NameMap.names, NameMap.values, List.zip_map', List.map_id'']
  exact fun e => rfl

/-- Rows are understood as an insertion if and only if all have the columns of the first, the table and the
columns are named by identifiers, and a row without columns is alone. -/
theorem Write.insertRows?_eq_ok {table : String} {rows : List Row} {i : Insert} :
    insertRows? table rows = .ok i ↔
      ∃ first rest, rows = first :: rest ∧ (∀ row ∈ rest, row.names = first.names) ∧
        Reference.of? table = .ok i.table ∧ (first.names = [] → rest = []) ∧
        i.columns.map (·.text) = first.names ∧ i.tuples = rows.map NameMap.values := by
  cases rows with
  | nil => simp [insertRows?]
  | cons first rest =>
      have hrest : (first.isEmpty && !rest.isEmpty) = true ↔ ¬(first.names = [] → rest = []) := by
        simp [NameMap.isEmpty_iff]
      constructor
      · intro h
        rw [insertRows?] at h
        split at h
        · cases h
        · rename_i hunlike
          simp only [Except.bind_eq_ok] at h
          obtain ⟨r, hr, h⟩ := h
          split at h
          · cases h
          · rename_i halone
            simp only [Except.bind_eq_ok, Except.pure_eq_ok] at h
            obtain ⟨columns, hcolumns, rfl⟩ := h
            exact ⟨first, rest, rfl, firstUnlike?_eq_none.mp hunlike, hr, not_not.mp (mt hrest.mpr halone),
              Identifier.mapM_of?_iff.mp hcolumns, rfl⟩
      · rintro ⟨_, _, hrows, halike, hr, halone, hcolumns, htuples⟩
        cases hrows
        rw [insertRows?, firstUnlike?_eq_none.mpr halike]
        simp only [hr, Except.ok_bind, if_neg (fun h => hrest.mp h halone),
          Identifier.mapM_of?_iff.mpr hcolumns]
        rw [← htuples]
        rfl

/-- An insertion binds the rows that it was made of. -/
theorem Insert.bound_of_insertRows? {table : String} {rows : List Row} {i : Insert}
    (h : Write.insertRows? table rows = .ok i) :
    i.bound = rows.map NameMap.entries ∧
      ∀ d, params (i.template d) = rows.flatMap NameMap.values := by
  obtain ⟨first, rest, rfl, halike, hr, halone, hcolumns, htuples⟩ := Write.insertRows?_eq_ok.mp h
  refine ⟨?_, fun d => ?_⟩
  · have hrows : ∀ row ∈ first :: rest, (i.columns.map (·.text)).zip row.values = row.entries := by
      intro row hrow
      have hnames : row.names = first.names := by
        rcases List.mem_cons.mp hrow with rfl | hrow
        · rfl
        · exact halike row hrow
      rw [hcolumns, ← hnames, row.zip_names_values]
    rw [Insert.bound, htuples, List.map_map]
    exact List.map_congr_left hrows
  · unfold Insert.template
    split
    · rename_i hnone
      have hnames : first.names = [] := by rw [← hcolumns, List.isEmpty_iff.mp hnone, List.map_nil]
      have hvalues : first.values = [] := by
        simpa [NameMap.names, NameMap.values] using hnames
      simp [params, params_append, Reference.params_eq_nil hr, halone hnames, hvalues]
    · simp only [params, params_append, Reference.params_eq_nil hr, Insert.params_names,
        params_joined, htuples, List.nil_append, List.map_map, List.flatMap_map, Function.comp_def,
        Insert.params_tuple]

theorem Conflict.params_template (d : Dialect) (c : Conflict) : params (c.template d) = [] := by
  have hnames {f : Identifier → Template} (hf : ∀ n, params (f n) = []) (names : List Identifier) :
      params (joined ", " (names.map f)) = [] := by
    simp [params_joined, List.flatMap_map, hf]
  have htarget := Insert.params_names c.target
  have hkeep : params (joined ", " ((c.target.take 1).map fun n =>
      [Piece.name n, .text " = ", .name n])) = [] := hnames (fun n => rfl) _
  have hvalues : params (joined ", " (c.updates.map fun n =>
      [Piece.name n, .text " = VALUES(", .name n, .text ")"])) = [] := hnames (fun n => rfl) _
  have hexcluded : params (joined ", " (c.updates.map fun n =>
      [Piece.name n, .text " = excluded.", .name n])) = [] := hnames (fun n => rfl) _
  cases d <;> unfold Conflict.template <;> dsimp only <;> split <;>
    simp_all [params, params_append]

/-! ## The three kinds of writes -/

theorem Write.bound_of_insertOf? {table : String} {rows : List Row} {w : Write}
    (h : Write.insertOf? table rows = .ok w) :
    w.bound = rows.map NameMap.entries ∧
      ∀ d, params (w.template d) = rows.flatMap NameMap.values := by
  obtain ⟨i, hi, rfl⟩ := Except.map_eq_ok.mp h
  exact Insert.bound_of_insertRows? hi

/-- Rows are understood as an upsert if and only if they are understood as an insertion that has all of the
unique columns, and there are some. Without a choice its other columns are updated. -/
theorem Write.upsertOf?_eq_ok {table : String} {rows : List Row} {uniqueBy : List String}
    {update : Option (List String)} {w : Write} :
    upsertOf? table rows uniqueBy update = .ok w ↔
      uniqueBy ≠ [] ∧ ∃ i conflict, insertRows? table rows = .ok i ∧
        (∀ c ∈ uniqueBy, c ∈ i.columns.map (·.text)) ∧
        conflict.target.map (·.text) = uniqueBy ∧
        conflict.updates.map (·.text) =
          update.getD ((i.columns.map (·.text)).filter fun c => !uniqueBy.contains c) ∧
        w = .upsert i conflict := by
  have hcolumns (i : Insert) (hi : insertRows? table rows = .ok i) :
      (rows.head?.map NameMap.names).getD [] = i.columns.map (·.text) := by
    obtain ⟨first, rest, rfl, -, -, -, htexts, -⟩ := insertRows?_eq_ok.mp hi
    exact htexts.symm
  unfold upsertOf?
  by_cases hunique : uniqueBy = []
  · simp [hunique]
  · rw [if_neg (by simpa using hunique), Except.bind_eq_ok]
    constructor
    · rintro ⟨i, hi, h⟩
      rw [hcolumns i hi] at h
      dsimp only at h
      split at h
      · cases h
      · rename_i hfind
        simp only [Except.bind_eq_ok, Except.pure_eq_ok] at h
        obtain ⟨target, htarget, updates, hupdates, rfl⟩ := h
        refine ⟨hunique, i, _, hi, fun c hc => ?_, Identifier.mapM_of?_iff.mp htarget,
          Identifier.mapM_of?_iff.mp hupdates, rfl⟩
        simpa using List.find?_eq_none.mp hfind c hc
    · rintro ⟨-, i, ⟨target, updates⟩, hi, hmem, htarget, hupdates, rfl⟩
      have hfind : (uniqueBy.find? fun c => !(i.columns.map (·.text)).contains c) = none := by
        rw [List.find?_eq_none]
        exact fun c hc => by simpa using hmem c hc
      refine ⟨i, hi, ?_⟩
      rw [hcolumns i hi]
      dsimp only
      rw [hfind]
      simp only [Identifier.mapM_of?_iff.mpr htarget, Identifier.mapM_of?_iff.mpr hupdates, Except.ok_bind]
      rfl

theorem Write.bound_of_upsertOf? {table : String} {rows : List Row} {uniqueBy : List String}
    {update : Option (List String)} {w : Write}
    (h : Write.upsertOf? table rows uniqueBy update = .ok w) :
    w.bound = rows.map NameMap.entries ∧
      ∀ d, params (w.template d) = rows.flatMap NameMap.values := by
  obtain ⟨-, i, conflict, hi, -, -, -, rfl⟩ := Write.upsertOf?_eq_ok.mp h
  obtain ⟨hbound, hparams⟩ := Insert.bound_of_insertRows? hi
  refine ⟨hbound, fun d => ?_⟩
  rw [Write.template, params_append, hparams, Conflict.params_template, List.append_nil]

theorem Write.bound_of_updateOf? {table : String} {values : Row} {conditions : List Condition}
    {w : Write} (h : Write.updateOf? table values conditions = .ok w) :
    w.bound = [values.entries] ∧
      ∀ d, params (w.template d) = values.values ++ Condition.boundValuesOf conditions := by
  unfold Write.updateOf? at h
  split at h
  · cases h
  · simp only [Except.bind_eq_ok, Except.pure_eq_ok] at h
    obtain ⟨assignments, hassignments, r, hr, chain, hchain, rfl⟩ := h
    have hall := Except.mapM_eq_ok.mp hassignments
    have hassigned : assignments.filterMap Assigned.bound? = values.entries ∧
        params (Write.assignmentTemplate assignments) = values.values := by
      rw [Write.assignmentTemplate, params_joined, NameMap.values]
      generalize values.entries = entries at hall
      clear hassignments
      induction hall with
      | nil => exact ⟨rfl, rfl⟩
      | @cons entry assignment entries assignments hfirst _ ih =>
          simp only [Except.bind_eq_ok, Except.pure_eq_ok] at hfirst
          obtain ⟨n, hn, rfl⟩ := hfirst
          have hname := Identifier.of?_eq_ok hn
          refine ⟨?_, ?_⟩
          · simp [Assigned.bound?, hname, ih.1]
          · simpa [params, Assigned.template] using ih.2
    refine ⟨by rw [Write.bound, hassigned.1], fun d => ?_⟩
    simp [Write.template, params, params_append, Reference.params_eq_nil hr, hassigned.2,
      Condition.params_whereTemplate hchain]

/-! ## Statements that remove rows -/

/-- The statement removes rows. -/
def Statement.Removes (statement : Statement) : Prop :=
  "DELETE".toList <+: statement.sql.toList

theorem Write.removes_delete (d : Dialect) (table : Reference) (filter : Chain) :
    ((Write.delete table filter).statement d).Removes := by
  have hsql : ((Write.delete table filter).statement d).sql =
      "DELETE FROM " ++ Template.printFrom d 1 (table.template ++ whereTemplate filter) := rfl
  rw [Statement.Removes, hsql, String.toList_append]
  exact List.IsPrefix.trans (by decide) (List.prefix_append _ _)

theorem Write.not_removes_update (d : Dialect) (table : Reference)
    (assignments : List (Identifier × Assigned)) (filter : Chain) :
    ¬((Write.update table assignments filter).statement d).Removes := by
  have hsql : ((Write.update table assignments filter).statement d).sql =
      "UPDATE " ++ Template.printFrom d 1 (table.template ++ .text " SET " ::
        assignmentTemplate assignments ++ whereTemplate filter) := by
    simp [Write.statement, Write.template, Template.statement, Template.print, Template.printFrom]
  rw [Statement.Removes, hsql, String.toList_append]
  rintro ⟨rest, hrest⟩
  simp at hrest

end TableGate
