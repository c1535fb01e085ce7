import TableGate.Proofs.Query.Clauses
import TableGate.Proofs.Query.SameText
import TableGate.Proofs.Query.Writes

/-! # Inserted rows

The rows of an insertion are maps that know nothing of each other: they are lined up by the columns of the
first, and their values are numbered through all of them. Whatever the rows, each value is bound under the mark
that stands for its own row and column. -/

namespace TableGate

open Template

/-- Rows that can be inserted into a table: there are some, all have the same columns, the table and the
columns have names that can be quoted, and a row without columns is alone. -/
structure Insertable (table : String) (rows : List Row) : Prop where
  nonempty : rows ≠ []
  alike : ∀ row ∈ rows, ∀ other ∈ rows, ∀ name, row.contains name = other.contains name
  table_valid : ∃ reference, Reference.of? table = .ok reference
  columns_valid : ∀ row ∈ rows, ∀ name, row.contains name = true → Text.isIdentifier name.toList = true
  alone : ∀ row ∈ rows, row.isEmpty = true → rows.length = 1

namespace Dialect

/-- A row of marks for the parameters at the given positions. -/
def tuple (d : Dialect) (positions : List ℕ) : String :=
  "(" ++ ", ".intercalate (positions.map d.placeholder) ++ ")"

/-- The text of an insertion with one tuple of marks after the other. -/
def insertionText (d : Dialect) (table : Reference) (columns : List Identifier) (tuples : List (List ℕ)) :
    String :=
  "INSERT INTO " ++ table.template.print d ++ " (" ++ ", ".intercalate (columns.map d.quoted) ++
    ") VALUES " ++ ", ".intercalate (tuples.map d.tuple)

end Dialect

/-- The statement inserts the rows. It names each of their columns once, in increasing order, and has a tuple
of marks for each row; the parameter at each mark is what the row has in the column; and the marks of the text
are those of all parameters, from the first to the last. -/
structure Statement.InsertsRows (d : Dialect) (table : Reference) (rows : List Row)
    (columns : List Identifier) (tuples : List (List ℕ)) (s : Statement) : Prop where
  columns_eq : ∀ row ∈ rows, row.names = columns.map (·.text)
  increasing : columns.Pairwise fun a b => a.text < b.text
  sql_eq : s.sql = d.insertionText table columns tuples
  bound : List.Forall₂ (fun row tuple => List.Forall₂ (fun (column : Identifier) position =>
    ∃ v, row.get? column.text = some v ∧ s.params[position - 1]? = some v) columns tuple) rows tuples
  numbered : tuples.flatten = List.range' 1 s.params.length
  marks_eq : d.marks s.sql.toList = tuples.flatten.map d.placeholder

/-- The positions of tuples whose values are numbered through, from the given one on. -/
def positionsFrom : ℕ → List (List Value) → List (List ℕ)
  | _, [] => []
  | n, tuple :: tuples => List.range' n tuple.length :: positionsFrom (n + tuple.length) tuples

theorem flatten_positionsFrom (n : ℕ) (tuples : List (List Value)) :
    (positionsFrom n tuples).flatten = List.range' n tuples.flatten.length := by
  induction tuples generalizing n with
  | nil => rfl
  | cons tuple tuples ih =>
      rw [positionsFrom, List.flatten_cons, ih, List.flatten_cons, List.length_append, List.range'_append_1]

/-! ## The rows that can be inserted -/

theorem Write.exists_insertRows?_iff (table : String) (rows : List Row) :
    (∃ i, Write.insertRows? table rows = .ok i) ↔ Insertable table rows := by
  constructor
  · rintro ⟨i, hi⟩
    obtain ⟨first, rest, rfl, halike, hr, halone, hcolumns, -⟩ := insertRows?_eq_ok.mp hi
    have hnames : ∀ row ∈ first :: rest, row.names = first.names := List.forall_mem_cons.mpr ⟨rfl, halike⟩
    refine ⟨List.cons_ne_nil _ _, fun row hrow other hother => ?_, ⟨_, hr⟩, fun row hrow name hname => ?_,
      fun row hrow hempty => ?_⟩
    · exact NameMap.names_eq_iff.mp ((hnames row hrow).trans (hnames other hother).symm)
    · refine Identifier.exists_texts_iff.mp ⟨i.columns, hcolumns⟩ name ?_
      rwa [NameMap.contains_eq, List.contains_iff_mem, hnames row hrow] at hname
    · rw [NameMap.isEmpty_iff, hnames row hrow] at hempty
      rw [halone hempty, List.length_singleton]
  · rintro ⟨hnonempty, halike, ⟨reference, hr⟩, hvalid, halone⟩
    obtain ⟨first, rest, rfl⟩ := List.exists_cons_of_ne_nil hnonempty
    obtain ⟨columns, hcolumns⟩ : ∃ columns : List Identifier, columns.map (·.text) = first.names := by
      refine Identifier.exists_texts_iff.mpr fun name hname => hvalid first List.mem_cons_self name ?_
      rwa [NameMap.contains_eq, List.contains_iff_mem]
    refine ⟨⟨reference, columns, (first :: rest).map NameMap.values⟩, insertRows?_eq_ok.mpr
      ⟨first, rest, rfl, fun row hrow => ?_, hr, fun hnames => ?_, hcolumns, rfl⟩⟩
    · exact NameMap.names_eq_iff.mpr (halike row (List.mem_cons_of_mem _ hrow) first List.mem_cons_self)
    · have hlength := halone first List.mem_cons_self (NameMap.isEmpty_iff.mpr hnames)
      rw [List.length_cons, Nat.add_eq_right] at hlength
      exact List.length_eq_zero_iff.mp hlength

/-! ## The text -/

theorem Insert.printFrom_names (d : Dialect) (n : ℕ) (names : List Identifier) :
    printFrom d n (nameTemplate names) = ", ".intercalate (names.map d.quoted) := by
  rw [nameTemplate, printFrom_joined, printEach_map (fun _ => rfl)]
  exact fun n name => by simp [printFrom]

theorem Insert.printFrom_tuple (d : Dialect) (n : ℕ) (values : List Value) :
    printFrom d n (tupleTemplate values) = d.tuple (List.range' n values.length) := by
  rw [tupleTemplate, parenthesized, printFrom_append, printFrom, printFrom_joined, printEach_params]
  simp [printFrom, Dialect.tuple]

theorem Insert.printEach_tuples (d : Dialect) (n : ℕ) (tuples : List (List Value)) :
    printEach d n (tuples.map tupleTemplate) = (positionsFrom n tuples).map d.tuple := by
  induction tuples generalizing n with
  | nil => rfl
  | cons tuple tuples ih =>
      rw [List.map_cons, printEach, positionsFrom, List.map_cons, printFrom_tuple, params_tuple, ih]

/-- The text of an insertion with columns. -/
theorem Insert.print_template {i : Insert} (d : Dialect) (hcolumns : i.columns ≠ [])
    (htable : params i.table.template = []) :
    (i.template d).print d = d.insertionText i.table i.columns (positionsFrom 1 i.tuples) := by
  have hempty : ¬i.columns.isEmpty = true := by simpa using hcolumns
  have hfront : params (i.table.template ++ .text " (" :: nameTemplate i.columns) = [] := by
    rw [params_append, htable]
    exact params_names i.columns
  rw [print, template, if_neg hempty]
  unfold Dialect.insertionText
  simp only [List.cons_append, printFrom, printFrom_append, hfront, htable, List.length_nil, Nat.add_zero,
    printFrom_names, printFrom_joined, printEach_tuples, print, String.append_assoc]

/-! ## The marks -/

/-- A tuple of scalars carries them. -/
theorem Insert.carries_tuple {d : Dialect} {values : List Value} (h : ∀ v ∈ values, v.isScalar = true) :
    Carries d values (tupleTemplate values) := by
  have hvalues : List.Forall₂ (Carries d) (values.map fun v => [v]) (values.map fun v => [.param v]) := by
    rw [List.forall₂_map_left_iff, List.forall₂_map_right_iff, List.forall₂_same]
    exact fun v hv => carries_nil.param (h v hv) opens_nil
  have hjoined : Carries d (values.map fun v => [v]).flatten
      (joined ", " (values.map fun v => [.param v])) := Carries.joined (by decide) (by decide) hvalues
  rw [← List.flatMap_def, List.flatMap_singleton'] at hjoined
  exact Carries.parenthesized hjoined

theorem Insert.carries {i : Insert} {d : Dialect} (hcolumns : i.columns ≠ [])
    (htable : Carries d [] i.table.template) (hscalar : ∀ tuple ∈ i.tuples, ∀ v ∈ tuple, v.isScalar = true) :
    Carries d i.tuples.flatten (i.template d) := by
  have htuples : Carries d i.tuples.flatten (joined ", " (i.tuples.map tupleTemplate)) := by
    refine Carries.joined (by decide) (by decide) ?_
    rw [List.forall₂_map_right_iff, List.forall₂_same]
    exact fun tuple htuple => carries_tuple (hscalar tuple htuple)
  have hnames : Carries d [] (nameTemplate i.columns) := by
    refine Carries.joined_nil (by decide) (by decide) fun t ht => ?_
    obtain ⟨n, -, rfl⟩ := List.mem_map.mp ht
    exact carries_nil.name
  have hempty : ¬i.columns.isEmpty = true := by simpa using hcolumns
  have hvalues := htuples.text (x := ") VALUES ") (by decide)
  have hlisted := (hnames.append hvalues (opens_text (by decide))).text (x := " (") (by decide)
  have hinto := (htable.append hlisted (opens_text (by decide))).text (x := "INSERT INTO ") (by decide)
  rw [template, if_neg hempty]
  simpa using hinto

/-- The marks in the text of an insertion are those of its values, whatever these are: the text is that of the
insertion without its data, which are scalars. -/
theorem Insert.marks_print {i : Insert} (d : Dialect) (hcolumns : i.columns ≠ [])
    (htable : Carries d [] i.table.template) :
    d.marks ((i.template d).print d).toList =
      (List.range' 1 i.tuples.flatten.length).map d.placeholder := by
  have hscalar : ∀ tuple ∈ i.withoutData.tuples, ∀ v ∈ tuple, v.isScalar = true := by
    intro tuple htuple v hv
    obtain ⟨values, -, rfl⟩ := List.mem_map.mp htuple
    obtain ⟨w, -, rfl⟩ := List.mem_map.mp hv
    rfl
  have hprint : (i.template d).print d = (i.withoutData.template d).print d := by
    rw [print, print, ← printFrom_withoutData, ← i.template_withoutData d, printFrom_withoutData]
  have hlength : i.withoutData.tuples.flatten.length = i.tuples.flatten.length := by
    simp [Insert.withoutData, List.length_flatten, Function.comp_def]
  have hcarries : Carries d i.withoutData.tuples.flatten (i.withoutData.template d) :=
    carries hcolumns htable hscalar
  have hmarks := hcarries.marks_eq 1 [] (by simp [NoDigitFirst])
  rw [hlength] at hmarks
  rw [hprint]
  simpa [print, Dialect.marks] using hmarks

/-! ## The values -/

/-- The values of a row stand among the parameters in the order of its columns. -/
theorem Row.forall₂_bound {columns : List Identifier} (row : Row) (hnames : row.names = columns.map (·.text))
    (front back : List Value) :
    List.Forall₂ (fun (column : Identifier) position => ∃ v, row.get? column.text = some v ∧
        (front ++ (row.values ++ back))[position - 1]? = some v)
      columns (List.range' (front.length + 1) row.values.length) := by
  have hlength : row.entries.length = columns.length := by
    simpa [NameMap.names] using congrArg List.length hnames
  rw [List.forall₂_iff_get]
  refine ⟨by simp [NameMap.values, hlength], fun i hcolumn hposition => ?_⟩
  have hi : i < row.entries.length := hlength ▸ hcolumn
  have hname : columns[i].text = row.entries[i].1 := by
    have hboth : (columns.map (·.text))[i]? = (row.entries.map (·.1))[i]? := by rw [← hnames]; rfl
    simpa [hcolumn, hi] using hboth
  have hindex : front.length + 1 + i - 1 = front.length + i := by omega
  refine ⟨row.entries[i].2, ?_, ?_⟩
  · rw [List.get_eq_getElem, hname]
    exact NameMap.get?_of_mem (List.getElem_mem hi)
  · rw [List.get_eq_getElem, List.getElem_range', Nat.one_mul, hindex, List.getElem?_append_right (by omega),
      Nat.add_sub_cancel_left, List.getElem?_append_left (by simpa [NameMap.values] using hi)]
    simp [NameMap.values, hi]

/-- Behind the parameters that are there already, the values of every row stand in the order of the rows. -/
theorem forall₂_bound_positionsFrom {columns : List Identifier} {rows : List Row}
    (hnames : ∀ row ∈ rows, row.names = columns.map (·.text)) (front : List Value) :
    List.Forall₂ (fun row tuple => List.Forall₂ (fun (column : Identifier) position =>
        ∃ v, row.get? column.text = some v ∧ (front ++ rows.flatMap NameMap.values)[position - 1]? = some v)
      columns tuple) rows (positionsFrom (front.length + 1) (rows.map NameMap.values)) := by
  induction rows generalizing front with
  | nil => exact .nil
  | cons row rows ih =>
      obtain ⟨hrow, hrows⟩ := List.forall_mem_cons.mp hnames
      rw [List.map_cons, positionsFrom, List.flatMap_cons]
      refine .cons (row.forall₂_bound hrow front _) ?_
      have hrest := ih hrows (front ++ row.values)
      rw [List.append_assoc, List.length_append, Nat.add_right_comm] at hrest
      exact hrest

/-! ## The statement -/

namespace Compiler

/-- An insertion is compiled if and only if the rows can be inserted; if they have columns, the statement
inserts them. -/
theorem insert_binds_rows (k : Compiler) (table : String) (rows : List Row) :
    ((∃ s, k.insert table rows = .ok s) ↔ Insertable table rows) ∧
    ∀ s, k.insert table rows = .ok s → (∃ row ∈ rows, row.isEmpty = false) →
      ∃ reference columns tuples, Reference.of? table = .ok reference ∧
        s.InsertsRows k.dialect reference rows columns tuples := by
  constructor
  · rw [← Write.exists_insertRows?_iff]
    simp [insert, write, Write.insertOf?]
  · rintro s hs ⟨row, hrow, hempty⟩
    simp only [insert, write, Write.insertOf?, Except.map_eq_ok] at hs
    obtain ⟨w, ⟨i, hi, rfl⟩, rfl⟩ := hs
    obtain ⟨first, rest, rfl, halike, hr, -, hcolumns, htuples⟩ := Write.insertRows?_eq_ok.mp hi
    have hnames : ∀ row ∈ first :: rest, row.names = i.columns.map (·.text) := by
      rw [hcolumns]
      exact List.forall_mem_cons.mpr ⟨rfl, halike⟩
    have hsome : i.columns ≠ [] := by
      intro hnone
      have hno : row.names = [] := by rw [hnames row hrow, hnone, List.map_nil]
      rw [NameMap.isEmpty_iff.mpr hno] at hempty
      cases hempty
    have hflat : i.tuples.flatten = (first :: rest).flatMap NameMap.values := by
      rw [htuples, List.flatMap_def]
    have hparams : ((Write.insert i).statement k.dialect).params = (first :: rest).flatMap NameMap.values :=
      (Insert.bound_of_insertRows? hi).2 k.dialect
    have hincreasing : (i.columns.map (·.text)).Pairwise (· < ·) := by
      rw [hcolumns]
      exact first.pairwise_names
    have htable : Carries k.dialect [] i.table.template := Reference.carries hr
    refine ⟨i.table, i.columns, positionsFrom 1 i.tuples, hr, hnames, List.pairwise_map.mp hincreasing,
      Insert.print_template k.dialect hsome htable.params_eq, ?_, ?_, ?_⟩
    · rw [hparams, htuples]
      exact forall₂_bound_positionsFrom hnames []
    · rw [flatten_positionsFrom, hparams, hflat]
    · rw [flatten_positionsFrom]
      exact Insert.marks_print k.dialect hsome htable

/-- Two rows of users, where the second lists its columns in the other order. -/
theorem insert_binds_rows_users :
    let k : Compiler := ⟨.postgres, .guarded⟩
    let ada : Row := (NameMap.empty.insert "name" (.text "Ada")).insert "age" (.int 36)
    let bob : Row := (NameMap.empty.insert "age" .null).insert "name" (.text "Bob")
    ∃ s, k.insert "users" [ada, bob] = .ok s ∧ (∃ row ∈ [ada, bob], row.isEmpty = false) ∧
      ∃ reference columns tuples, Reference.of? "users" = .ok reference ∧
        s.InsertsRows .postgres reference [ada, bob] columns tuples := by
  intro k ada bob
  obtain ⟨s, hs⟩ : ∃ s, k.insert "users" [ada, bob] = .ok s := Except.exists_of_isOk (by decide)
  have hempty : ∃ row ∈ [ada, bob], row.isEmpty = false := ⟨ada, by simp, by decide⟩
  exact ⟨s, hs, hempty, (k.insert_binds_rows "users" [ada, bob]).2 s hs hempty⟩

end Compiler

end TableGate
