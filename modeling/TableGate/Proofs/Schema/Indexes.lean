import Mathlib.Data.Finset.Filter
import Mathlib.Data.Finset.Image
import TableGate.Proofs.Failure
import TableGate.Proofs.Sql.Column
import TableGate.Schema.Plan

/-! # Indexes

An index gets its name from its table and its column when it is made, and keeps it when the column gets another
one. It is dropped by that name or, but for SQLite, together with its column. -/

namespace TableGate

/-- An index on a column of a table. -/
structure TableIndex where
  name : String
  table : String
  column : String
  unique : Bool
  deriving DecidableEq

namespace TableIndex

/-- The name of an index that is made for a column. -/
def nameFor (unique : Bool) (table column : String) : String :=
  (if unique then "uniq" else "idx") ++ "_" ++ table ++ "_" ++ column

/-- An index that was made for one column, which may be called otherwise by now. -/
def moved (table origin column : String) (unique : Bool) : TableIndex :=
  ⟨nameFor unique table origin, table, column, unique⟩

/-- An index as it is made. -/
def made (table column : String) (unique : Bool) : TableIndex :=
  moved table column column unique

/-- The index is on a column of a table. -/
def On (i : TableIndex) (table column : String) : Prop :=
  i.table = table ∧ i.column = column

instance (i : TableIndex) (table column : String) : Decidable (i.On table column) :=
  inferInstanceAs (Decidable (_ ∧ _))

/-- The index after a column has been given another name. -/
def renamed (table source target : String) (i : TableIndex) : TableIndex :=
  if i.On table source then { i with column := target } else i

@[simp] theorem on_moved {table origin column other : String} {unique : Bool} :
    (moved table origin column unique).On table other ↔ column = other := by
  simp [On, moved]

theorem nameFor_inj {unique unique' : Bool} {table column column' : String} :
    nameFor unique table column = nameFor unique' table column' ↔ unique = unique' ∧ column = column' := by
  constructor
  · intro h
    have hchars := congrArg String.toList h
    -- the marks differ in their first letter
    cases unique <;> cases unique' <;> simp [nameFor, String.toList_append] at hchars
    · exact ⟨rfl, String.toList_inj.mp hchars⟩
    · exact ⟨rfl, String.toList_inj.mp hchars⟩
  · rintro ⟨rfl, rfl⟩
    rfl

theorem moved_inj {table origin origin' column column' : String} {unique unique' : Bool} :
    moved table origin column unique = moved table origin' column' unique' ↔
      origin = origin' ∧ column = column' ∧ unique = unique' := by
  simp only [moved, mk.injEq, nameFor_inj, true_and]
  tauto

theorem renamed_moved (table source target origin column : String) (unique : Bool) :
    (moved table origin column unique).renamed table source target =
      moved table origin (if column = source then target else column) unique := by
  unfold renamed
  by_cases h : column = source
  · rw [if_pos (on_moved.mpr h), if_pos h]
    rfl
  · rw [if_neg (mt on_moved.mp h), if_neg h]

end TableIndex

/-! ## What statements do to indexes -/

namespace SchemaStatement

/-- The index that a statement makes. -/
def index? : SchemaStatement → Option TableIndex
  | .createIndex unique name table column => some ⟨name.text, table.text, column.text, unique⟩
  | _ => none

/-- The indexes after a statement. In SQLite an index does not go with its column. -/
def indexesAfter (d : Dialect) (indexes : Finset TableIndex) : SchemaStatement → Finset TableIndex
  | .createIndex unique name table column => insert ⟨name.text, table.text, column.text, unique⟩ indexes
  | .dropIndex name => indexes.filter (·.name ≠ name.text)
  | .dropColumn table column =>
    if d = .sqlite then indexes else indexes.filter fun i => ¬ i.On table.text column.text
  | .renameColumn table source target => indexes.image (·.renamed table.text source.text target.text)
  | .dropTable table => indexes.filter (·.table ≠ table.text)
  | _ => indexes

end SchemaStatement

namespace SchemaStep

def indexesAfter (d : Dialect) (indexes : Finset TableIndex) (steps : List SchemaStep) :
    Finset TableIndex :=
  steps.foldl (fun indexes step => step.statement.indexesAfter d indexes) indexes

variable (d : Dialect) (indexes : Finset TableIndex)

@[simp] theorem indexesAfter_nil : indexesAfter d indexes [] = indexes :=
  rfl

@[simp] theorem indexesAfter_cons (step : SchemaStep) (steps : List SchemaStep) :
    indexesAfter d indexes (step :: steps) =
      indexesAfter d (step.statement.indexesAfter d indexes) steps :=
  rfl

end SchemaStep

/-! ## Planned indexes -/

namespace SchemaPlanner

variable {p : SchemaPlanner} {table column : String} {unique : Bool}

theorem text_of_indexName? {n : Identifier}
    (h : indexName? (if unique then "uniq" else "idx") table column = .ok n) :
    n.text = TableIndex.nameFor unique table column :=
  Identifier.of?_eq_ok h

theorem createIndex?_eq_ok {index : SchemaStatement} (h : createIndex? table column unique = .ok index) :
    ∃ n t c : Identifier, index = .createIndex unique n t c ∧
      n.text = TableIndex.nameFor unique table column ∧ t.text = table ∧ c.text = column := by
  simp only [createIndex?, Except.bind_eq_ok, Except.pure_eq_ok] at h
  obtain ⟨n, hn, t, ht, c, hc, rfl⟩ := h
  exact ⟨n, t, c, rfl, text_of_indexName? hn, Identifier.of?_eq_ok ht, Identifier.of?_eq_ok hc⟩

/-- The index that is planned for a column is named for it. -/
theorem index?_of_createIndex? {index : SchemaStatement}
    (h : createIndex? table column unique = .ok index) :
    index.index? = some (TableIndex.made table column unique) := by
  obtain ⟨n, t, c, rfl, hn, rfl, rfl⟩ := createIndex?_eq_ok h
  simp [SchemaStatement.index?, TableIndex.made, TableIndex.moved, hn]

/-- A name can be made for an index on any column of any table. -/
theorem exists_indexName? (unique : Bool) (table column : Identifier) :
    ∃ n, indexName? (if unique then "uniq" else "idx") table.text column.text = .ok n := by
  have htable : ∀ c ∈ table.text.toList, Text.isWordChar c = true := fun _ => table.isWordChar_of_mem
  have hcolumn : ∀ c ∈ column.text.toList, Text.isWordChar c = true := fun _ => column.isWordChar_of_mem
  have hvalid : Text.isIdentifier (TableIndex.nameFor unique table.text column.text).toList = true := by
    have hletters : Text.isInitial 'u' = true ∧ Text.isInitial 'i' = true ∧ Text.isWordChar '_' = true ∧
        Text.isWordChar 'n' = true ∧ Text.isWordChar 'i' = true ∧ Text.isWordChar 'q' = true ∧
        Text.isWordChar 'd' = true ∧ Text.isWordChar 'x' = true := by decide
    cases unique <;>
      simpa [TableIndex.nameFor, String.toList_append, Text.isIdentifier, hletters] using
        ⟨htable, hcolumn⟩
  exact ⟨⟨_, hvalid⟩, dif_pos hvalid⟩

end SchemaPlanner

end TableGate
