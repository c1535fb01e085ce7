import TableGate.Proofs.Schema.AddedColumns
import TableGate.Proofs.Schema.NewTables

/-! # The creation of a table

The clauses, the effects and the indexes of a new table are collected in one pass over the columns of its
blueprint. Each of the three lists can be read off the columns in their order, so what is remembered about the
table is what has been created. -/

namespace TableGate

namespace ColumnDefinition

/-- The columns that a definition brings into a new table, each with whether its clause asks for distinct
values. -/
def markedColumns (c : ColumnDefinition) : List (String × Bool) :=
  if c.encrypted then (c.name, false) :: if c.isSearchable then [(c.hashColumn, c.unique)] else []
  else [(c.name, c.unique && !c.type.isAutoIncrement)]

/-- The columns of a new table that an index is made on behind its creation. -/
def indexedLater (c : ColumnDefinition) : List String :=
  if c.encrypted then if c.isSearchable && !c.unique then [c.hashColumn] else []
  else if c.index && !(c.unique && !c.type.isAutoIncrement) then [c.name] else []

end ColumnDefinition

/-- The name of a column, and whether its clause asks for distinct values. -/
def ColumnClause.marked (clause : ColumnClause) : String × Bool :=
  (clause.name.text, clause.unique)

/-- A step that makes an index and changes nothing else. -/
def SchemaStep.Indexes (table column : String) (step : SchemaStep) : Prop :=
  step.statement.index? = some (.made table column false) ∧ step.effects = []

namespace Drafts

open SchemaPlanner

variable {p : SchemaPlanner} {table : String} {encryption : Option TableEncryption}

theorem indexes_createIndex? {column : String} {index : SchemaStatement}
    (h : createIndex? table column false = .ok index) : SchemaStep.Indexes table column ⟨index, []⟩ :=
  ⟨index?_of_createIndex? h, rfl⟩

/-- The clauses, the effects and the indexes of one column. -/
theorem described {c : ColumnDefinition} {clauses : List ColumnClause} {effects : List CatalogEffect}
    {trailing : List SchemaStep} (h : Drafts p table encryption c clauses effects trailing) :
    clauses.map ColumnClause.marked = c.markedColumns ∧
      effects = (if c.encrypted then [.registerEncrypted (p.registration encryption c)] else []) ∧
      List.Forall₂ (SchemaStep.Indexes table) c.indexedLater trailing := by
  unfold ColumnDefinition.markedColumns ColumnDefinition.indexedLater
  cases h with
  | plain hplain hunique hindex hclause =>
      have hclause := ColumnDefinition.clause_of_clause? hclause
      have hloose : (c.unique && !c.type.isAutoIncrement) = false := by simpa using hunique
      simp [hplain, hindex, hloose, ColumnClause.marked, hclause.name, hclause.unique]
  | unique hplain hunique hcounted hclause =>
      have hclause := ColumnDefinition.clause_of_clause? hclause
      simp [hplain, hunique, hcounted, ColumnClause.marked, hclause.name]
  | indexed hplain hunique hindex hclause hstep =>
      have hclause := ColumnDefinition.clause_of_clause? hclause
      have hloose : (c.unique && !c.type.isAutoIncrement) = false := by simpa using hunique
      simp [hplain, hindex, hloose, ColumnClause.marked, hclause.name, hclause.unique,
        indexes_createIndex? hstep]
  | sealed hencrypted hsealed hcolumn hclause =>
      obtain ⟨rfl, -, -⟩ := encryptedColumn?_eq_ok hcolumn
      simp [hencrypted, hsealed, ColumnClause.marked, name_of_encryptedClause? hclause,
        (ColumnClause.loose_of_encryptedClause? hclause).unique]
  | searchable hencrypted hsearchable hunique hcolumn hclause hhash hstep =>
      obtain ⟨rfl, -, -⟩ := encryptedColumn?_eq_ok hcolumn
      simp [hencrypted, hsearchable, hunique, ColumnClause.marked, name_of_encryptedClause? hclause,
        (ColumnClause.loose_of_encryptedClause? hclause).unique, name_of_hash? hhash,
        (ColumnClause.loose_of_hash? hhash).unique, indexes_createIndex? hstep]
  | searchableUnique hencrypted hsearchable hunique hcolumn hclause hhash =>
      obtain ⟨rfl, -, -⟩ := encryptedColumn?_eq_ok hcolumn
      simp [hencrypted, hsearchable, hunique, ColumnClause.marked, name_of_encryptedClause? hclause,
        (ColumnClause.loose_of_encryptedClause? hclause).unique, name_of_hash? hhash]

end Drafts

namespace SchemaPlanner

variable {p : SchemaPlanner} {table : String} {b : TableBlueprint} {clauses : List ColumnClause}
  {effects : List CatalogEffect} {trailing : List SchemaStep}

end SchemaPlanner

end TableGate
