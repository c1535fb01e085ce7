import TableGate.Proofs.Schema.ActionLists
import TableGate.Proofs.Schema.CreatedTables

/-! # Names of indexes

The name of an index is put together from the names of its table and of its column, with an underscore between
them. An underscore may also stand within either of them. So two columns share the names of their indexes if the
name of one table goes on, behind an underscore, with words that the column of the other table begins with. In
SQLite all tables of a database share the names of indexes, and an index is dropped by its name alone. -/

namespace TableGate

namespace TableIndex

/-- The name of the second table is that of the first one and some words, with which the column of the first table
begins. -/
def Overlap (table column table' column' : String) : Prop :=
  ∃ between, table' = table ++ "_" ++ between ∧ column = between ++ "_" ++ column'

/-- Columns of two tables that overlap, one way or the other. -/
def Alike (table column table' column' : String) : Prop :=
  Overlap table column table' column' ∨ Overlap table' column' table column

end TableIndex

/-! ## Planned indexes -/

namespace SchemaPlanner

variable {p : SchemaPlanner} {table : String} {name : Identifier} {s : TableState} {i : TableIndex}
  {own steps : List SchemaStep} {step : SchemaStep}

end SchemaPlanner

/-- A statement drops an index. In SQLite the case of its name does not matter. -/
def SchemaStatement.Removes (i : TableIndex) : SchemaStatement → Prop
  | .dropIndex name => Text.lower name.text = Text.lower i.name
  | _ => False

instance (i : TableIndex) : (statement : SchemaStatement) → Decidable (statement.Removes i)
  | .dropIndex name => inferInstanceAs (Decidable (Text.lower name.text = Text.lower i.name))
  | .createTable .. | .dropTable _ | .addColumn .. | .modifyColumn .. | .setType .. | .setNullable .. |
    .setDefault .. | .dropColumn .. | .renameColumn .. | .createIndex .. | .createView .. | .dropView _ |
    .grant .. | .revoke .. => inferInstanceAs (Decidable False)

/-- Steps drop an index. -/
def SchemaStep.Remove (i : TableIndex) (steps : List SchemaStep) : Prop :=
  ∃ step ∈ steps, step.statement.Removes i

instance (i : TableIndex) (steps : List SchemaStep) : Decidable (SchemaStep.Remove i steps) :=
  inferInstanceAs (Decidable (∃ step ∈ steps, step.statement.Removes i))

namespace SchemaPlanner

open TableIndex

variable {p : SchemaPlanner} {table column : String} {name : Identifier} {s : TableState} {i : TableIndex}
  {own : List SchemaStep}

/-- The column of one table is called like the rest of the name of the other one and a column of it. Dropping it takes
the index of the other one away. -/
theorem index_names_shared :
    let p : SchemaPlanner := ⟨.sqlite, .guarded, .chacha20Poly1305⟩
    indexName? "idx" "user_role" "name" = indexName? "idx" "user" "role_name" ∧
      ∃ created altered i, p.createTable? "user_role"
          { columns := [{ name := "name", type := .string, index := true }] } = .ok created ∧
        p.alterTable? "user" [.drop "role_name"] {} = .ok altered ∧
        (∃ step ∈ created, step.statement.index? = some i) ∧ i.table = "user_role" ∧ i.column = "name" ∧
        SchemaStep.Remove i altered := by
  intro p
  obtain ⟨created, hcreated, hmade⟩ := Except.exists_of_any
    (x := p.createTable? "user_role" { columns := [{ name := "name", type := .string, index := true }] })
    (p := fun steps => decide (∃ step ∈ steps, step.statement.index? = some (made "user_role" "name" false)))
    (by decide +kernel)
  obtain ⟨altered, haltered, hremoved⟩ := Except.exists_of_any (x := p.alterTable? "user" [.drop "role_name"] {})
    (p := fun steps => decide (SchemaStep.Remove (made "user_role" "name" false) steps)) (by decide +kernel)
  exact ⟨by decide +kernel, created, altered, made "user_role" "name" false, hcreated, haltered,
    of_decide_eq_true hmade, rfl, rfl, of_decide_eq_true hremoved⟩

end SchemaPlanner

end TableGate
