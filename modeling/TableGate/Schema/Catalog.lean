import TableGate.PerTable

/-!
# The catalog

The tables that keep deleted rows, each with the column that marks them.
-/

namespace TableGate

/-- The column that marks deleted rows, for each table that keeps them. -/
structure Catalog where
  columns : PerTable (Option String)

namespace Catalog

def empty : Catalog :=
  ⟨.const none⟩

def column? (c : Catalog) (connection table : String) : Option String :=
  c.columns.get connection table

/-- The catalog in which a table keeps deleted rows and marks them in a column. -/
def enable (c : Catalog) (connection table column : String) : Catalog :=
  ⟨c.columns.set connection table (some column)⟩

/-- The catalog in which a table does not keep deleted rows. -/
def disable (c : Catalog) (connection table : String) : Catalog :=
  ⟨c.columns.set connection table none⟩

def rename (c : Catalog) (connection table source target : String) : Catalog :=
  ⟨c.columns.update connection table fun
    | some column => some (if column = source then target else column)
    | none => none⟩

def remove (c : Catalog) (connection table : String) : Catalog :=
  ⟨c.columns.set connection table none⟩

end Catalog

end TableGate
