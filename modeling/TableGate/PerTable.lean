/-!
# Values per table

A value for each table of each connection, of which only finitely many are ever set.
-/

namespace TableGate

/-- A value for each table, under the names of its connection and of the table. -/
structure PerTable (α : Type) where
  get (connection table : String) : α

namespace PerTable

variable {α : Type}

def const (value : α) : PerTable α :=
  ⟨fun _ _ => value⟩

def set (m : PerTable α) (connection table : String) (value : α) : PerTable α :=
  ⟨fun c t => if c = connection ∧ t = table then value else m.get c t⟩

def update (m : PerTable α) (connection table : String) (f : α → α) : PerTable α :=
  m.set connection table (f (m.get connection table))

@[simp]
theorem get_const (value : α) (c t : String) : (const value).get c t = value :=
  rfl

@[simp]
theorem get_set_self (m : PerTable α) (c t : String) (value : α) :
    (m.set c t value).get c t = value := by
  simp [set]

theorem get_set_of_ne (m : PerTable α) {c t c' t' : String} (value : α) (h : ¬(c' = c ∧ t' = t)) :
    (m.set c t value).get c' t' = m.get c' t' :=
  if_neg h

end PerTable

end TableGate
