import TableGate.Json.Value

/-! # Equality of JSON values

Values are the same if they are written alike, and equal if they mean the same. The two come apart for zero, which
is a floating point number with either sign. -/

namespace TableGate

/-- Zero, with either sign. -/
def Binary64.isZero (x : Binary64) : Bool :=
  x.exponentField = 0 && x.fractionField = 0

/-- Equality of finite numbers. -/
def Binary64.equals (x y : Binary64) : Bool :=
  x = y || x.isZero && y.isZero

namespace Value

mutual

/-- Whether two values are the same, as far as two floating point numbers are. -/
def sameBy (number : Binary64 → Binary64 → Bool) : Value → Value → Bool
  | .null, .null => true
  | .bool a, .bool b => a == b
  | .int m, .int n => m == n
  | .real x, .real y => number x y
  | .text s, .text t => s == t
  | .array xs, .array ys => sameItems number xs ys
  | .object xs, .object ys => sameEntries number xs ys
  | _, _ => false

def sameItems (number : Binary64 → Binary64 → Bool) : List Value → List Value → Bool
  | [], [] => true
  | x :: xs, y :: ys => x.sameBy number y && sameItems number xs ys
  | _, _ => false

def sameEntries (number : Binary64 → Binary64 → Bool) :
    List (String × Value) → List (String × Value) → Bool
  | [], [] => true
  | (m, x) :: xs, (n, y) :: ys => m == n && x.sameBy number y && sameEntries number xs ys
  | _, _ => false

end

/-- Equality of JSON values. Numbers are equal if they are both integers or both not, and have the same value. -/
def equals : Value → Value → Bool :=
  sameBy Binary64.equals

variable {number : Binary64 → Binary64 → Bool}

mutual

theorem sameBy_iff (h : ∀ x y, number x y = true ↔ x = y) : ∀ x y : Value, x.sameBy number y = true ↔ x = y
  | .null, y => by cases y <;> simp [sameBy]
  | .bool a, y => by cases y <;> simp [sameBy]
  | .int n, y => by cases y <;> simp [sameBy]
  | .real x, y => by cases y <;> simp [sameBy, h]
  | .text s, y => by cases y <;> simp [sameBy]
  | .array xs, y => by cases y <;> simp [sameBy, sameItems_iff h xs]
  | .object xs, y => by cases y <;> simp [sameBy, sameEntries_iff h xs]

theorem sameItems_iff (h : ∀ x y, number x y = true ↔ x = y) :
    ∀ xs ys : List Value, sameItems number xs ys = true ↔ xs = ys
  | [], ys => by cases ys <;> simp [sameItems]
  | x :: xs, ys => by cases ys <;> simp [sameItems, sameBy_iff h x, sameItems_iff h xs]

theorem sameEntries_iff (h : ∀ x y, number x y = true ↔ x = y) :
    ∀ xs ys : List (String × Value), sameEntries number xs ys = true ↔ xs = ys
  | [], ys => by cases ys <;> simp [sameEntries]
  | (m, x) :: xs, ys => by
      cases ys <;> simp [sameEntries, sameBy_iff h x, sameEntries_iff h xs, Prod.ext_iff]

end

instance : DecidableEq Value := fun x y =>
  decidable_of_iff (x.sameBy (fun x y => decide (x = y)) y = true) (sameBy_iff (by simp) x y)

mutual

theorem equals_self : ∀ x : Value, x.equals x = true
  | .null => rfl
  | .bool _ => by simp [equals, sameBy]
  | .int _ => by simp [equals, sameBy]
  | .real _ => by simp [equals, sameBy, Binary64.equals]
  | .text _ => by simp [equals, sameBy]
  | .array xs => sameItems_self xs
  | .object xs => sameEntries_self xs

theorem sameItems_self : ∀ xs : List Value, sameItems Binary64.equals xs xs = true
  | [] => rfl
  | x :: xs => Bool.and_eq_true_iff.mpr ⟨equals_self x, sameItems_self xs⟩

theorem sameEntries_self : ∀ xs : List (String × Value), sameEntries Binary64.equals xs xs = true
  | [] => rfl
  | (n, x) :: xs => by
      have hx : x.sameBy Binary64.equals x = true := equals_self x
      simp [sameEntries, hx, sameEntries_self xs]

end

end Value

end TableGate
