import TableGate.Text.Pieces
import TableGate.Text.Ascii

/-!
# Comparison operators

The operators of conditions, and the texts that name them.
-/

namespace TableGate

inductive Operator where
  | eq
  | ne
  | gt
  | gte
  | lt
  | lte
  | like
  | notLike
  | isIn
  | notIn
  | between
  | isNull
  | isNotNull
  deriving DecidableEq, Repr

namespace Operator

def title : Operator → String
  | .eq => "Eq"
  | .ne => "Ne"
  | .gt => "Gt"
  | .gte => "Gte"
  | .lt => "Lt"
  | .lte => "Lte"
  | .like => "Like"
  | .notLike => "NotLike"
  | .isIn => "In"
  | .notIn => "NotIn"
  | .between => "Between"
  | .isNull => "IsNull"
  | .isNotNull => "IsNotNull"

def sql : Operator → String
  | .eq => "="
  | .ne => "<>"
  | .gt => ">"
  | .gte => ">="
  | .lt => "<"
  | .lte => "<="
  | .like => "LIKE"
  | .notLike => "NOT LIKE"
  | .isIn => "IN"
  | .notIn => "NOT IN"
  | .between => "BETWEEN"
  | .isNull => "IS NULL"
  | .isNotNull => "IS NOT NULL"

/-- The operator with a name in upper case and with single spaces. -/
def ofName? : String → Option Operator
  | "=" | "==" => some .eq
  | "<>" | "!=" => some .ne
  | ">" => some .gt
  | ">=" => some .gte
  | "<" => some .lt
  | "<=" => some .lte
  | "LIKE" => some .like
  | "NOT LIKE" => some .notLike
  | "IN" => some .isIn
  | "NOT IN" => some .notIn
  | "BETWEEN" => some .between
  | "IS NULL" => some .isNull
  | "IS NOT NULL" => some .isNotNull
  | _ => none

/-- The operator that a text names, in any case and with any blanks around its words. -/
def ofText? (s : String) : Option Operator :=
  ofName? (Text.upper (String.intercalate " " (Text.words s)))

end Operator

end TableGate
