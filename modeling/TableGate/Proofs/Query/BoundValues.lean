import Mathlib.Data.Nat.Notation
import TableGate.Query.Spec

/-! # Values that a query binds

The values of a query in the order in which its statement binds them, and its raw fragments, both read
off the query itself: no SQL is made to find them. -/

namespace TableGate

/-- The items of a list; other values have none. -/
def Value.items : Value → List Value
  | .array items => items
  | _ => []

/-- The values that a comparison binds. A test for null binds nothing, nor does a comparison with null. -/
def ConditionNode.boundValues (n : ConditionNode) : List Value :=
  match Operator.ofText? n.operator with
  | none => []
  | some .isNull | some .isNotNull => []
  | some .isIn | some .notIn | some .between => n.value.items
  | some .eq | some .ne => if n.value.isNull then [] else [n.value]
  | some _ => [n.value]

namespace Condition

mutual
/-- The values that a condition binds, those of a group from left to right. -/
def boundValues : Condition → List Value
  | .node n => n.boundValues
  | .group items _ => boundValuesOf items
/-- The values that conditions bind, from left to right. -/
def boundValuesOf : List Condition → List Value
  | [] => []
  | c :: cs => boundValues c ++ boundValuesOf cs
end

end Condition

/-- The values that the condition on the groups binds. -/
def Having.boundValues : Option Having → List Value
  | some (.conditions items) => Condition.boundValuesOf items
  | _ => []

/-- The fragment that a selected item is, if it is one. -/
def SelectItem.fragment? : SelectItem → Option String
  | .raw fragment => some fragment
  | _ => none

/-- The fragment that the condition on the groups is, if it is one. -/
def Having.fragment? : Option Having → Option String
  | some (.raw fragment) => some fragment
  | _ => none

namespace SelectClauses

/-- The values that a single SELECT binds: those of the filters of its joins, of its conditions, of its
full-text search, and of the condition on its groups. -/
def boundValues (c : SelectClauses) : List Value :=
  c.joins.flatMap (fun j => Condition.boundValuesOf j.filters) ++ Condition.boundValuesOf c.conditions ++
    (c.fullText.map fun f => Value.text f.term).toList ++ Having.boundValues c.having

/-- The raw fragments of a single SELECT. -/
def rawFragments (c : SelectClauses) : List String :=
  c.select.filterMap SelectItem.fragment? ++ (Having.fragment? c.having).toList

end SelectClauses

mutual

/-- The values that a query binds: those of its common table expressions, of its own SELECT, and of the
queries united with it. -/
def QuerySpec.boundValues : QuerySpec → List Value
  | .mk c union ctes => ctes.boundValues ++ c.boundValues ++ union.boundValues

def UnionSpec.boundValues : UnionSpec → List Value
  | .none => []
  | .member _ (.mk c union _) _ => c.boundValues ++ union.boundValues

def CteSpecs.boundValues : CteSpecs → List Value
  | .nil => []
  | .raw _ _ rest => rest.boundValues
  | .query _ _ query rest => query.boundValues ++ rest.boundValues

end

mutual

/-- The raw fragments of a query, at every depth. -/
def QuerySpec.rawFragments : QuerySpec → List String
  | .mk c union ctes => ctes.rawFragments ++ c.rawFragments ++ union.rawFragments

def UnionSpec.rawFragments : UnionSpec → List String
  | .none => []
  | .member _ query _ => query.rawFragments

def CteSpecs.rawFragments : CteSpecs → List String
  | .nil => []
  | .raw _ fragment rest => fragment :: rest.rawFragments
  | .query _ _ query rest => query.rawFragments ++ rest.rawFragments

end

end TableGate
