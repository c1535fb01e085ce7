import TableGate.Fault

/-!
# Conditions

The tree of conditions of a query, its JSON form, and the short form in which a map of columns to
values stands for a list of conditions.
-/

namespace TableGate

/-- How a condition is joined to the one before it. -/
inductive Connector where
  | and
  | or
  deriving DecidableEq, Repr

/-- A single comparison. The operator is a text that is understood only when SQL is made of it. -/
structure ConditionNode where
  column : String
  operator : String
  value : Value
  boolean : Connector

/-- A comparison, or a list of conditions in parentheses. -/
inductive Condition where
  | node (n : ConditionNode)
  | group (items : List Condition) (boolean : Connector)

namespace Connector

def sql : Connector → String
  | .and => "AND"
  | .or => "OR"

def ofName? : String → Option Connector
  | "AND" | "and" => some .and
  | "OR" | "or" => some .or
  | _ => none

def ofJson? : Value → Option Connector :=
  Value.asName? ofName?

def toJson (c : Connector) : Value :=
  .text c.sql

end Connector

namespace ConditionNode

/-- Reads a comparison. Without an operator it asks for equality. -/
def ofJson? (v : Value) : Option ConditionNode := do
  let fields ← Fields.of? 4 v
  return {
    column := ← fields.required 0 "column" Value.asText?
    operator := ← fields.orDefault 1 ["operator"] "=" Value.asText?
    value := ← fields.orDefault 2 ["value"] .null Value.asAny?
    boolean := ← fields.orDefault 3 ["boolean"] .and Connector.ofJson? }

def toJson (n : ConditionNode) : Value :=
  .object [("boolean", n.boolean.toJson), ("column", .text n.column),
    ("operator", .text n.operator), ("value", n.value)]

end ConditionNode

namespace Condition

def boolean : Condition → Connector
  | .node n => n.boolean
  | .group _ b => b

/-- Reads a condition from a value of limited depth: a group if it fits one, otherwise a comparison. -/
def readWithin : Nat → Value → Option Condition
  | 0, _ => none
  | depth + 1, v =>
    let group : Option Condition := do
      let fields ← Fields.of? 2 v
      let items ← fields.required 0 "group" (Value.asList? (readWithin depth))
      let boolean ← fields.orDefault 1 ["boolean"] .and Connector.ofJson?
      return .group items boolean
    group <|> (ConditionNode.ofJson? v).map .node

def ofJson? (v : Value) : Option Condition :=
  readWithin v.depth v

mutual
def toJson : Condition → Value
  | .node n => n.toJson
  | .group items boolean => .object [("boolean", boolean.toJson), ("group", .array (listToJson items))]
def listToJson : List Condition → List Value
  | [] => []
  | c :: cs => c.toJson :: listToJson cs
end

def listOfJson? : Value → Option (List Condition) :=
  Value.asList? ofJson?

/-- A condition that follows the earlier ones by AND. -/
def compare (column operator : String) (value : Value) : Condition :=
  .node ⟨column, operator, value, .and⟩

def eq (column : String) (value : Value) : Condition :=
  compare column "=" value

def isNull (column : String) : Condition :=
  compare column "IS NULL" .null

def isNotNull (column : String) : Condition :=
  compare column "IS NOT NULL" .null

/-- The conditions in parentheses, following the earlier ones by AND. -/
def all (items : List Condition) : Condition :=
  .group items .and

/-- The condition following the earlier ones by OR. -/
def or : Condition → Condition
  | .node n => .node { n with boolean := .or }
  | .group items _ => .group items .or

/-- The condition that an entry of a map of conditions stands for. A blank in the name separates the
column from an operator; without one, a list asks for membership, null for null, and any other value
for equality. -/
def ofEntry? (entry : String × Value) : Except Fault Condition :=
  let key := Text.trimChars entry.1.toList
  match Text.cut? Text.isBlank key with
  | some (column, rest) =>
    let operator := String.ofList (Text.trimChars rest)
    match Operator.ofText? operator with
    | some _ => .ok (compare (String.ofList column) operator entry.2)
    | none => .error (.querySpec (.unknownOperator operator))
  | none =>
    let operator := match entry.2 with
      | .array _ => "IN"
      | .null => "IS NULL"
      | _ => "="
    .ok (compare (String.ofList key) operator entry.2)

def ofMap? (map : Row) : Except Fault (List Condition) :=
  map.entries.mapM ofEntry?

end Condition

end TableGate
