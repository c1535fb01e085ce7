import TableGate.Query.Condition
import TableGate.Sql.Column

/-!
# Predicates

Conditions with their columns and operators understood, and their SQL. A list of conditions becomes a
chain of predicates joined by AND and OR; a group becomes a chain in parentheses.
-/

namespace TableGate

/-- What the values of conditions are: parameters, or the names of columns. -/
inductive ValueMode where
  | parameter
  | column
  deriving DecidableEq

/-- What a column is compared with. -/
inductive Operand where
  | column (e : ColumnExpr)
  | value (v : Value)

/-- How the words of a search are matched in SQL. -/
inductive SearchForm where
  | matchBoolean
  | matchNatural
  | textVector
  deriving DecidableEq

/-- A predicate without AND, OR and parentheses of its own. -/
inductive Atom where
  | nullTest (column : ColumnExpr) (negated : Bool)
  | compare (column : ColumnExpr) (operator : Operator) (operand : Operand)
  | among (column : ColumnExpr) (negated : Bool) (operands : List Operand)
  | between (column : ColumnExpr) (low high : Operand)
  | constant (holds : Bool)
  | search (form : SearchForm) (columns : List ColumnExpr) (term : String)
  | notDeleted (column : Reference)

/-- A predicate: an atom, or a chain in parentheses. -/
inductive Predicate where
  | atom (a : Atom)
  | group (chain : List (Connector × Predicate))

/-- Predicates in a row, each with the connector before it; the first connector does not count. -/
abbrev Chain := List (Connector × Predicate)

namespace Operand

def template : Operand → Template
  | .column e => e.template
  | .value v => [.param v]

def of? (mode : ValueMode) (column : String) (v : Value) : Except Fault Operand :=
  match mode, v with
  | .column, .text reference => (ColumnExpr.of? reference).map .column
  | .column, _ => .error (.querySpec (.columnExpected column))
  | .parameter, .array _ => .error (.querySpec (.scalarExpected column))
  | .parameter, .object _ => .error (.querySpec (.scalarExpected column))
  | .parameter, .null => .error (.querySpec (.nullOperand column))
  | .parameter, v => .ok (.value v)

end Operand

namespace Atom

def columnTemplates (columns : List ColumnExpr) : Template :=
  Template.joined ", " (columns.map ColumnExpr.template)

/-- The text that is searched in, if it is not a single column. -/
def document : List ColumnExpr → Template
  | [column] => column.template
  | columns => .text "concat_ws(" :: .literal " " :: .text ", " :: columnTemplates columns ++ [.text ")"]

def searchTemplate (form : SearchForm) (columns : List ColumnExpr) (term : String) : Template :=
  match form with
  | .matchBoolean =>
    .text "MATCH(" :: columnTemplates columns ++
      [.text ") AGAINST(", .param (.text term), .text " IN BOOLEAN MODE)"]
  | .matchNatural =>
    .text "MATCH(" :: columnTemplates columns ++
      [.text ") AGAINST(", .param (.text term), .text " IN NATURAL LANGUAGE MODE)"]
  | .textVector =>
    .text "to_tsvector(" :: document columns ++
      [.text ") @@ plainto_tsquery(", .param (.text term), .text ")"]

def template : Atom → Template
  | .nullTest column negated =>
    column.template ++ [.text (if negated then " IS NOT NULL" else " IS NULL")]
  | .compare column operator operand =>
    column.template ++ .text (" " ++ operator.sql ++ " ") :: operand.template
  | .among column negated operands =>
    column.template ++ .text (if negated then " NOT IN (" else " IN (") ::
      Template.joined ", " (operands.map Operand.template) ++ [.text ")"]
  | .between column low high =>
    column.template ++ .text " BETWEEN " :: low.template ++ .text " AND " :: high.template
  | .constant holds => [.text (if holds then "1 = 1" else "1 = 0")]
  | .search form columns term => searchTemplate form columns term
  | .notDeleted column => column.template ++ [.text " IS NULL"]

end Atom

namespace Predicate

mutual
def template : Predicate → Template
  | .atom a => a.template
  | .group chain => .text "(" :: chainTemplate chain ++ [.text ")"]
def chainTemplate : List (Connector × Predicate) → Template
  | [] => []
  | (_, p) :: rest => p.template ++ restTemplate rest
def restTemplate : List (Connector × Predicate) → Template
  | [] => []
  | (c, p) :: rest => .text (" " ++ c.sql ++ " ") :: p.template ++ restTemplate rest
end

end Predicate

namespace ConditionNode

/-- Understands a comparison. Equality and inequality with null become tests for null. -/
def atom? (mode : ValueMode) (n : ConditionNode) : Except Fault Atom :=
  match Operator.ofText? n.operator with
  | none => .error (.querySpec (.unknownOperator n.operator))
  | some operator => do
    let column ← ColumnExpr.of? n.column
    match operator with
    | .isNull => return .nullTest column false
    | .isNotNull => return .nullTest column true
    | .isIn | .notIn =>
      match n.value with
      | .array [] => return .constant (operator = .notIn)
      | .array items =>
        return .among column (operator = .notIn) (← items.mapM (Operand.of? mode n.column))
      | _ => .error (.querySpec (.arrayExpected operator n.column))
    | .between =>
      match n.value with
      | .array [low, high] =>
        return .between column (← Operand.of? mode n.column low) (← Operand.of? mode n.column high)
      | .array items => .error (.querySpec (.betweenCount n.column items.length))
      | _ => .error (.querySpec (.betweenShape n.column))
    | _ =>
      if operator = .eq && n.value.isNull && mode = .parameter then return .nullTest column false
      else if operator = .ne && n.value.isNull && mode = .parameter then return .nullTest column true
      else return .compare column operator (← Operand.of? mode n.column n.value)

end ConditionNode

namespace Condition

mutual
def predicate? (mode : ValueMode) : Condition → Except Fault Predicate
  | .node n => (n.atom? mode).map .atom
  | .group [] _ => .error (.querySpec .emptyGroup)
  | .group items _ => (chain? mode items).map .group
def chain? (mode : ValueMode) : List Condition → Except Fault Chain
  | [] => .ok []
  | c :: cs => do
    let first ← predicate? mode c
    let rest ← chain? mode cs
    return (c.boolean, first) :: rest
end

end Condition

end TableGate
