import TableGate.Sql.Template

/-!
# Columns and tables in SQL

The texts that refer to columns and tables: dotted paths of identifiers, calls of the aggregate
functions, and either of them under an alias.
-/

namespace TableGate

/-- A path of names: all columns, one column, or all columns of a table. -/
inductive Path where
  | all
  | column (names : List Identifier)
  | allOf (names : List Identifier)

/-- A column expression: a path, or an aggregate function applied to one. The function has the case
in which it is printed. -/
inductive ColumnExpr where
  | path (p : Path)
  | call (function : String) (argument : Path)

/-- An expression with an optional alias. -/
structure Reference where
  expression : ColumnExpr
  label : Option Identifier

namespace Text

/-- A character as it is compared without regard to case: the long s and the Kelvin sign count as the
letters s and k. -/
def foldCase (c : Char) : Char :=
  if c = '\u017f' then 's' else if c = '\u212a' then 'k' else c.toLower

/-- Whether a text is the word `as`, in any case. -/
def isAs (cs : List Char) : Bool :=
  cs.map foldCase == ['a', 's']

/-- Whether a text is the name of an aggregate function, in any case. -/
def isAggregate (cs : List Char) : Bool :=
  let name := cs.map foldCase
  name == ['c', 'o', 'u', 'n', 't'] || name == ['s', 'u', 'm'] || name == ['a', 'v', 'g'] ||
    name == ['m', 'i', 'n'] || name == ['m', 'a', 'x']

/-- A character that stands for a letter when case does not count. -/
def isFoldedInitial (c : Char) : Bool :=
  isInitial c || c == '\u017f' || c == '\u212a'

/-- Whether a text looks like the argument of an aggregate function: a star, or a dotted word. -/
def isAggregateArgument : List Char → Bool
  | [] => false
  | c :: cs =>
    (c == '*' && cs.isEmpty) ||
      (isFoldedInitial c && cs.all fun c => isFoldedInitial c || c.isDigit || c == '.')

/-- The function and the argument of a call of an aggregate function, with blanks allowed around both. -/
def aggregateCall? (cs : List Char) : Option (List Char × List Char) :=
  match cut? (· == '(') (trimChars cs) with
  | none => none
  | some (before, rest) =>
    match rest.reverse with
    | ')' :: inner =>
      let function := trimChars before
      let argument := trimChars inner.reverse
      if isAggregate function && isAggregateArgument argument then some (function, argument) else none
    | _ => none

/-- The two words around the word `as`, if that is all the text holds. -/
def aliased? (s : String) : Option (String × String) :=
  match wordsOf s.toList with
  | [base, keyword, name] => if isAs keyword then some (String.ofList base, String.ofList name) else none
  | _ => none

/-- A table's name and the name by which a query refers to it. -/
def splitAlias (s : String) : String × String :=
  (aliased? s).getD (trim s, trim s)

end Text

namespace Path

/-- The path that a text is, part by part between its dots. -/
def of? (cs : List Char) : Except Fault Path :=
  if cs = ['*'] then .ok .all
  else
    let parts := Text.pieces (· == '.') cs
    if 1 < parts.length && parts.getLast? == some ['*'] then
      (parts.dropLast.mapM fun part => Identifier.of? (String.ofList part)).map .allOf
    else
      (parts.mapM fun part => Identifier.of? (String.ofList part)).map .column

def nameTemplates (names : List Identifier) : List Template :=
  names.map fun n => [.name n]

def template : Path → Template
  | .all => [.text "*"]
  | .column names => Template.joined "." (nameTemplates names)
  | .allOf names => Template.joined "." (nameTemplates names ++ [[.text "*"]])

end Path

namespace ColumnExpr

def of? (s : String) : Except Fault ColumnExpr :=
  match Text.aggregateCall? s.toList with
  | some (function, argument) =>
    (Path.of? argument).map (.call (Text.upper (String.ofList function)))
  | none => (Path.of? (Text.trimChars s.toList)).map .path

def template : ColumnExpr → Template
  | .path p => p.template
  | .call function argument => .text (function ++ "(") :: argument.template ++ [.text ")"]

/-- The expression for a column with a plain name. -/
def ofName (n : Identifier) : ColumnExpr :=
  .path (.column [n])

end ColumnExpr

namespace Reference

/-- The reference that a text is: an expression, or an expression, the word `as` and an alias. -/
def of? (s : String) : Except Fault Reference :=
  match Text.aliased? s with
  | some (base, name) => do
    let expression ← ColumnExpr.of? base
    let label ← Identifier.of? name
    return ⟨expression, some label⟩
  | none => (ColumnExpr.of? s).map fun expression => ⟨expression, none⟩

def template (r : Reference) : Template :=
  match r.label with
  | some label => r.expression.template ++ [.text " AS ", .name label]
  | none => r.expression.template

end Reference

end TableGate
