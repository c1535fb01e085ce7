import TableGate.Query.Select

/-!
# Write statements

Statements that insert, update and delete rows: their trees, their templates, and their making.
-/

namespace TableGate

/-- Rows to insert. Each tuple has one value per column; without columns there is a single row of
defaults. -/
structure Insert where
  table : Reference
  columns : List Identifier
  tuples : List (List Value)

/-- What happens to a row that is there already: the columns that tell it is there, and the columns
that take over the new values. -/
structure Conflict where
  target : List Identifier
  updates : List Identifier

inductive Assigned where
  | value (v : Value)
  | now
  | null

/-- A write statement. -/
inductive Write where
  | insert (rows : Insert)
  | upsert (rows : Insert) (conflict : Conflict)
  | update (table : Reference) (assignments : List (Identifier × Assigned)) (filter : Chain)
  | delete (table : Reference) (filter : Chain)

namespace Insert

def nameTemplate (names : List Identifier) : Template :=
  Template.joined ", " (names.map fun n => [.name n])

def tupleTemplate (values : List Value) : Template :=
  Template.parenthesized (Template.joined ", " (values.map fun v => [.param v]))

def template (d : Dialect) (i : Insert) : Template :=
  if i.columns.isEmpty then
    .text "INSERT INTO " :: i.table.template ++
      [.text (if d = .mysql then " () VALUES ()" else " DEFAULT VALUES")]
  else
    .text "INSERT INTO " :: i.table.template ++ .text " (" :: nameTemplate i.columns ++
      .text ") VALUES " :: Template.joined ", " (i.tuples.map tupleTemplate)

end Insert

namespace Conflict

/-- The treatment of rows that are there already, as a template. Where a dialect cannot do nothing, the
first key is assigned to itself. -/
def template (d : Dialect) (c : Conflict) : Template :=
  match d with
  | .mysql =>
    match c.updates with
    | [] => .text " ON DUPLICATE KEY UPDATE " ::
        Template.joined ", " ((c.target.take 1).map fun n => [.name n, .text " = ", .name n])
    | updates => .text " ON DUPLICATE KEY UPDATE " ::
        Template.joined ", " (updates.map fun n => [.name n, .text " = VALUES(", .name n, .text ")"])
  | _ =>
    match c.updates with
    | [] => .text " ON CONFLICT (" :: Insert.nameTemplate c.target ++ [.text ") DO NOTHING"]
    | updates => .text " ON CONFLICT (" :: Insert.nameTemplate c.target ++ .text ") DO UPDATE SET " ::
        Template.joined ", " (updates.map fun n => [.name n, .text " = excluded.", .name n])

end Conflict

namespace Assigned

def template : Assigned → Template
  | .value v => [.param v]
  | .now => [.text "CURRENT_TIMESTAMP"]
  | .null => [.text "NULL"]

end Assigned

namespace Write

def whereTemplate (chain : Chain) : Template :=
  if chain.isEmpty then [] else .text " WHERE " :: Predicate.chainTemplate chain

def assignmentTemplate (assignments : List (Identifier × Assigned)) : Template :=
  Template.joined ", " (assignments.map fun (n, a) => .name n :: .text " = " :: a.template)

def template (d : Dialect) : Write → Template
  | .insert rows => rows.template d
  | .upsert rows conflict => rows.template d ++ conflict.template d
  | .update table assignments chain =>
    .text "UPDATE " :: table.template ++ .text " SET " :: assignmentTemplate assignments ++
      whereTemplate chain
  | .delete table chain => .text "DELETE FROM " :: table.template ++ whereTemplate chain

/-- Whether a row has as many columns as are given, and each of these. -/
def hasColumns (columns : List String) (row : Row) : Bool :=
  row.size == columns.length && columns.all row.contains

/-- The first row, counted from `index`, whose columns are not the given ones. -/
def firstUnlike? (columns : List String) : Nat → List Row → Option Nat
  | _, [] => none
  | index, row :: rows =>
    if hasColumns columns row then firstUnlike? columns (index + 1) rows else some index

/-- The insertion of rows, which all have the same columns. -/
def insertRows? (table : String) : List Row → Except Fault Insert
  | [] => .error (.querySpec .noRows)
  | first :: rest =>
    match firstUnlike? first.names 1 rest with
    | some index => .error (.querySpec (.rowColumns index))
    | none => do
      let reference ← Reference.of? table
      if first.isEmpty && !rest.isEmpty then
        .error (.querySpec .rowsWithoutColumns)
      else
        let columns ← first.names.mapM Identifier.of?
        return ⟨reference, columns, (first :: rest).map NameMap.values⟩

def insertOf? (table : String) (rows : List Row) : Except Fault Write :=
  (insertRows? table rows).map .insert

/-- The statement that inserts rows or updates those that are there already. Without a choice of
columns all but the unique ones are updated. -/
def upsertOf? (table : String) (rows : List Row) (uniqueBy : List String) (update : Option (List String)) :
    Except Fault Write :=
  if uniqueBy.isEmpty then .error (.querySpec .noUniqueColumns)
  else do
    let insert ← insertRows? table rows
    let columns := (rows.head?.map NameMap.names).getD []
    match uniqueBy.find? fun c => !columns.contains c with
    | some missing => .error (.querySpec (.uniqueColumnMissing missing))
    | none =>
      let updates := update.getD (columns.filter fun c => !uniqueBy.contains c)
      let target ← uniqueBy.mapM Identifier.of?
      let updates ← updates.mapM Identifier.of?
      return .upsert insert ⟨target, updates⟩

def updateOf? (table : String) (values : Row) (conditions : List Condition) : Except Fault Write :=
  if values.isEmpty then .error (.querySpec .noAssignments)
  else do
    let assignments ← values.entries.mapM fun (column, v) => do
      return (← Identifier.of? column, Assigned.value v)
    let reference ← Reference.of? table
    return .update reference assignments (← Condition.chain? .parameter conditions)

def deleteOf? (table : String) (conditions : List Condition) : Except Fault Write := do
  let reference ← Reference.of? table
  return .delete reference (← Condition.chain? .parameter conditions)

/-- The conditions together with one more that has to hold beside all of them. -/
def narrowed (conditions : List Condition) (scope : Condition) : List Condition :=
  match conditions with
  | [] => [scope]
  | [.node n] => [.node n, scope]
  | _ => [Condition.all conditions, scope]

/-- The statement that marks as deleted the rows that satisfy the conditions and are not so marked. -/
def softDeleteOf? (table column : String) (conditions : List Condition) : Except Fault Write := do
  let name ← Identifier.of? column
  let reference ← Reference.of? table
  let chain ← Condition.chain? .parameter (narrowed conditions (.isNull column))
  return .update reference [(name, .now)] chain

/-- The statement that takes the mark from the rows that satisfy the conditions and are marked as
deleted. -/
def restoreOf? (table column : String) (conditions : List Condition) : Except Fault Write := do
  let name ← Identifier.of? column
  let reference ← Reference.of? table
  let chain ← Condition.chain? .parameter (narrowed conditions (.isNotNull column))
  return .update reference [(name, .null)] chain

def statement (d : Dialect) (w : Write) : Statement :=
  (w.template d).statement d

end Write

namespace Compiler

/-- The statement for a write that may have failed to be made. -/
def write (k : Compiler) (w : Except Fault Write) : Except Fault Statement :=
  w.map (Write.statement k.dialect)

def insert (k : Compiler) (table : String) (rows : List Row) : Except Fault Statement :=
  k.write (Write.insertOf? table rows)

def upsert (k : Compiler) (table : String) (rows : List Row) (uniqueBy : List String)
    (update : Option (List String)) : Except Fault Statement :=
  k.write (Write.upsertOf? table rows uniqueBy update)

def update (k : Compiler) (table : String) (values : Row) (conditions : List Condition) :
    Except Fault Statement :=
  k.write (Write.updateOf? table values conditions)

def delete (k : Compiler) (table : String) (conditions : List Condition) : Except Fault Statement :=
  k.write (Write.deleteOf? table conditions)

def softDelete (k : Compiler) (table column : String) (conditions : List Condition) :
    Except Fault Statement :=
  k.write (Write.softDeleteOf? table column conditions)

def restore (k : Compiler) (table column : String) (conditions : List Condition) :
    Except Fault Statement :=
  k.write (Write.restoreOf? table column conditions)

end Compiler

end TableGate
