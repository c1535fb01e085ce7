import TableGate.Query.JsonPath
import TableGate.Query.Predicate
import TableGate.Query.Spec
import TableGate.Sql.RawPolicy

/-!
# Select statements

The tree of a select statement, its template, and its making from a query specification. The scope
says which tables keep soft-deleted rows; each of their appearances gets a test that leaves these out.
-/

namespace TableGate

/-- The column that marks soft-deleted rows, for the tables that have one. -/
abbrev Scope := String → Option String

/-- What a statement is made for: the dialect, and the policy for raw fragments. -/
structure Compiler where
  dialect : Dialect
  policy : RawPolicy

/-- A join in a select statement. -/
inductive JoinClause where
  | cross (table : Reference)
  | on (kind : JoinType) (table : Reference) (compared filters : Chain) (scope : Option Atom)

/-- The rows that a select statement keeps: those that satisfy the chain and each of the atoms. -/
structure Filter where
  given : Chain
  also : List Atom

/-- The condition on the groups of a select statement. -/
inductive HavingClause where
  | absent
  | raw (fragment : String)
  | chain (c : Chain)

/-- A term of the sort order. -/
structure OrderTerm where
  column : ColumnExpr
  direction : Direction

/-- A single SELECT, without what surrounds it in a statement. -/
structure SelectBody where
  distinct : Bool
  columns : List Template
  source : Reference
  joins : List JoinClause
  filter : Filter
  groupBy : List ColumnExpr
  having : HavingClause

mutual

/-- A select statement: common table expressions, a first SELECT, the SELECTs united with it, each
with whether repeated rows are kept, and the order and limits of the whole. -/
inductive Select where
  | mk (ctes : CteClauses) (first : SelectBody) (rest : List (Bool × SelectBody))
      (orderBy : List OrderTerm) (limit offset : Option UInt64)

/-- Common table expressions. -/
inductive CteClauses where
  | nil
  | raw (name : Identifier) (fragment : String) (rest : CteClauses)
  | query (name : Identifier) (body : Select) (rest : CteClauses)

end

namespace Chain

/-- A chain with parentheses around it if it joins several predicates and `wrapped` is set. -/
def enclosed (chain : Chain) (wrapped : Bool) : Template :=
  let t := Predicate.chainTemplate chain
  if wrapped && 1 < chain.length then t.parenthesized else t

end Chain

namespace JoinClause

/-- The condition of a join. The filters stand in parentheses if there are several. What is compared
does so if there are filters beside it. -/
def condition (compared filters : Chain) (scope : Option Atom) : Template :=
  let onPart := if compared.isEmpty then [] else [Chain.enclosed compared (!filters.isEmpty)]
  let filterPart := if filters.isEmpty then [] else [Chain.enclosed filters true]
  let scopePart := match scope with
    | some a => [a.template]
    | none => []
  Template.joined " AND " (onPart ++ filterPart ++ scopePart)

def template : JoinClause → Template
  | .cross table => .text (JoinType.cross.sql ++ " ") :: table.template
  | .on kind table compared filters scope =>
    .text (kind.sql ++ " ") :: table.template ++ .text " ON " :: condition compared filters scope

end JoinClause

namespace Filter

/-- The parts that a row has to satisfy. The chain stands in parentheses if there are others. -/
def parts (f : Filter) : List Template :=
  (if f.given.isEmpty then [] else [Chain.enclosed f.given (!f.also.isEmpty)]) ++
    f.also.map Atom.template

def template (f : Filter) : Template :=
  match f.parts with
  | [] => []
  | parts => .text " WHERE " :: Template.joined " AND " parts

end Filter

namespace HavingClause

def template : HavingClause → Template
  | .absent => []
  | .raw fragment => [.text " HAVING ", .raw fragment]
  | .chain c => .text " HAVING " :: Predicate.chainTemplate c

end HavingClause

namespace OrderTerm

def template (o : OrderTerm) : Template :=
  o.column.template ++ [.text (" " ++ o.direction.sql)]

end OrderTerm

namespace SelectBody

def joinTemplates (joins : List JoinClause) : Template :=
  joins.flatMap fun j => .text " " :: j.template

def groupTemplate : List ColumnExpr → Template
  | [] => []
  | columns => .text " GROUP BY " :: Template.joined ", " (columns.map ColumnExpr.template)

def template (b : SelectBody) : Template :=
  .text (if b.distinct then "SELECT DISTINCT " else "SELECT ") :: Template.joined ", " b.columns ++
    .text " FROM " :: b.source.template ++ joinTemplates b.joins ++ b.filter.template ++
    groupTemplate b.groupBy ++ b.having.template

end SelectBody

namespace Select

def restTemplate (rest : List (Bool × SelectBody)) : Template :=
  rest.flatMap fun (all, body) => .text (if all then " UNION ALL " else " UNION ") :: body.template

def orderTemplate : List OrderTerm → Template
  | [] => []
  | terms => .text " ORDER BY " :: Template.joined ", " (terms.map OrderTerm.template)

mutual
def template (d : Dialect) : Select → Template
  | .mk ctes first rest orderBy limit offset =>
    withTemplate d ctes ++ first.template ++ restTemplate rest ++ orderTemplate orderBy ++
      [.text (d.limitClause (limit.map UInt64.toNat) (offset.map UInt64.toNat))]
def withTemplate (d : Dialect) : CteClauses → Template
  | .nil => []
  | .raw name fragment rest =>
    .text "WITH " :: .name name :: .text " AS (" :: .raw fragment :: .text ")" :: moreCtes d rest
  | .query name body rest =>
    .text "WITH " :: .name name :: .text " AS (" :: body.template d ++ .text ")" :: moreCtes d rest
/-- The common table expressions that follow another one, and the blank behind the last. -/
def moreCtes (d : Dialect) : CteClauses → Template
  | .nil => [.text " "]
  | .raw name fragment rest =>
    .text ", " :: .name name :: .text " AS (" :: .raw fragment :: .text ")" :: moreCtes d rest
  | .query name body rest =>
    .text ", " :: .name name :: .text " AS (" :: body.template d ++ .text ")" :: moreCtes d rest
end

end Select

namespace OrderBy

def term? : OrderBy → Except Fault OrderTerm
  | .spec column direction => do return ⟨← ColumnExpr.of? column, direction⟩
  | .text s =>
    match Text.words s with
    | [column] => do return ⟨← ColumnExpr.of? column, .asc⟩
    | [column, direction] =>
      match Text.lower direction with
      | "asc" => do return ⟨← ColumnExpr.of? column, .asc⟩
      | "desc" => do return ⟨← ColumnExpr.of? column, .desc⟩
      | _ => .error (.querySpec (.sortDirection s))
    | _ => .error (.querySpec (.sortTerm s))

end OrderBy

namespace SelectItem

def aliased? (t : Template) : Option String → Except Fault Template
  | some label => do return t ++ [.text " AS ", .name (← Identifier.of? label)]
  | none => .ok t

def template? (policy : RawPolicy) : SelectItem → Except Fault Template
  | .column text => do return (← Reference.of? text).template
  | .count argument label => do
    let inner ← if Text.trimChars argument.toList = ['*'] then pure [Piece.text "*"]
      else do pure (← ColumnExpr.of? argument).template
    aliased? (.text "COUNT(" :: inner ++ [.text ")"]) label
  | .aggregate function name label => do
    let inner ← ColumnExpr.of? name
    aliased? (.text (function.sql ++ "(") :: inner.template ++ [.text ")"]) label
  | .raw fragment => do return [.raw (← policy.check fragment "raw select expression")]

end SelectItem

namespace WindowSpec

def argument? (arg : String) : Except Fault Template :=
  if Text.trimChars arg.toList = ['*'] then .ok [.text "*"]
  else do return (← ColumnExpr.of? arg).template

/-- A clause of the window, unless there is nothing in it. -/
def clause (keyword : String) : List Template → List Template
  | [] => []
  | terms => [.text keyword :: Template.joined ", " terms]

def template? (w : WindowSpec) : Except Fault Template := do
  let _ ← Identifier.of? w.function
  let args ← w.args.mapM argument?
  let partition ← w.partitionBy.mapM ColumnExpr.of?
  let order ← w.orderBy.mapM OrderBy.term?
  let label ← Identifier.of? w.label
  let frame := clause "PARTITION BY " (partition.map ColumnExpr.template) ++
    clause "ORDER BY " (order.map OrderTerm.template)
  return .text (Text.upper w.function ++ "(") :: Template.joined ", " args ++ .text ") OVER (" ::
    Template.joined " " frame ++ [.text ") AS ", .name label]

end WindowSpec

namespace JsonPathSpec

/-- The name of the column, without what stands before it in a path. -/
def columnName (s : String) : String :=
  match Text.cutLast? (· == '.') s.toList with
  | some (_, name) => String.ofList name
  | none => s

/-- Understands a value inside a JSON column. Without an alias it has the name of the column. -/
def template? (d : Dialect) (j : JsonPathSpec) : Except Fault Template := do
  let column ← ColumnExpr.of? j.column
  let path ← JsonStep.pathOf? j.path
  let label ← Identifier.of? (j.label.getD (columnName j.column))
  let value : Template := match d with
    | .mysql =>
      .text "JSON_UNQUOTE(JSON_EXTRACT(" :: column.template ++
        [.text ", ", .literal (JsonStep.dollarPath path), .text "))"]
    | .sqlite =>
      .text "json_extract(" :: column.template ++
        [.text ", ", .literal (JsonStep.dollarPath path), .text ")"]
    | .postgres => column.template ++ [.text " #>> ", .literal (JsonStep.bracePath path)]
  return value ++ [.text " AS ", .name label]

end JsonPathSpec

namespace FullTextSpec

def atom? (d : Dialect) (f : FullTextSpec) : Except Fault Atom :=
  if f.columns.isEmpty then .error (.querySpec .noSearchColumns)
  else
    match d with
    | .sqlite => .error (.sqlCompilation .sqlite "full-text search")
    | .mysql => do
      let columns ← f.columns.mapM ColumnExpr.of?
      return .search (if f.mode = .boolean then .matchBoolean else .matchNatural) columns f.term
    | .postgres => do
      let columns ← f.columns.mapM ColumnExpr.of?
      return .search .textVector columns f.term

end FullTextSpec

namespace Scope

/-- The scope in which no table keeps soft-deleted rows. -/
def none : Scope :=
  fun _ => .none

/-- The test that leaves out the soft-deleted rows of a table, by the name the query has for it. -/
def qualifiedTest? (table column : String) : Except Fault Atom :=
  (Reference.of? ((Text.splitAlias table).2 ++ "." ++ column)).map .notDeleted

/-- The test for a joined table, if the scope has a column for it. -/
def joinTest? (scope : Scope) (table : String) : Except Fault (Option Atom) :=
  match scope (Text.splitAlias table).1 with
  | some column => (qualifiedTest? table column).map some
  | .none => .ok .none

/-- The test for the first table, if the scope has a column for it. The column is qualified only where
there are joins. -/
def sourceTest? (scope : Scope) (table : String) (joined : Bool) : Except Fault (Option Atom) :=
  match scope (Text.splitAlias table).1 with
  | some column =>
    if joined then (qualifiedTest? table column).map some
    else (Identifier.of? column).map fun n => some (.notDeleted ⟨.ofName n, .none⟩)
  | .none => .ok .none

end Scope

namespace JoinSpec

def comparedChain? : Option JoinOn → Except Fault Chain
  | some (.pair left right) => do
    let left ← ColumnExpr.of? left
    let right ← ColumnExpr.of? right
    return [(.and, .atom (.compare left .eq (.column right)))]
  | some (.conditions items) => Condition.chain? .column items
  | none => .ok []

/-- Understands a join. A cross join has no condition; its test goes with the filter of the SELECT. -/
def clause? (scope : Scope) (j : JoinSpec) : Except Fault (JoinClause × Option Atom) := do
  let test ← scope.joinTest? j.table
  let table ← Reference.of? j.table
  if j.joinType = .cross then
    if j.on.isSome || !j.filters.isEmpty then
      .error (.querySpec (.crossJoinCondition j.table))
    else
      return (.cross table, test)
  else
    let compared ← comparedChain? j.on
    let filters ← Condition.chain? .parameter j.filters
    if compared.isEmpty && filters.isEmpty then
      .error (.querySpec (.joinWithoutCondition j.joinType.sql j.table))
    else
      return (.on j.joinType table compared filters test, none)

end JoinSpec

namespace Having

def clause? (policy : RawPolicy) : Option Having → Except Fault HavingClause
  | some (.raw fragment) => do return .raw (← policy.check fragment "HAVING clause")
  | some (.conditions []) => .ok .absent
  | some (.conditions items) => do return .chain (← Condition.chain? .parameter items)
  | none => .ok .absent

end Having

namespace SelectClauses

def search? (d : Dialect) (c : SelectClauses) : Except Fault (Option Atom) :=
  match c.fullText with
  | some f => (f.atom? d).map some
  | none => .ok none

/-- Understands the selected columns: the items, all columns if there are none, and behind them the
window functions and the values inside JSON columns. -/
def columns? (k : Compiler) (c : SelectClauses) : Except Fault (List Template) := do
  let items ← c.select.mapM (SelectItem.template? k.policy)
  let windows ← c.window.mapM WindowSpec.template?
  let json ← c.json.mapM (JsonPathSpec.template? k.dialect)
  return (if items.isEmpty then [[.text "*"]] else items) ++ windows ++ json

def body? (k : Compiler) (scope : Scope) (table : String) (c : SelectClauses) :
    Except Fault SelectBody := do
  let columns ← c.columns? k
  let source ← Reference.of? table
  let joins ← c.joins.mapM (JoinSpec.clause? scope)
  let given ← Condition.chain? .parameter c.conditions
  let search ← c.search? k.dialect
  let test ← scope.sourceTest? table (!c.joins.isEmpty)
  let groupBy ← c.groupBy.mapM ColumnExpr.of?
  let having ← Having.clause? k.policy c.having
  return {
    distinct := c.distinct
    columns
    source
    joins := joins.map (·.1)
    filter := ⟨given, search.toList ++ test.toList ++ joins.filterMap (·.2)⟩
    groupBy
    having }

/-- The scope that applies to a query: none if it also finds soft-deleted rows. -/
def scope (c : SelectClauses) (outer : Scope) : Scope :=
  if c.withTrashed then Scope.none else outer

end SelectClauses

namespace QuerySpec

mutual
def select? (k : Compiler) (outer : Scope) (table : String) : QuerySpec → Except Fault Select
  | .mk c union ctes => do
    let ctes ← cteClauses? k (c.scope outer) ctes
    let first ← c.body? k (c.scope outer) table
    let rest ← unionMembers? k (c.scope outer) union
    let orderBy ← c.orderBy.mapM OrderBy.term?
    return .mk ctes first rest orderBy c.limit c.offset
/-- Understands the queries united with a query. They have neither order and limits nor common table
expressions of their own. -/
def unionMembers? (k : Compiler) (outer : Scope) :
    UnionSpec → Except Fault (List (Bool × SelectBody))
  | .none => .ok []
  | .member table (.mk c union ctes) all => do
    if !c.orderBy.isEmpty || c.limit.isSome || c.offset.isSome then
      .error (.querySpec .orderedUnionMember)
    else
      match ctes with
      | .nil =>
        let body ← c.body? k (c.scope outer) table
        let rest ← unionMembers? k (c.scope outer) union
        return (all, body) :: rest
      | _ => .error (.querySpec .cteInUnionMember)
def cteClauses? (k : Compiler) (outer : Scope) : CteSpecs → Except Fault CteClauses
  | .nil => .ok .nil
  | .raw name fragment rest => do
    let name ← Identifier.of? name
    let fragment ← k.policy.check fragment "CTE body"
    return .raw name fragment (← cteClauses? k outer rest)
  | .query name table query rest => do
    let name ← Identifier.of? name
    let body ← query.select? k outer table
    return .query name body (← cteClauses? k outer rest)
end

end QuerySpec

namespace Compiler

/-- The statement for a query on a table, which leaves out the soft-deleted rows of the tables in the
scope. -/
def selectScoped (k : Compiler) (table : String) (query : QuerySpec) (scope : Scope) :
    Except Fault Statement := do
  let select ← query.select? k scope table
  return (select.template k.dialect).statement k.dialect

/-- The statement for a query on a table, without regard to soft deletion. -/
def select (k : Compiler) (table : String) (query : QuerySpec) : Except Fault Statement :=
  k.selectScoped table query Scope.none

/-- The query for the number of rows that satisfy the conditions. -/
def countQuery (conditions : List Condition) : QuerySpec :=
  .mk { select := [.count "*" (some "aggregate")], conditions } .none .nil

def count (k : Compiler) (table : String) (conditions : List Condition) (scope : Scope) :
    Except Fault Statement :=
  k.selectScoped table (countQuery conditions) scope

end Compiler

end TableGate
