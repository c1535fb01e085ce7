import TableGate.Query.Spec

/-!
# The JSON form of queries

Reading and writing query specifications and their parts. Where a value may be one of several things,
the first that it fits is taken.
-/

namespace TableGate

namespace AggregateFunction

def name : AggregateFunction → String
  | .count => "count"
  | .sum => "sum"
  | .avg => "avg"
  | .min => "min"
  | .max => "max"

def ofName? : String → Option AggregateFunction
  | "count" => some .count
  | "sum" => some .sum
  | "avg" => some .avg
  | "min" => some .min
  | "max" => some .max
  | _ => none

end AggregateFunction

namespace SelectItem

/-- Reads an item: a column, a count, an aggregate or a fragment. -/
def ofJson? (v : Value) : Option SelectItem :=
  let column : Option SelectItem := v.asText?.map .column
  let count : Option SelectItem := do
    let fields ← Fields.ofObject? v
    return .count (← fields.required 0 "count" Value.asText?) (← fields.optional 1 ["as"] Value.asText?)
  let aggregate : Option SelectItem := do
    let fields ← Fields.ofObject? v
    return .aggregate (← fields.required 0 "aggregate" (Value.asName? AggregateFunction.ofName?))
      (← fields.required 1 "column" Value.asText?) (← fields.optional 2 ["as"] Value.asText?)
  let raw : Option SelectItem := do
    let fields ← Fields.ofObject? v
    return .raw (← fields.required 0 "raw" Value.asText?)
  column <|> count <|> aggregate <|> raw

def toJson : SelectItem → Value
  | .column text => .text text
  | .count argument label => .object [("as", .ofText? label), ("count", .text argument)]
  | .aggregate function name label =>
    .object [("aggregate", .text function.name), ("as", .ofText? label), ("column", .text name)]
  | .raw fragment => .object [("raw", .text fragment)]

end SelectItem

namespace JoinType

def name : JoinType → String
  | .inner => "inner"
  | .left => "left"
  | .right => "right"
  | .cross => "cross"

def ofName? : String → Option JoinType
  | "inner" => some .inner
  | "left" => some .left
  | "right" => some .right
  | "cross" => some .cross
  | _ => none

def ofJson? : Value → Option JoinType :=
  Value.asName? ofName?

end JoinType

namespace JoinOn

/-- Reads what a join compares: a pair of exactly two texts, or conditions. -/
def ofJson? (v : Value) : Option JoinOn :=
  let pair : Option JoinOn := match v with
    | .array [.text left, .text right] => some (.pair left right)
    | _ => none
  pair <|> (Condition.listOfJson? v).map .conditions

def toJson : JoinOn → Value
  | .pair left right => .array [.text left, .text right]
  | .conditions items => .array (Condition.listToJson items)

end JoinOn

namespace JoinSpec

def ofJson? (v : Value) : Option JoinSpec := do
  let fields ← Fields.of? 4 v
  return {
    table := ← fields.required 0 "table" Value.asText?
    joinType := ← fields.orDefault 1 ["type"] .inner JoinType.ofJson?
    on := ← fields.optional 2 ["on"] JoinOn.ofJson?
    filters := ← fields.orDefault 3 ["where"] [] Condition.listOfJson? }

def toJson (join : JoinSpec) : Value :=
  .object [("on", match join.on with | some on => on.toJson | none => .null),
    ("table", .text join.table), ("type", .text join.joinType.name),
    ("where", .array (Condition.listToJson join.filters))]

end JoinSpec

namespace Having

def ofJson? (v : Value) : Option Having :=
  v.asText?.map .raw <|> (Condition.listOfJson? v).map .conditions

def toJson : Having → Value
  | .raw fragment => .text fragment
  | .conditions items => .array (Condition.listToJson items)

end Having

namespace Direction

def name : Direction → String
  | .asc => "asc"
  | .desc => "desc"

def ofName? : String → Option Direction
  | "asc" | "ASC" => some .asc
  | "desc" | "DESC" => some .desc
  | _ => none

def ofJson? : Value → Option Direction :=
  Value.asName? ofName?

end Direction

namespace OrderBy

def ofJson? (v : Value) : Option OrderBy :=
  let text : Option OrderBy := v.asText?.map .text
  let spec : Option OrderBy := do
    let fields ← Fields.ofObject? v
    return .spec (← fields.required 0 "column" Value.asText?)
      (← fields.orDefault 1 ["direction"] .asc Direction.ofJson?)
  text <|> spec

def toJson : OrderBy → Value
  | .text s => .text s
  | .spec column direction => .object [("column", .text column), ("direction", .text direction.name)]

end OrderBy

namespace FullTextMode

def name : FullTextMode → String
  | .boolean => "boolean"
  | .naturalLanguage => "naturalLanguage"

def ofName? : String → Option FullTextMode
  | "boolean" => some .boolean
  | "naturalLanguage" => some .naturalLanguage
  | _ => none

end FullTextMode

namespace FullTextSpec

def ofJson? (v : Value) : Option FullTextSpec := do
  let fields ← Fields.of? 3 v
  return {
    columns := ← fields.required 0 "columns" Value.asTexts?
    term := ← fields.required 1 "term" Value.asText?
    mode := ← fields.orDefault 2 ["mode"] .boolean (Value.asName? FullTextMode.ofName?) }

def toJson (spec : FullTextSpec) : Value :=
  .object [("columns", .ofTexts spec.columns), ("mode", .text spec.mode.name), ("term", .text spec.term)]

end FullTextSpec

namespace WindowSpec

def ofJson? (v : Value) : Option WindowSpec := do
  let fields ← Fields.of? 5 v
  return {
    function := ← fields.required 0 "function" Value.asText?
    args := ← fields.orDefault 1 ["args"] [] Value.asTexts?
    partitionBy := ← fields.orDefault 2 ["partitionBy"] [] Value.asTexts?
    orderBy := ← fields.orDefault 3 ["orderBy"] [] (Value.asList? OrderBy.ofJson?)
    label := ← fields.required 4 "alias" Value.asText? }

def toJson (spec : WindowSpec) : Value :=
  .object [("alias", .text spec.label), ("args", .ofTexts spec.args), ("function", .text spec.function),
    ("orderBy", .array (spec.orderBy.map OrderBy.toJson)), ("partitionBy", .ofTexts spec.partitionBy)]

end WindowSpec

namespace JsonPathSpec

def ofJson? (v : Value) : Option JsonPathSpec := do
  let fields ← Fields.of? 3 v
  return {
    column := ← fields.required 0 "column" Value.asText?
    path := ← fields.required 1 "path" Value.asText?
    label := ← fields.optional 2 ["as"] Value.asText? }

def toJson (spec : JsonPathSpec) : Value :=
  .object [("as", .ofText? spec.label), ("column", .text spec.column), ("path", .text spec.path)]

end JsonPathSpec

namespace QuerySpec

/-- Reads the clauses of a query that hold no further query. -/
def clausesOf? (fields : Fields) : Option SelectClauses := do
  return {
    select := ← fields.orDefault 0 ["select"] [] (Value.asList? SelectItem.ofJson?)
    conditions := ← fields.orDefault 1 ["where"] [] Condition.listOfJson?
    joins := ← fields.orDefault 2 ["joins"] [] (Value.asList? JoinSpec.ofJson?)
    groupBy := ← fields.orDefault 3 ["groupBy"] [] Value.asTexts?
    having := ← fields.optional 4 ["having"] Having.ofJson?
    orderBy := ← fields.orDefault 5 ["orderBy"] [] (Value.asList? OrderBy.ofJson?)
    limit := ← fields.optional 6 ["limit"] Value.asUInt64?
    offset := ← fields.optional 7 ["offset"] Value.asUInt64?
    distinct := ← fields.orDefault 8 ["distinct"] false Value.asBool?
    fullText := ← fields.optional 11 ["fullText"] FullTextSpec.ofJson?
    window := ← fields.orDefault 12 ["window"] [] (Value.asList? WindowSpec.ofJson?)
    json := ← fields.orDefault 13 ["json"] [] (Value.asList? JsonPathSpec.ofJson?)
    withTrashed := ← fields.orDefault 14 ["withTrashed"] false Value.asBool? }

/-- Reads the query united with a query, given a reader for queries. -/
def unionOf? (read : Value → Option QuerySpec) : Value → Option UnionSpec
  | .null => some .none
  | v => do
    let fields ← Fields.of? 3 v
    return .member (← fields.required 0 "table" Value.asText?)
      (← fields.orDefault 1 ["query"] empty read) (← fields.orDefault 2 ["all"] false Value.asBool?)

/-- Reads the body of a common table expression, given a reader for queries: a fragment, or a table and
a query. -/
def cteBodyOf? (read : Value → Option QuerySpec) (name : String) (v : Value) :
    Option (CteSpecs → CteSpecs) :=
  let raw : Option (CteSpecs → CteSpecs) := v.asText?.map (.raw name)
  let query : Option (CteSpecs → CteSpecs) := do
    let fields ← Fields.ofObject? v
    return .query name (← fields.required 0 "table" Value.asText?) (← fields.required 1 "query" read)
  raw <|> query

def ctesOfItems? (read : Value → Option QuerySpec) : List Value → Option CteSpecs
  | [] => some .nil
  | v :: vs => do
    let fields ← Fields.of? 2 v
    let name ← fields.required 0 "name" Value.asText?
    let first ← fields.required 1 "body" (cteBodyOf? read name)
    return first (← ctesOfItems? read vs)

def ctesOf? (read : Value → Option QuerySpec) : Value → Option CteSpecs
  | .array items => ctesOfItems? read items
  | _ => none

/-- Reads a query from a value of limited depth. -/
def readWithin : Nat → Value → Option QuerySpec
  | 0, _ => none
  | depth + 1, v => do
    let fields ← Fields.of? 15 v
    let clauses ← clausesOf? fields
    let union ← fields.orDefault 9 ["union"] .none (unionOf? (readWithin depth))
    let ctes ← fields.orDefault 10 ["with"] .nil (ctesOf? (readWithin depth))
    return .mk clauses union ctes

def ofJson? (v : Value) : Option QuerySpec :=
  readWithin v.depth v

/-- The fields of a query in JSON, given those that hold further queries. -/
def fieldsToJson (c : SelectClauses) (union ctes : Value) : Value :=
  .object [
    ("distinct", .bool c.distinct),
    ("fullText", match c.fullText with | some spec => spec.toJson | none => .null),
    ("groupBy", .ofTexts c.groupBy),
    ("having", match c.having with | some having => having.toJson | none => .null),
    ("joins", .array (c.joins.map JoinSpec.toJson)),
    ("json", .array (c.json.map JsonPathSpec.toJson)),
    ("limit", .ofNumber? (fun n => n.toNat) c.limit),
    ("offset", .ofNumber? (fun n => n.toNat) c.offset),
    ("orderBy", .array (c.orderBy.map OrderBy.toJson)),
    ("select", .array (c.select.map SelectItem.toJson)),
    ("union", union),
    ("where", .array (Condition.listToJson c.conditions)),
    ("window", .array (c.window.map WindowSpec.toJson)),
    ("with", ctes),
    ("withTrashed", .bool c.withTrashed)]

mutual
def toJson : QuerySpec → Value
  | .mk clauses union ctes => fieldsToJson clauses (unionToJson union) (.array (ctesToJson ctes))
def unionToJson : UnionSpec → Value
  | .none => .null
  | .member table query all =>
    .object [("all", .bool all), ("query", query.toJson), ("table", .text table)]
def ctesToJson : CteSpecs → List Value
  | .nil => []
  | .raw name fragment rest =>
    .object [("body", .text fragment), ("name", .text name)] :: ctesToJson rest
  | .query name table query rest =>
    .object [("body", .object [("query", query.toJson), ("table", .text table)]), ("name", .text name)] ::
      ctesToJson rest
end

end QuerySpec

end TableGate
