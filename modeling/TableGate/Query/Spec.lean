import TableGate.Query.Condition

/-!
# Query specifications

A query as the caller describes it, and the steps by which one is put together.
-/

namespace TableGate

/-- A function that sums up the values of a column. -/
inductive AggregateFunction where
  | count
  | sum
  | avg
  | min
  | max
  deriving DecidableEq, Repr

/-- An item of the selected columns. -/
inductive SelectItem where
  | column (text : String)
  | count (argument : String) (label : Option String)
  | aggregate (function : AggregateFunction) (column : String) (label : Option String)
  | raw (fragment : String)

inductive JoinType where
  | inner
  | left
  | right
  | cross
  deriving DecidableEq, Repr

/-- What a join compares; every value in it is a reference to a column. -/
inductive JoinOn where
  | pair (left right : String)
  | conditions (items : List Condition)

/-- A joined table. The filters compare with values and belong to the join. -/
structure JoinSpec where
  table : String
  joinType : JoinType
  on : Option JoinOn
  filters : List Condition

/-- The condition on the groups. -/
inductive Having where
  | raw (fragment : String)
  | conditions (items : List Condition)

inductive Direction where
  | asc
  | desc
  deriving DecidableEq, Repr

/-- A term of the sort order: a text with an optional direction in it, or a column and a direction. -/
inductive OrderBy where
  | text (s : String)
  | spec (column : String) (direction : Direction)

inductive FullTextMode where
  | boolean
  | naturalLanguage
  deriving DecidableEq, Repr

structure FullTextSpec where
  columns : List String
  term : String
  mode : FullTextMode

structure WindowSpec where
  function : String
  args : List String
  partitionBy : List String
  orderBy : List OrderBy
  label : String

/-- A value inside a JSON column. -/
structure JsonPathSpec where
  column : String
  path : String
  label : Option String

/-- The clauses of a query that hold no further query. -/
structure SelectClauses where
  select : List SelectItem := []
  conditions : List Condition := []
  joins : List JoinSpec := []
  groupBy : List String := []
  having : Option Having := none
  orderBy : List OrderBy := []
  limit : Option UInt64 := none
  offset : Option UInt64 := none
  distinct : Bool := false
  fullText : Option FullTextSpec := none
  window : List WindowSpec := []
  json : List JsonPathSpec := []
  withTrashed : Bool := false

mutual

/-- A query: its own clauses, the query united with it, and its common table expressions. -/
inductive QuerySpec where
  | mk (clauses : SelectClauses) (union : UnionSpec) (ctes : CteSpecs)

/-- The query united with another one, if any. -/
inductive UnionSpec where
  | none
  | member (table : String) (query : QuerySpec) (all : Bool)

/-- The common table expressions of a query, in order; each is a fragment or a query. -/
inductive CteSpecs where
  | nil
  | raw (name fragment : String) (rest : CteSpecs)
  | query (name table : String) (query : QuerySpec) (rest : CteSpecs)

end

namespace AggregateFunction

def sql : AggregateFunction → String
  | .count => "COUNT"
  | .sum => "SUM"
  | .avg => "AVG"
  | .min => "MIN"
  | .max => "MAX"

end AggregateFunction

namespace JoinType

def sql : JoinType → String
  | .inner => "INNER JOIN"
  | .left => "LEFT JOIN"
  | .right => "RIGHT JOIN"
  | .cross => "CROSS JOIN"

end JoinType

namespace JoinSpec

/-- A join on the equality of two columns. -/
def ofPair (joinType : JoinType) (table left right : String) : JoinSpec :=
  ⟨table, joinType, some (.pair left right), []⟩

def cross (table : String) : JoinSpec :=
  ⟨table, .cross, none, []⟩

def filter (join : JoinSpec) (condition : Condition) : JoinSpec :=
  { join with filters := join.filters ++ [condition] }

end JoinSpec

namespace Direction

def sql : Direction → String
  | .asc => "ASC"
  | .desc => "DESC"

end Direction

namespace CteSpecs

/-- The expressions with one more at the end. -/
def push (last : CteSpecs → CteSpecs) : CteSpecs → CteSpecs
  | .nil => last .nil
  | .raw name fragment rest => .raw name fragment (push last rest)
  | .query name table q rest => .query name table q (push last rest)

end CteSpecs

namespace QuerySpec

def clauses : QuerySpec → SelectClauses
  | .mk clauses _ _ => clauses

def union : QuerySpec → UnionSpec
  | .mk _ union _ => union

def ctes : QuerySpec → CteSpecs
  | .mk _ _ ctes => ctes

/-- The query for all columns and all rows. -/
def empty : QuerySpec :=
  .mk {} .none .nil

/-- The query with its clauses changed. -/
def modify (f : SelectClauses → SelectClauses) : QuerySpec → QuerySpec
  | .mk clauses union ctes => .mk (f clauses) union ctes

/-- The query for the rows that satisfy the conditions. -/
def ofConditions (conditions : List Condition) : QuerySpec :=
  .mk { conditions } .none .nil

def select (q : QuerySpec) (items : List SelectItem) : QuerySpec :=
  q.modify fun c => { c with select := c.select ++ items }

def filter (q : QuerySpec) (condition : Condition) : QuerySpec :=
  q.modify fun c => { c with conditions := c.conditions ++ [condition] }

def join (q : QuerySpec) (join : JoinSpec) : QuerySpec :=
  q.modify fun c => { c with joins := c.joins ++ [join] }

def groupBy (q : QuerySpec) (columns : List String) : QuerySpec :=
  q.modify fun c => { c with groupBy := c.groupBy ++ columns }

def having (q : QuerySpec) (having : Having) : QuerySpec :=
  q.modify fun c => { c with having := some having }

def orderBy (q : QuerySpec) (order : OrderBy) : QuerySpec :=
  q.modify fun c => { c with orderBy := c.orderBy ++ [order] }

def limit (q : QuerySpec) (n : UInt64) : QuerySpec :=
  q.modify fun c => { c with limit := some n }

def offset (q : QuerySpec) (n : UInt64) : QuerySpec :=
  q.modify fun c => { c with offset := some n }

def distinct (q : QuerySpec) : QuerySpec :=
  q.modify fun c => { c with distinct := true }

def unionWith (q : QuerySpec) (table : String) (other : QuerySpec) (all : Bool) : QuerySpec :=
  .mk q.clauses (.member table other all) q.ctes

def withQuery (q : QuerySpec) (name table : String) (query : QuerySpec) : QuerySpec :=
  .mk q.clauses q.union (q.ctes.push (.query name table query))

def fullText (q : QuerySpec) (spec : FullTextSpec) : QuerySpec :=
  q.modify fun c => { c with fullText := some spec }

def window (q : QuerySpec) (spec : WindowSpec) : QuerySpec :=
  q.modify fun c => { c with window := c.window ++ [spec] }

def jsonPath (q : QuerySpec) (spec : JsonPathSpec) : QuerySpec :=
  q.modify fun c => { c with json := c.json ++ [spec] }

/-- The query that also finds soft-deleted rows. -/
def withTrashed (q : QuerySpec) : QuerySpec :=
  q.modify fun c => { c with withTrashed := true }

end QuerySpec

end TableGate
