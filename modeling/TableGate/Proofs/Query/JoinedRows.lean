import TableGate.Proofs.Query.RowTruth
import TableGate.Proofs.Query.WhereReading

/-! # The rows of joined tables

What FROM, its joins and WHERE mean. Tables are joined from left to right; a row of the result is put together
from a row of each table, or from nothing where an outer join has kept a row without a partner. A pair of rows
is joined, and a row is kept by WHERE, if the formula that is printed there is true, and not if it is unknown. -/

namespace TableGate

/-- A table of a database: its columns, and rows with values in some of them. -/
structure Table where
  columns : List Identifier
  rows : List Row
  fits : ∀ row ∈ rows, ∀ name ∈ row.names, name ∈ columns.map (·.text) := by decide

/-- What a statement is evaluated in: the tables under their names, the way in which the column of an expression
compares its values, and the search in texts. -/
structure Database where
  table? : List Identifier → Option Table
  compare : ColumnExpr → Comparator
  search : SearchForm → List Value → String → Truth

/-- A table in FROM, with the names that its columns are qualified with. -/
structure Source where
  names : List Identifier
  table : Table

/-- A row of joined tables: from each of them in order a row, or nothing. -/
abbrev Joined := List (Source × Option Row)

/-- Joined tables and their rows. -/
structure Relation where
  sources : List Source
  rows : List Joined

/-! ## Columns -/

namespace Source

/-- A path leads to a column of the table. In front of the column it has the last ones of the table's names, or
none. -/
def has (s : Source) (path : List Identifier) : Bool :=
  path.getLast?.any s.table.columns.contains && path.dropLast.isSuffixOf s.names

end Source

namespace Joined

/-- The value under a path, in the row of the only table that it leads to. Where that row is missing, the value
is null. -/
def value (j : Joined) (path : List Identifier) : Value :=
  match j.filter fun part => part.1.has path, path.getLast? with
  | [(_, some row)], some column => row.value column.text
  | _, _ => .null

end Joined

namespace ColumnExpr

/-- The expression is a column of just one of the tables. Conditions on rows call no aggregate function. -/
def resolves (sources : List Source) : ColumnExpr → Bool
  | .path (.column names) => sources.countP (·.has names) == 1
  | _ => false

def valueAt (j : Joined) : ColumnExpr → Value
  | .path (.column names) => j.value names
  | _ => .null

end ColumnExpr

namespace Operand

def expressions : Operand → List ColumnExpr
  | .column e => [e]
  | .value _ => []

def valueAt (j : Joined) : Operand → Value
  | .column e => e.valueAt j
  | .value v => v

end Operand

namespace Atom

def expressions : Atom → List ColumnExpr
  | .nullTest e _ => [e]
  | .compare e _ o => e :: o.expressions
  | .among e _ os => e :: os.flatMap Operand.expressions
  | .between e low high => e :: (low.expressions ++ high.expressions)
  | .constant _ => []
  | .search _ columns _ => columns
  | .notDeleted r => [r.expression]

/-- The atom may stand in a condition on rows of the tables: all its columns are found, and none has an
alias. -/
def resolves (sources : List Source) (a : Atom) : Bool :=
  a.expressions.all (·.resolves sources) &&
    match a with
    | .notDeleted r => r.label.isNone
    | _ => true

/-- The truth of an atom for a row of joined tables. -/
def truthAt (db : Database) (j : Joined) : Atom → Truth
  | .nullTest e negated => .ofNullTest negated (e.valueAt j)
  | .compare e op o => .ofComparison (db.compare e) op (e.valueAt j) (o.valueAt j)
  | .among e negated os => .ofMembership (db.compare e) negated (e.valueAt j) (os.map (·.valueAt j))
  | .between e low high => .ofRange (db.compare e) (e.valueAt j) (low.valueAt j) (high.valueAt j)
  | .constant holds => .ofBool holds
  | .search form columns term => db.search form (columns.map (·.valueAt j)) term
  | .notDeleted r => .ofNullTest false (r.expression.valueAt j)

end Atom

namespace Chain

/-- The chain may stand in a condition on rows of the tables. -/
def resolves (sources : List Source) (chain : Chain) : Bool :=
  (Predicate.atomsOf chain).all (·.resolves sources)

/-- The chain is true for a row of joined tables. -/
def holdsAt (db : Database) (j : Joined) (chain : Chain) : Bool :=
  Predicate.truthOf (Atom.truthAt db j) chain = .yes

end Chain

/-! ## Clauses -/

/-- A chain in parentheses if it joins several predicates and `wrapped` is set, as it is printed. -/
def Chain.wrap (chain : Chain) (wrapped : Bool) : Chain :=
  if wrapped && 1 < chain.length then [(.and, .group chain)] else chain

/-- The condition of a join as a single chain. -/
def JoinClause.chain (compared filters : Chain) (test : Option Atom) : Chain :=
  compared.wrap (!filters.isEmpty) ++ (headed .and (filters.wrap true) ++ Chain.ofAtoms test.toList)

namespace Database

/-- The table that a reference in FROM stands for. -/
def source? (db : Database) (r : Reference) : Option Source :=
  match r.expression with
  | .path (.column names) => (db.table? names).map fun t => ⟨(r.label.map ([·])).getD names, t⟩
  | _ => none

end Database

namespace Relation

/-- The rows of a single table. -/
def single (s : Source) : Relation :=
  ⟨[s], s.table.rows.map fun row => [(s, some row)]⟩

/-- The row that has nothing from any of the tables. -/
def blank (rel : Relation) : Joined :=
  rel.sources.map (·, none)

/-- The join with a table: the pairs of rows that belong together, and the rows without a partner on the side
that an outer join keeps. -/
def join (rel : Relation) (kind : JoinType) (s : Source) (belong : Joined → Bool) : Relation where
  sources := rel.sources ++ [s]
  rows :=
    let beside (j : Joined) (row : Row) : Joined := j ++ [(s, some row)]
    (rel.rows.flatMap fun j => (s.table.rows.map (beside j)).filter belong) ++
      (match kind with
      | .left =>
        (rel.rows.filter fun j => s.table.rows.all fun row => !belong (beside j row)).map (· ++ [(s, none)])
      | .right =>
        (s.table.rows.filter fun row => rel.rows.all fun j => !belong (beside j row)).map (beside rel.blank)
      | .inner | .cross => [])

/-- The join that a clause asks for, unless it is refused: every table and every column has to be found. -/
def extend? (db : Database) (rel : Relation) : JoinClause → Option Relation
  | .cross table => (db.source? table).map fun s => rel.join .cross s fun _ => true
  | .on kind table compared filters test => do
    let s ← db.source? table
    let chain := JoinClause.chain compared filters test
    if chain.resolves (rel.sources ++ [s]) then
      some (rel.join kind s fun j => chain.holdsAt db j)
    else
      none

end Relation

namespace SelectBody

/-- What FROM and its joins give. -/
def relation? (db : Database) (b : SelectBody) : Option Relation := do
  let s ← db.source? b.source
  b.joins.foldlM (Relation.extend? db) (.single s)

/-- The rows of FROM, its joins and WHERE, unless the statement is refused. -/
def rows? (db : Database) (b : SelectBody) : Option (List Joined) := do
  let rel ← b.relation? db
  if b.filter.chain.resolves rel.sources then
    some (rel.rows.filter fun j => b.filter.chain.holdsAt db j)
  else
    none

end SelectBody

/-! ## What is printed is what is evaluated -/

open Template

theorem Chain.chainTemplate_wrap (chain : Chain) (wrapped : Bool) :
    Predicate.chainTemplate (chain.wrap wrapped) = chain.enclosed wrapped := by
  unfold wrap enclosed
  split
  · simp [Predicate.chainTemplate, Predicate.restTemplate, Predicate.template, parenthesized]
  · rfl

theorem Chain.wrap_eq_nil {chain : Chain} {wrapped : Bool} : chain.wrap wrapped = [] ↔ chain = [] := by
  unfold wrap
  split
  · rename_i hseveral
    rw [Bool.and_eq_true, decide_eq_true_eq] at hseveral
    refine ⟨fun h => absurd h (List.cons_ne_nil _ _), ?_⟩
    rintro rfl
    simp at hseveral
  · rfl

theorem Chain.restTemplate_headed {chain : Chain} (h : chain ≠ []) :
    Predicate.restTemplate (headed .and chain) = .text " AND " :: Predicate.chainTemplate chain := by
  cases chain with
  | nil => exact absurd rfl h
  | cons link chain => rfl

theorem Chain.chainTemplate_headed (c : Connector) (chain : Chain) :
    Predicate.chainTemplate (headed c chain) = Predicate.chainTemplate chain := by
  cases chain <;> rfl

/-- The condition of a join is printed as its chain. -/
theorem JoinClause.condition_eq {compared filters : Chain} (h : compared ≠ [] ∨ filters ≠ [])
    (test : Option Atom) :
    condition compared filters test = Predicate.chainTemplate (chain compared filters test) := by
  have hparts : condition compared filters test = joined " AND "
      ((if compared.isEmpty then [] else [compared.enclosed (!filters.isEmpty)]) ++
        (if filters.isEmpty then [] else [filters.enclosed true]) ++ test.toList.map Atom.template) := by
    cases test <;> rfl
  rw [hparts, chain]
  by_cases hcompared : compared = []
  · have hfilters : filters ≠ [] := h.resolve_left (not_not.mpr hcompared)
    have hheaded : headed .and (filters.wrap true) ≠ [] := by
      cases hwrap : filters.wrap true with
      | nil => exact absurd (Chain.wrap_eq_nil.mp hwrap) hfilters
      | cons link rest => exact List.cons_ne_nil _ _
    rw [Chain.wrap_eq_nil.mpr hcompared, List.nil_append, Predicate.chainTemplate_append hheaded,
      Chain.chainTemplate_headed, Chain.chainTemplate_wrap, ← Chain.joined_atoms]
    simp [hcompared, hfilters]
  · have hwrap : compared.wrap (!filters.isEmpty) ≠ [] := mt Chain.wrap_eq_nil.mp hcompared
    rw [Predicate.chainTemplate_append hwrap, Chain.chainTemplate_wrap, Predicate.restTemplate_append]
    by_cases hfilters : filters = []
    · rw [Chain.wrap_eq_nil.mpr hfilters, headed, Predicate.restTemplate, List.nil_append,
        ← Chain.joined_atoms]
      simp [hcompared, hfilters]
    · have hrest : filters.wrap true ≠ [] := mt Chain.wrap_eq_nil.mp hfilters
      rw [Chain.restTemplate_headed hrest, Chain.chainTemplate_wrap, List.cons_append,
        ← Chain.joined_atoms]
      simp [hcompared, hfilters, joined]

end TableGate
