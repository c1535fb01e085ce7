import TableGate.Proofs.NameMap
import TableGate.Proofs.Query.Sites
import TableGate.Proofs.Sql.Rendering
import TableGate.Query.Write

/-! # Queries and statements without their data

The data of a query are the values that it binds. Leaving them out of a query, of the tree that it is
understood as, and of the template that is printed from the tree, replaces each of them by the same text:
what remains is the query up to its data. To understand a query and to leave out its data can be done in
either order. -/

namespace TableGate

/-! ## Leaving out data -/

namespace Value

/-- A value without its data: all scalars but null look alike. Where values are the names of columns, they
are no data. -/
def withoutData : ValueMode → Value → Value
  | .column, v => v
  | .parameter, .null => .null
  | .parameter, .array items => .array items
  | .parameter, .object entries => .object entries
  | .parameter, _ => .text ""

/-- Two values are the same without their data if and only if they are the same or both are scalars. -/
theorem withoutData_eq_iff (v w : Value) :
    v.withoutData .parameter = w.withoutData .parameter ↔
      v = w ∨ v.isScalar = true ∧ w.isScalar = true := by
  cases v <;> cases w <;> simp [withoutData, isScalar]

/-- The value of a comparison without its data. A test for null does not look at it, and in a list each item
is a value of its own. -/
def withoutDataUnder (mode : ValueMode) : Option Operator → Value → Value
  | some .isNull, _ => .null
  | some .isNotNull, _ => .null
  | _, .array items => .array (items.map (withoutData mode))
  | _, v => v.withoutData mode

end Value

/-- A comparison without its data. -/
def ConditionNode.withoutData (mode : ValueMode) (n : ConditionNode) : ConditionNode :=
  { n with value := n.value.withoutDataUnder mode (Operator.ofText? n.operator) }

theorem ConditionNode.boolean_withoutData (mode : ValueMode) (n : ConditionNode) :
    (n.withoutData mode).boolean = n.boolean := by
  rw [ConditionNode.withoutData]

/-- Conditions in a row without their data. -/
def Condition.withoutData (mode : ValueMode) (cs : List Condition) : List Condition :=
  mapAll (ConditionNode.withoutData mode) cs

def JoinOn.withoutData : JoinOn → JoinOn
  | .pair left right => .pair left right
  | .conditions items => .conditions (Condition.withoutData .column items)

def JoinSpec.withoutData (j : JoinSpec) : JoinSpec :=
  { j with
    on := j.on.map JoinOn.withoutData
    filters := Condition.withoutData .parameter j.filters }

def FullTextSpec.withoutData (f : FullTextSpec) : FullTextSpec :=
  { f with term := "" }

/-- A single SELECT without its data. -/
def SelectClauses.withoutData (c : SelectClauses) : SelectClauses :=
  { c with
    conditions := Condition.withoutData .parameter c.conditions
    joins := c.joins.map JoinSpec.withoutData
    having := c.having.map (Having.mapNodes (ConditionNode.withoutData .parameter))
    fullText := c.fullText.map FullTextSpec.withoutData }

mutual

/-- A query without its data, at every depth. -/
def QuerySpec.withoutData : QuerySpec → QuerySpec
  | .mk c union ctes => .mk c.withoutData union.withoutData ctes.withoutData

def UnionSpec.withoutData : UnionSpec → UnionSpec
  | .none => .none
  | .member table query all => .member table query.withoutData all

def CteSpecs.withoutData : CteSpecs → CteSpecs
  | .nil => .nil
  | .raw name fragment rest => .raw name fragment rest.withoutData
  | .query name table query rest => .query name table query.withoutData rest.withoutData

end

/-- A row without its values: nothing but its columns. -/
def Row.withoutData (row : Row) : Row :=
  row.map fun _ => .text ""

/-! ## The same of what queries and writes are understood as -/

def Operand.withoutData : Operand → Operand
  | .column e => .column e
  | .value _ => .value (.text "")

def Atom.withoutData : Atom → Atom
  | .compare column operator operand => .compare column operator operand.withoutData
  | .among column negated operands => .among column negated (operands.map Operand.withoutData)
  | .between column low high => .between column low.withoutData high.withoutData
  | .search form columns _ => .search form columns ""
  | .nullTest column negated => .nullTest column negated
  | .constant holds => .constant holds
  | .notDeleted column => .notDeleted column

namespace Predicate

mutual

def withoutData : Predicate → Predicate
  | .atom a => .atom a.withoutData
  | .group chain => .group (chainWithoutData chain)

def chainWithoutData : List (Connector × Predicate) → List (Connector × Predicate)
  | [] => []
  | (c, p) :: rest => (c, withoutData p) :: chainWithoutData rest

end

end Predicate

def Chain.withoutData (chain : Chain) : Chain :=
  Predicate.chainWithoutData chain

def JoinClause.withoutData : JoinClause → JoinClause
  | .cross table => .cross table
  | .on kind table compared filters scope =>
    .on kind table (Chain.withoutData compared) (Chain.withoutData filters) (scope.map Atom.withoutData)

def HavingClause.withoutData : HavingClause → HavingClause
  | .absent => .absent
  | .raw fragment => .raw fragment
  | .chain c => .chain (Chain.withoutData c)

def Filter.withoutData (f : Filter) : Filter :=
  ⟨Chain.withoutData f.given, f.also.map Atom.withoutData⟩

def SelectBody.withoutData (b : SelectBody) : SelectBody :=
  { b with
    joins := b.joins.map JoinClause.withoutData
    filter := b.filter.withoutData
    having := b.having.withoutData }

mutual

def Select.withoutData : Select → Select
  | .mk ctes first rest orderBy limit offset =>
    .mk ctes.withoutData first.withoutData (rest.map fun m => (m.1, m.2.withoutData)) orderBy limit offset

def CteClauses.withoutData : CteClauses → CteClauses
  | .nil => .nil
  | .raw name fragment rest => .raw name fragment rest.withoutData
  | .query name body rest => .query name body.withoutData rest.withoutData

end

def Insert.withoutData (i : Insert) : Insert :=
  { i with tuples := i.tuples.map (List.map fun _ => .text "") }

def Assigned.withoutData : Assigned → Assigned
  | .value _ => .value (.text "")
  | .now => .now
  | .null => .null

def Write.withoutData : Write → Write
  | .insert rows => .insert rows.withoutData
  | .upsert rows conflict => .upsert rows.withoutData conflict
  | .update table assignments filter =>
    .update table (assignments.map fun p => (p.1, p.2.withoutData)) (Chain.withoutData filter)
  | .delete table filter => .delete table (Chain.withoutData filter)

/-! ## Conditions are understood without their data -/

variable {mode : ValueMode}

/-- An operand of a comparison without its data is the operand without its data. -/
theorem Operand.of?_withoutData (column : String) (v : Value) :
    Operand.of? mode column (v.withoutData mode) =
      (Operand.of? mode column v).map Operand.withoutData := by
  cases mode with
  | parameter => cases v <;> rfl
  | column =>
      cases v with
      | text reference =>
          rw [Value.withoutData, Operand.of?, Except.map_map]
          rfl
      | _ => rfl

theorem Operand.mapM_withoutData (mode : ValueMode) (column : String) (vs : List Value) :
    (vs.map (Value.withoutData mode)).mapM (Operand.of? mode column) =
      (vs.mapM (Operand.of? mode column)).map (List.map Operand.withoutData) :=
  Except.mapM_map (Operand.of?_withoutData column) vs

/-- A comparison without its data is understood as the atom without its data. -/
theorem ConditionNode.atom?_withoutData (n : ConditionNode) :
    (n.withoutData mode).atom? mode = (n.atom? mode).map Atom.withoutData := by
  unfold ConditionNode.atom? ConditionNode.withoutData
  dsimp only
  generalize Operator.ofText? n.operator = op
  cases op with
  | none => rfl
  | some op =>
      simp only [Except.map_bind]
      congr 1
      funext e
      cases op with
      | isNull | isNotNull => rfl
      | isIn | notIn =>
          cases n.value with
          | array items =>
              cases items with
              | nil => rfl
              | cons item items =>
                  have hitems := Operand.mapM_withoutData mode n.column (item :: items)
                  rw [List.map_cons] at hitems
                  simp only [Value.withoutDataUnder, List.map_cons, hitems, Except.map_bind,
                    Except.bind_map, Except.map_pure, Atom.withoutData]
          | _ => cases mode <;> rfl
      | between =>
          cases n.value with
          | array items =>
              match items with
              | [low, high] =>
                  simp only [Value.withoutDataUnder, List.map_cons, List.map_nil, Operand.of?_withoutData,
                    Except.map_bind, Except.bind_map, Except.map_pure, Atom.withoutData]
              | [] => rfl
              | [_] => rfl
              | _ :: _ :: _ :: rest => simp [Value.withoutDataUnder, Except.map]
          | _ => cases mode <;> rfl
      | _ =>
          cases n.value with
          | text s =>
              cases mode with
              | parameter => rfl
              | column =>
                  cases hs : ColumnExpr.of? s <;>
                    simp [Value.withoutDataUnder, Value.withoutData, Operand.of?, hs, Except.map,
                      Atom.withoutData, Operand.withoutData]
          | _ => cases mode <;> rfl

theorem Condition.boolean_mapNodes {f : ConditionNode → ConditionNode} (c : Condition)
    (h : ∀ n, (f n).boolean = n.boolean) : (c.mapNodes f).boolean = c.boolean := by
  cases c with
  | node n => exact h n
  | group items boolean => rfl

mutual

theorem Condition.predicate?_withoutData : ∀ c : Condition,
    (c.mapNodes (ConditionNode.withoutData mode)).predicate? mode =
      (c.predicate? mode).map Predicate.withoutData
  | .node n => by
      rw [Condition.mapNodes, Condition.predicate?, Condition.predicate?, n.atom?_withoutData,
        Except.map_map, Except.map_map]
      rfl
  | .group [] _ => rfl
  | .group (item :: items) boolean => by
      have hchain := Condition.chain?_withoutData (item :: items)
      rw [Condition.withoutData, Condition.mapAll] at hchain
      rw [Condition.mapNodes, Condition.mapAll, Condition.predicate?, Condition.predicate?, hchain,
        Except.map_map, Except.map_map]
      · rfl
      all_goals exact List.cons_ne_nil _ _

/-- Conditions without their data are understood as the chain without its data. -/
theorem Condition.chain?_withoutData : ∀ cs : List Condition,
    Condition.chain? mode (Condition.withoutData mode cs) =
      (Condition.chain? mode cs).map Chain.withoutData
  | [] => rfl
  | c :: cs => by
      have hboolean := c.boolean_mapNodes (ConditionNode.boolean_withoutData mode)
      have hrest := Condition.chain?_withoutData cs
      rw [Condition.withoutData] at hrest
      rw [Condition.withoutData, Condition.mapAll]
      simp only [Condition.chain?, hboolean, hrest, Condition.predicate?_withoutData c, Except.bind_map,
        Except.map_bind, Except.map_pure, Chain.withoutData, Predicate.chainWithoutData]

end

/-! ## Queries are understood without their data -/

theorem Chain.isEmpty_withoutData (chain : Chain) : (Chain.withoutData chain).isEmpty = chain.isEmpty := by
  cases chain <;> rfl

theorem JoinSpec.comparedChain?_withoutData (on : Option JoinOn) :
    JoinSpec.comparedChain? (on.map JoinOn.withoutData) =
      (JoinSpec.comparedChain? on).map Chain.withoutData := by
  cases on with
  | none => rfl
  | some on =>
      cases on with
      | conditions items => exact Condition.chain?_withoutData items
      | pair left right =>
          simp only [Option.map_some, JoinOn.withoutData, JoinSpec.comparedChain?, Except.map_bind,
            Except.map_pure]
          rfl

theorem Condition.isEmpty_withoutData (cs : List Condition) :
    (Condition.withoutData mode cs).isEmpty = cs.isEmpty := by
  cases cs <;> rfl

/-- Tests for soft deletion have no data. -/
theorem Scope.joinTest?_withoutData (scope : Scope) (table : String) :
    scope.joinTest? table = (scope.joinTest? table).map (Option.map Atom.withoutData) := by
  unfold Scope.joinTest? Scope.qualifiedTest?
  split
  · simp only [Except.map_map]
    rfl
  · rfl

theorem Scope.sourceTest?_withoutData (scope : Scope) (table : String) (joined : Bool) :
    scope.sourceTest? table joined =
      (scope.sourceTest? table joined).map (Option.map Atom.withoutData) := by
  unfold Scope.sourceTest? Scope.qualifiedTest?
  split
  · split
    · simp only [Except.map_map]
      rfl
    · simp only [Except.map_map]
      rfl
  · rfl

theorem JoinSpec.clause?_withoutData (scope : Scope) (j : JoinSpec) :
    j.withoutData.clause? scope =
      (j.clause? scope).map fun part => (part.1.withoutData, part.2.map Atom.withoutData) := by
  unfold JoinSpec.clause? JoinSpec.withoutData
  conv_lhs => rw [Scope.joinTest?_withoutData]
  simp only [Condition.isEmpty_withoutData, Option.isSome_map, JoinSpec.comparedChain?_withoutData,
    Condition.chain?_withoutData, Except.map_bind, Except.bind_map, Chain.isEmpty_withoutData]
  congr 1
  funext test
  congr 1
  funext r
  split
  · split <;> rfl
  · simp only [Except.map_bind]
    congr 1
    funext compared
    congr 1
    funext filters
    split <;> rfl

theorem Having.clause?_withoutData (policy : RawPolicy) (having : Option Having) :
    Having.clause? policy (having.map (Having.mapNodes (ConditionNode.withoutData .parameter))) =
      (Having.clause? policy having).map HavingClause.withoutData := by
  cases having with
  | none => rfl
  | some having =>
      cases having with
      | raw fragment =>
          simp only [Option.map_some, Having.mapNodes, Having.clause?, Except.map_bind, Except.map_pure]
          rfl
      | conditions items =>
          cases items with
          | nil => rfl
          | cons item items =>
              have hchain : Condition.chain? .parameter (Condition.withoutData .parameter (item :: items)) =
                  (Condition.chain? .parameter (item :: items)).map Chain.withoutData :=
                Condition.chain?_withoutData (item :: items)
              rw [Condition.withoutData, Condition.mapAll] at hchain
              simp only [Option.map_some, Having.mapNodes, Condition.mapAll, Having.clause?, hchain,
                Except.bind_map, Except.map_bind, Except.map_pure, HavingClause.withoutData]

theorem FullTextSpec.atom?_withoutData (d : Dialect) (f : FullTextSpec) :
    f.withoutData.atom? d = (f.atom? d).map Atom.withoutData := by
  unfold FullTextSpec.atom? FullTextSpec.withoutData
  split
  · rfl
  · cases d with
    | sqlite => rfl
    | mysql | postgres =>
        simp only [Except.map_bind, Except.map_pure]
        rfl

theorem SelectClauses.search?_withoutData (d : Dialect) (c : SelectClauses) :
    c.withoutData.search? d = (c.search? d).map (Option.map Atom.withoutData) := by
  unfold SelectClauses.search? SelectClauses.withoutData
  cases c.fullText with
  | none => rfl
  | some f =>
      simp only [Option.map_some, f.atom?_withoutData, Except.map_map]

/-- A single SELECT without its data is understood as the body without its data. -/
theorem SelectClauses.body?_withoutData (k : Compiler) (scope : Scope) (table : String)
    (c : SelectClauses) :
    c.withoutData.body? k scope table = (c.body? k scope table).map SelectBody.withoutData := by
  have hcolumns : c.withoutData.columns? k = c.columns? k := rfl
  have hjoins : c.withoutData.joins = c.joins.map JoinSpec.withoutData := rfl
  have hconditions : c.withoutData.conditions = Condition.withoutData .parameter c.conditions := rfl
  have hgroupBy : c.withoutData.groupBy = c.groupBy := rfl
  have hhaving : c.withoutData.having =
    c.having.map (Having.mapNodes (ConditionNode.withoutData .parameter)) := rfl
  have hdistinct : c.withoutData.distinct = c.distinct := rfl
  have hempty : (c.joins.map JoinSpec.withoutData).isEmpty = c.joins.isEmpty := by
    cases c.joins <;> rfl
  unfold SelectClauses.body?
  conv_lhs => rw [Scope.sourceTest?_withoutData]
  simp only [hcolumns, hjoins, hconditions, hgroupBy, hhaving, hdistinct, hempty, c.search?_withoutData,
    Except.mapM_map (JoinSpec.clause?_withoutData scope), Condition.chain?_withoutData,
    Having.clause?_withoutData, Except.bind_map, Except.map_bind, Except.map_pure,
    SelectBody.withoutData, Filter.withoutData, List.map_map, List.map_append, List.filterMap_map,
    List.map_filterMap, Option.toList_map]
  rfl

theorem SelectClauses.scope_withoutData (c : SelectClauses) (outer : Scope) :
    c.withoutData.scope outer = c.scope outer :=
  rfl

mutual

/-- A query without its data is understood as the select statement without its data. -/
theorem QuerySpec.select?_withoutData (k : Compiler) : ∀ (q : QuerySpec) (outer : Scope) (table : String),
    q.withoutData.select? k outer table = (q.select? k outer table).map Select.withoutData
  | .mk c union ctes => by
      intro outer table
      have horder : c.withoutData.orderBy = c.orderBy := rfl
      rw [QuerySpec.withoutData, QuerySpec.select?, QuerySpec.select?, c.scope_withoutData,
        CteSpecs.clauses?_withoutData k ctes, c.body?_withoutData, UnionSpec.members?_withoutData k union,
        horder]
      simp only [Except.bind_map, Except.map_bind, Except.map_pure, Select.withoutData]
      rfl

theorem UnionSpec.members?_withoutData (k : Compiler) : ∀ (u : UnionSpec) (outer : Scope),
    QuerySpec.unionMembers? k outer u.withoutData =
      (QuerySpec.unionMembers? k outer u).map (List.map fun m => (m.1, m.2.withoutData))
  | .none => fun _ => rfl
  | .member table (.mk c union ctes) all => by
      intro outer
      have horder : c.withoutData.orderBy = c.orderBy := rfl
      have hlimit : c.withoutData.limit = c.limit := rfl
      have hoffset : c.withoutData.offset = c.offset := rfl
      rw [UnionSpec.withoutData, QuerySpec.withoutData]
      unfold QuerySpec.unionMembers?
      rw [horder, hlimit, hoffset]
      split
      · rfl
      · cases ctes with
        | nil =>
            simp only [CteSpecs.withoutData, c.scope_withoutData, c.body?_withoutData,
              UnionSpec.members?_withoutData k union, Except.bind_map, Except.map_bind, Except.map_pure,
              List.map_cons]
        | _ => rfl

theorem CteSpecs.clauses?_withoutData (k : Compiler) : ∀ (cs : CteSpecs) (outer : Scope),
    QuerySpec.cteClauses? k outer cs.withoutData =
      (QuerySpec.cteClauses? k outer cs).map CteClauses.withoutData
  | .nil => fun _ => rfl
  | .raw name fragment rest => by
      intro outer
      rw [CteSpecs.withoutData, QuerySpec.cteClauses?, QuerySpec.cteClauses?,
        CteSpecs.clauses?_withoutData k rest]
      simp only [Except.bind_map, Except.map_bind, Except.map_pure, CteClauses.withoutData]
  | .query name table query rest => by
      intro outer
      rw [CteSpecs.withoutData, QuerySpec.cteClauses?, QuerySpec.cteClauses?,
        CteSpecs.clauses?_withoutData k rest, QuerySpec.select?_withoutData k query]
      simp only [Except.bind_map, Except.map_bind, Except.map_pure, CteClauses.withoutData]

end

/-! ## Writes are understood without their data -/

theorem Row.names_withoutData (row : Row) : row.withoutData.names = row.names := by
  simp [Row.withoutData, NameMap.map, NameMap.names]

/-- Two rows are the same without their values if and only if they have the same columns. -/
theorem Row.withoutData_eq_iff (row row' : Row) :
    row.withoutData = row'.withoutData ↔ row.names = row'.names := by
  have hentries (r : Row) : r.withoutData.entries = r.names.map fun n => (n, Value.text "") := by
    simp [Row.withoutData, NameMap.map, NameMap.names]
  constructor
  · intro h
    rw [← Row.names_withoutData row, h, Row.names_withoutData]
  · intro h
    have hsame : row.withoutData.entries = row'.withoutData.entries := by rw [hentries, hentries, h]
    exact NameMap.ext_get? fun name => congrArg (List.lookup name) hsame

theorem Row.map_withoutData_eq_iff (rows rows' : List Row) :
    rows.map Row.withoutData = rows'.map Row.withoutData ↔
      rows.map NameMap.names = rows'.map NameMap.names := by
  rw [← List.forall₂_eq_eq_eq, List.forall₂_map_left_iff, List.forall₂_map_right_iff,
    ← List.forall₂_eq_eq_eq, List.forall₂_map_left_iff, List.forall₂_map_right_iff]
  exact ⟨List.Forall₂.imp fun r r' => (Row.withoutData_eq_iff r r').mp,
    List.Forall₂.imp fun r r' => (Row.withoutData_eq_iff r r').mpr⟩

theorem Write.hasColumns_withoutData (columns : List String) (row : Row) :
    hasColumns columns row.withoutData = hasColumns columns row := by
  have hcontains : row.withoutData.contains = row.contains := by
    funext name
    rw [NameMap.contains_eq, NameMap.contains_eq, Row.names_withoutData]
  rw [hasColumns, hasColumns, NameMap.size_eq, NameMap.size_eq, Row.names_withoutData, hcontains]

theorem Write.firstUnlike?_withoutData (columns : List String) (rows : List Row) (index : ℕ) :
    firstUnlike? columns index (rows.map Row.withoutData) = firstUnlike? columns index rows := by
  induction rows generalizing index with
  | nil => rfl
  | cons row rows ih => simp only [List.map_cons, firstUnlike?, hasColumns_withoutData, ih]

/-- Rows without their values are inserted by the insertion without its data. -/
theorem Write.insertRows?_withoutData (table : String) (rows : List Row) :
    insertRows? table (rows.map Row.withoutData) = (insertRows? table rows).map Insert.withoutData := by
  cases rows with
  | nil => rfl
  | cons first rest =>
      have hempty : first.withoutData.isEmpty = first.isEmpty := by
        simp [Row.withoutData, NameMap.map, NameMap.isEmpty]
      have hvalues (row : Row) : row.withoutData.values = row.values.map fun _ => .text "" := by
        simp [Row.withoutData, NameMap.map, NameMap.values]
      rw [List.map_cons, insertRows?, insertRows?, Row.names_withoutData, firstUnlike?_withoutData, hempty,
        List.isEmpty_map]
      split
      · rfl
      · simp only [Except.map_bind]
        congr 1
        funext reference
        split
        · rfl
        · have htuples : (first.withoutData :: rest.map Row.withoutData).map NameMap.values =
              ((first :: rest).map NameMap.values).map (List.map fun _ => .text "") := by
            rw [← List.map_cons, List.map_map, List.map_map]
            exact List.map_congr_left fun row _ => hvalues row
          simp only [Except.map_bind, Except.map_pure, Insert.withoutData, htuples]

theorem Write.insertOf?_withoutData (table : String) (rows : List Row) :
    insertOf? table (rows.map Row.withoutData) = (insertOf? table rows).map Write.withoutData := by
  rw [insertOf?, insertOf?, insertRows?_withoutData, Except.map_map, Except.map_map]
  rfl

theorem Write.upsertOf?_withoutData (table : String) (rows : List Row) (uniqueBy : List String)
    (update : Option (List String)) :
    upsertOf? table (rows.map Row.withoutData) uniqueBy update =
      (upsertOf? table rows uniqueBy update).map Write.withoutData := by
  have hcolumns : (rows.map Row.withoutData).head?.map NameMap.names = rows.head?.map NameMap.names := by
    cases rows with
    | nil => rfl
    | cons first rest => exact congrArg some first.names_withoutData
  unfold upsertOf?
  rw [hcolumns, insertRows?_withoutData]
  split
  · rfl
  · simp only [Except.bind_map, Except.map_bind]
    congr 1
    funext insert
    split
    · rfl
    · simp only [Except.map_bind, Except.map_pure, Write.withoutData]

/-- What is assigned without its data: each column with a value of its own. -/
theorem Write.assignments_withoutData (values : Row) :
    (values.withoutData.entries.mapM fun (column, v) => do
      return (← Identifier.of? column, Assigned.value v)) =
    (values.entries.mapM fun (column, v) => do
      return (← Identifier.of? column, Assigned.value v)).map
      (List.map fun p : Identifier × Assigned => (p.1, p.2.withoutData)) := by
  refine Except.mapM_map (fun e => ?_) values.entries
  simp only [Except.map_bind, Except.map_pure, Assigned.withoutData]

theorem Write.updateOf?_withoutData (table : String) (values : Row) (cs : List Condition) :
    updateOf? table values.withoutData (Condition.withoutData .parameter cs) =
      (updateOf? table values cs).map Write.withoutData := by
  have hempty : values.withoutData.isEmpty = values.isEmpty := by
    simp [Row.withoutData, NameMap.map, NameMap.isEmpty]
  unfold updateOf?
  rw [hempty, assignments_withoutData]
  split
  · rfl
  · simp only [Condition.chain?_withoutData, Except.bind_map, Except.map_bind, Except.map_pure,
      Write.withoutData]

theorem Write.deleteOf?_withoutData (table : String) (cs : List Condition) :
    deleteOf? table (Condition.withoutData .parameter cs) = (deleteOf? table cs).map Write.withoutData := by
  simp only [deleteOf?, Condition.chain?_withoutData, Except.bind_map, Except.map_bind, Except.map_pure,
    Write.withoutData]

/-- A null test that is added to conditions has no data. -/
theorem Write.narrowed_withoutData (cs : List Condition) {scope : Condition}
    (h : scope.mapNodes (ConditionNode.withoutData .parameter) = scope) :
    narrowed (Condition.withoutData .parameter cs) scope =
      Condition.withoutData .parameter (narrowed cs scope) := by
  match cs with
  | [] => simp [narrowed, Condition.withoutData, Condition.mapAll, h]
  | [.node n] => simp [narrowed, Condition.withoutData, Condition.mapAll, Condition.mapNodes, h]
  | [.group _ _] =>
      simp [narrowed, Condition.withoutData, Condition.mapAll, Condition.mapNodes, Condition.all, h]
  | _ :: _ :: _ =>
      simp [narrowed, Condition.withoutData, Condition.mapAll, Condition.mapNodes, Condition.all, h]

theorem Write.softDeleteOf?_withoutData (table column : String) (cs : List Condition) :
    softDeleteOf? table column (Condition.withoutData .parameter cs) =
      (softDeleteOf? table column cs).map Write.withoutData := by
  have hscope : (Condition.isNull column).mapNodes (ConditionNode.withoutData .parameter) =
      Condition.isNull column := by
    have hop : Operator.ofText? "IS NULL" = some .isNull := by decide
    simp [Condition.isNull, Condition.compare, Condition.mapNodes, ConditionNode.withoutData, hop,
      Value.withoutDataUnder]
  simp only [softDeleteOf?, narrowed_withoutData cs hscope, Condition.chain?_withoutData, Except.bind_map,
    Except.map_bind, Except.map_pure, Write.withoutData, List.map_cons, List.map_nil, Assigned.withoutData]

theorem Write.restoreOf?_withoutData (table column : String) (cs : List Condition) :
    restoreOf? table column (Condition.withoutData .parameter cs) =
      (restoreOf? table column cs).map Write.withoutData := by
  have hscope : (Condition.isNotNull column).mapNodes (ConditionNode.withoutData .parameter) =
      Condition.isNotNull column := by
    have hop : Operator.ofText? "IS NOT NULL" = some .isNotNull := by decide
    simp [Condition.isNotNull, Condition.compare, Condition.mapNodes, ConditionNode.withoutData, hop,
      Value.withoutDataUnder]
  simp only [restoreOf?, narrowed_withoutData cs hscope, Condition.chain?_withoutData, Except.bind_map,
    Except.map_bind, Except.map_pure, Write.withoutData, List.map_cons, List.map_nil, Assigned.withoutData]

end TableGate
