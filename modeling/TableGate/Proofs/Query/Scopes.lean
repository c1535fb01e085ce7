import TableGate.Proofs.Failure
import TableGate.Query.Select

/-! # The tables of a query

A query asks its scope for the columns that mark deleted rows of its own tables, and for nothing else. -/

namespace TableGate

mutual

/-- The texts for tables in a query: in its joins, and in the queries inside it. -/
def QuerySpec.tables : QuerySpec → List String
  | .mk clauses union ctes => clauses.joins.map (·.table) ++ (union.tables ++ ctes.tables)

/-- The texts for tables in a united query. -/
def UnionSpec.tables : UnionSpec → List String
  | .none => []
  | .member table query _ => table :: query.tables

/-- The texts for tables in common table expressions. -/
def CteSpecs.tables : CteSpecs → List String
  | .nil => []
  | .raw _ _ rest => rest.tables
  | .query _ table query rest => table :: (query.tables ++ rest.tables)

end

theorem Compiler.tables_countQuery (conditions : List Condition) :
    (countQuery conditions).tables = [] := by
  simp [countQuery, QuerySpec.tables, UnionSpec.tables, CteSpecs.tables]

/-- The scopes have the same columns for the tables that the texts name. -/
def Scope.AgreeOn (scope other : Scope) (tables : List String) : Prop :=
  ∀ table ∈ tables, scope (Text.splitAlias table).1 = other (Text.splitAlias table).1

theorem Scope.AgreeOn.mono {scope other : Scope} {tables some : List String}
    (h : scope.AgreeOn other tables) (hsub : some ⊆ tables) : scope.AgreeOn other some :=
  fun table htable => h table (hsub htable)

theorem Scope.AgreeOn.clauses {scope other : Scope} {tables : List String}
    (h : scope.AgreeOn other tables) (c : SelectClauses) :
    AgreeOn (c.scope scope) (c.scope other) tables := by
  intro table htable
  unfold SelectClauses.scope
  split
  · rfl
  · exact h table htable

theorem SelectClauses.body?_congr (k : Compiler) {scope other : Scope} (table : String)
    (c : SelectClauses) (h : scope.AgreeOn other (table :: c.joins.map (·.table))) :
    c.body? k scope table = c.body? k other table := by
  have hjoins : c.joins.mapM (JoinSpec.clause? scope) = c.joins.mapM (JoinSpec.clause? other) := by
    refine Except.mapM_congr fun j hj => ?_
    have htable : j.table ∈ table :: c.joins.map (·.table) :=
      List.mem_cons_of_mem _ (List.mem_map_of_mem hj)
    rw [JoinSpec.clause?, JoinSpec.clause?, Scope.joinTest?, Scope.joinTest?, h _ htable]
  have hsource (joined : Bool) : scope.sourceTest? table joined = other.sourceTest? table joined := by
    rw [Scope.sourceTest?, Scope.sourceTest?, h table List.mem_cons_self]
  rw [SelectClauses.body?, SelectClauses.body?, hjoins, hsource]

mutual

/-- A query is understood in the same way in scopes that agree on its tables. -/
theorem QuerySpec.select?_congr (k : Compiler) : ∀ (q : QuerySpec) (table : String)
    (scope other : Scope), scope.AgreeOn other (table :: q.tables) →
      q.select? k scope table = q.select? k other table
  | .mk c union ctes => by
      intro table scope other h
      have hscope := h.clauses c
      have hbody := SelectClauses.body?_congr k table c
        (hscope.mono (by simp [QuerySpec.tables]))
      have hunion := UnionSpec.members?_congr k union _ _
        (hscope.mono fun x hx => by simp [QuerySpec.tables, hx])
      have hctes := CteSpecs.clauses?_congr k ctes _ _
        (hscope.mono fun x hx => by simp [QuerySpec.tables, hx])
      rw [QuerySpec.select?, QuerySpec.select?, hbody, hunion, hctes]

theorem UnionSpec.members?_congr (k : Compiler) : ∀ (union : UnionSpec) (scope other : Scope),
    scope.AgreeOn other union.tables →
      QuerySpec.unionMembers? k scope union = QuerySpec.unionMembers? k other union
  | .none => fun _ _ _ => rfl
  | .member table (.mk c union ctes) all => by
      intro scope other h
      have hscope := h.clauses c
      have hbody := SelectClauses.body?_congr k table c
        (hscope.mono (by simp [UnionSpec.tables, QuerySpec.tables]))
      have hunion := UnionSpec.members?_congr k union _ _
        (hscope.mono fun x hx => by simp [UnionSpec.tables, QuerySpec.tables, hx])
      cases ctes with
      | nil => rw [QuerySpec.unionMembers?, QuerySpec.unionMembers?, hbody, hunion]
      | raw _ _ _ => simp only [QuerySpec.unionMembers?]
      | query _ _ _ _ => simp only [QuerySpec.unionMembers?]

theorem CteSpecs.clauses?_congr (k : Compiler) : ∀ (ctes : CteSpecs) (scope other : Scope),
    scope.AgreeOn other ctes.tables →
      QuerySpec.cteClauses? k scope ctes = QuerySpec.cteClauses? k other ctes
  | .nil => fun _ _ _ => rfl
  | .raw name fragment rest => by
      intro scope other h
      rw [QuerySpec.cteClauses?, QuerySpec.cteClauses?, CteSpecs.clauses?_congr k rest _ _ h]
  | .query name table q rest => by
      intro scope other h
      have hquery := QuerySpec.select?_congr k q table _ _
        (h.mono fun x hx => by simpa [CteSpecs.tables] using (List.mem_cons.mp hx).imp_right .inl)
      have hrest := CteSpecs.clauses?_congr k rest _ _
        (h.mono fun x hx => by simp [CteSpecs.tables, hx])
      rw [QuerySpec.cteClauses?, QuerySpec.cteClauses?, hquery, hrest]

end

end TableGate
