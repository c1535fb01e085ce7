import TableGate.Proofs.Failure
import TableGate.Query.Select

/-! # Queries that were understood

What is known of a query and its parts once a select statement was made from them. -/

namespace TableGate

variable {k : Compiler} {scope : Scope}

/-- A query is united with one that has neither order and limits nor common table expressions. -/
theorem QuerySpec.unionMembers?_member {table : String} {c : SelectClauses} {union : UnionSpec}
    {ctes : CteSpecs} {all : Bool} {rest : List (Bool × SelectBody)} :
    QuerySpec.unionMembers? k scope (.member table (.mk c union ctes) all) = .ok rest ↔
      (!c.orderBy.isEmpty || c.limit.isSome || c.offset.isSome) = false ∧ ctes = .nil ∧
        ∃ body, c.body? k (c.scope scope) table = .ok body ∧
          ∃ members, QuerySpec.unionMembers? k (c.scope scope) union = .ok members ∧
            (all, body) :: members = rest := by
  cases hordered : !c.orderBy.isEmpty || c.limit.isSome || c.offset.isSome with
  | true => cases ctes <;> simp [QuerySpec.unionMembers?, hordered]
  | false =>
      cases ctes with
      | nil =>
          rw [QuerySpec.unionMembers?, hordered, if_neg Bool.false_ne_true]
          simp only [Except.bind_eq_ok, Except.pure_eq_ok, true_and]
      | raw _ _ _ => simp [QuerySpec.unionMembers?, hordered]
      | query _ _ _ _ => simp [QuerySpec.unionMembers?, hordered]

/-- The statement of a query is that of its select statement. -/
theorem Compiler.selectScoped_eq_ok {table : String} {q : QuerySpec} {s : Statement} :
    k.selectScoped table q scope = .ok s ↔
      ∃ select, q.select? k scope table = .ok select ∧
        (select.template k.dialect).statement k.dialect = s := by
  simp only [Compiler.selectScoped, Except.bind_eq_ok, Except.pure_eq_ok]

end TableGate
