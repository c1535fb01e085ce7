import TableGate.Proofs.Query.Clauses
import TableGate.Proofs.Query.Understood

/-! # The parameters of a select statement

The marks in the text of a select statement and the list of its parameters agree, and both follow the
values that the query binds, whatever its nesting. -/

namespace TableGate

open Template

variable {k : Compiler}

/-! ## A single SELECT -/

theorem SelectClauses.carries {scope : Scope} {table : String} {c : SelectClauses} {body : SelectBody}
    (h : c.body? k scope table = .ok body) (hraw : ∀ f ∈ c.rawFragments, Unmarked f) :
    Carries k.dialect c.boundValues body.template := by
  simp only [SelectClauses.body?, Except.bind_eq_ok, Except.pure_eq_ok] at h
  obtain ⟨columns, hcolumns, source, hsource, joins, hjoins, given, hgiven, search, hsearch, test,
    htest, groupBy, hgroupBy, having, hhaving, rfl⟩ := h
  have hcolumns' : Carries k.dialect [] (Template.joined ", " columns) :=
    .joined_nil (by decide) (by decide)
      (SelectClauses.carries_columns hcolumns fun f hf => hraw f (by simp [rawFragments, hf]))
  have hkeyword : Unmarked (if c.distinct then "SELECT DISTINCT " else "SELECT ") := by
    split <;> decide
  have hsource' : Carries k.dialect [] source.template := Reference.carries hsource
  obtain ⟨hjoined, hjoinedOpens, hcross⟩ := JoinSpec.carries_mapM (d := k.dialect) hjoins
  have hatoms := ((SelectClauses.carries_search hsearch).append
    (Scope.carryAll_test (Scope.carries_sourceTest htest))).append hcross
  obtain ⟨hfilter, hfilterOpens⟩ := Filter.carries
    (f := ⟨given, search.toList ++ test.toList ++ joins.filterMap (·.2)⟩)
    (Chain.carryAll .parameter hgiven) (by simpa using hatoms)
  obtain ⟨hgroup, hgroupOpens⟩ := SelectBody.carries_group (d := k.dialect)
    (ColumnExpr.carries_mapM hgroupBy)
  obtain ⟨hgroups, hgroupsOpens⟩ := Having.carries (d := k.dialect) hhaving
    fun f hf => hraw f (List.mem_append_right _ (Option.mem_toList.mpr hf))
  have hall := (((((hcolumns'.text hkeyword).append (hsource'.text (x := " FROM ") (by decide))
    (opens_text (by decide))).append hjoined hjoinedOpens).append hfilter hfilterOpens).append hgroup
    hgroupOpens).append hgroups hgroupsOpens
  simpa [boundValues, ValueMode.bound, SelectBody.template] using hall

/-! ## Queries of any nesting -/

theorem OrderBy.carries_clause {d : Dialect} {terms : List OrderTerm}
    (h : ∀ t ∈ terms.map OrderTerm.template, Carries d [] t) :
    Carries d [] (Select.orderTemplate terms) ∧ Opens d (Select.orderTemplate terms) := by
  unfold Select.orderTemplate
  split
  · exact ⟨carries_nil, opens_nil⟩
  · exact ⟨(Carries.joined_nil (by decide) (by decide) h).text (by decide), opens_text (by decide)⟩

theorem Select.carries_limit (d : Dialect) (limit offset : Option ℕ) :
    Carries d [] [.text (d.limitClause limit offset)] ∧
      Opens d [.text (d.limitClause limit offset)] :=
  ⟨carries_nil.text (d.unmarked_limitClause limit offset),
    opens_text_cons (d.noDigitFirst_limitClause limit offset) opens_nil⟩

/-- A common table expression behind its keyword, with the ones that follow it. -/
theorem Select.carries_cte {d : Dialect} {vs ws : List Value} {keyword : String} {name : Identifier}
    {body rest : Template} (hkeyword : Unmarked keyword) (hbody : Carries d vs body)
    (hrest : Carries d ws rest) :
    Carries d (vs ++ ws)
      (.text keyword :: .name name :: .text " AS (" :: body ++ .text ")" :: rest) := by
  have hopened := ((hbody.text (x := " AS (") (by decide)).name (i := name)).text hkeyword
  exact hopened.append (hrest.text (x := ")") (by decide)) (opens_text (by decide))

mutual

/-- A query that was understood carries the values that it binds. -/
theorem QuerySpec.carries : ∀ (q : QuerySpec) (scope : Scope) (table : String) (s : Select),
    q.select? k scope table = .ok s → (∀ f ∈ q.rawFragments, Unmarked f) →
      Carries k.dialect q.boundValues (s.template k.dialect)
  | .mk c union ctes => by
      intro scope table s h hraw
      simp only [QuerySpec.select?, Except.bind_eq_ok, Except.pure_eq_ok] at h
      obtain ⟨clauses, hclauses, first, hfirst, rest, hrest, order, horder, rfl⟩ := h
      simp only [QuerySpec.rawFragments, List.mem_append] at hraw
      have hctes := (CteSpecs.carries ctes _ clauses hclauses fun f hf => hraw f (.inl (.inl hf))).1
      have hbody := SelectClauses.carries hfirst fun f hf => hraw f (.inl (.inr hf))
      obtain ⟨hmembers, hmembersOpen⟩ :=
        UnionSpec.carries union _ rest hrest fun f hf => hraw f (.inr hf)
      obtain ⟨hsorted, hsortedOpens⟩ :=
        OrderBy.carries_clause (OrderBy.carries_mapM (d := k.dialect) horder)
      obtain ⟨hlimit, hlimitOpens⟩ := Select.carries_limit k.dialect
        (c.limit.map UInt64.toNat) (c.offset.map UInt64.toNat)
      have hopens : Opens k.dialect first.template := opens_text (by split <;> decide)
      have hall := (((hctes.append hbody hopens).append hmembers hmembersOpen).append hsorted
        hsortedOpens).append hlimit hlimitOpens
      simpa [QuerySpec.boundValues, Select.template] using hall

/-- The SELECTs united with a query carry the values that they bind. -/
theorem UnionSpec.carries : ∀ (u : UnionSpec) (scope : Scope) (rest : List (Bool × SelectBody)),
    QuerySpec.unionMembers? k scope u = .ok rest → (∀ f ∈ u.rawFragments, Unmarked f) →
      Carries k.dialect u.boundValues (Select.restTemplate rest) ∧
        Opens k.dialect (Select.restTemplate rest)
  | .none => by
      intro scope rest h _
      cases h
      exact ⟨carries_nil, opens_nil⟩
  | .member table (.mk c union ctes) all => by
      intro scope rest h hraw
      obtain ⟨-, rfl, body, hbody, members, hmembers, rfl⟩ := QuerySpec.unionMembers?_member.mp h
      simp only [UnionSpec.rawFragments, QuerySpec.rawFragments, List.mem_append] at hraw
      have hfirst := SelectClauses.carries hbody fun f hf => hraw f (.inl (.inr hf))
      obtain ⟨hrest, hrestOpens⟩ :=
        UnionSpec.carries union _ members hmembers fun f hf => hraw f (.inr hf)
      have hkeyword : Unmarked (if all then " UNION ALL " else " UNION ") := by split <;> decide
      have hopens : opensWithoutDigit (if all then " UNION ALL " else " UNION ") = true := by
        split <;> decide
      refine ⟨?_, (opens_text hopens).append hrestOpens⟩
      exact (hfirst.text hkeyword).append hrest hrestOpens

/-- Common table expressions carry the values that they bind, where they open a statement and where
they follow another one. -/
theorem CteSpecs.carries : ∀ (cs : CteSpecs) (scope : Scope) (clauses : CteClauses),
    QuerySpec.cteClauses? k scope cs = .ok clauses → (∀ f ∈ cs.rawFragments, Unmarked f) →
      Carries k.dialect cs.boundValues (Select.withTemplate k.dialect clauses) ∧
        Carries k.dialect cs.boundValues (Select.moreCtes k.dialect clauses)
  | .nil => by
      intro scope clauses h _
      cases h
      exact ⟨carries_nil, carries_nil.text (by decide)⟩
  | .raw name fragment rest => by
      intro scope clauses h hraw
      simp only [QuerySpec.cteClauses?, Except.bind_eq_ok, Except.pure_eq_ok] at h
      obtain ⟨label, _, checked, hchecked, more, hmore, rfl⟩ := h
      simp only [CteSpecs.rawFragments, List.mem_cons] at hraw
      have hfragment : Carries k.dialect [] [.raw checked] :=
        carries_nil.raw (RawPolicy.unmarked_check hchecked (hraw _ (.inl rfl)))
      have hrest := (CteSpecs.carries rest scope more hmore fun f hf => hraw f (.inr hf)).2
      exact ⟨Select.carries_cte (by decide) hfragment hrest,
        Select.carries_cte (by decide) hfragment hrest⟩
  | .query name table query rest => by
      intro scope clauses h hraw
      simp only [QuerySpec.cteClauses?, Except.bind_eq_ok, Except.pure_eq_ok] at h
      obtain ⟨label, _, body, hbody, more, hmore, rfl⟩ := h
      simp only [CteSpecs.rawFragments, List.mem_append] at hraw
      have hquery := QuerySpec.carries query scope table body hbody fun f hf => hraw f (.inl hf)
      have hrest := (CteSpecs.carries rest scope more hmore fun f hf => hraw f (.inr hf)).2
      exact ⟨Select.carries_cte (by decide) hquery hrest,
        Select.carries_cte (by decide) hquery hrest⟩

end

/-- The parameters of a select statement are the values that its query binds, in order; each is a
scalar; and a scan of its text from left to right finds the marks of just these parameters. -/
theorem Compiler.selectScoped_binds {scope : Scope} {table : String} {q : QuerySpec} {s : Statement}
    (hraw : ∀ f ∈ q.rawFragments, Unmarked f) (h : k.selectScoped table q scope = .ok s) :
    s.params = q.boundValues ∧ (∀ v ∈ s.params, v.isScalar = true) ∧
      k.dialect.marks s.sql.toList =
        (List.range s.params.length).map fun i => k.dialect.placeholder (i + 1) := by
  obtain ⟨select, hselect, rfl⟩ := Compiler.selectScoped_eq_ok.mp h
  have hcarries := QuerySpec.carries q scope table select hselect hraw
  obtain ⟨hparams, hmarks⟩ := hcarries.statement
  rw [hparams]
  exact ⟨rfl, hcarries.scalar, hmarks⟩

/-- A query with a common table expression in front, a filtered join inside and a united query behind. -/
theorem Compiler.selectScoped_binds_nested :
    let recent := QuerySpec.ofConditions [.eq "day" (.int 7)]
    let join := (JoinSpec.ofPair .left "recent" "id" "user_id").filter (.eq "kind" (.text "web"))
    let q := ((((QuerySpec.empty.select [.raw "1"]).join join).filter (.eq "name" (.text "ada"))).unionWith
      "archive" (QuerySpec.ofConditions [.eq "id" (.int 9)]) true).withQuery "recent" "logins" recent
    let k : Compiler := ⟨.postgres, .guarded⟩
    ∃ s, k.selectScoped "users" q (fun _ => some "deleted_at") = .ok s ∧
      s.params = [.int 7, .text "web", .text "ada", .int 9] ∧
      k.dialect.marks s.sql.toList = ["$1", "$2", "$3", "$4"] := by
  intro recent join q k
  have hraw : ∀ f ∈ q.rawFragments, Unmarked f := by decide
  obtain ⟨s, hs⟩ : ∃ s, k.selectScoped "users" q (fun _ => some "deleted_at") = .ok s :=
    Except.exists_of_isOk (by decide)
  obtain ⟨hparams, -, hmarks⟩ := Compiler.selectScoped_binds hraw hs
  rw [hparams] at hmarks
  exact ⟨s, hs, hparams, hmarks.trans (by decide +kernel)⟩

end TableGate
