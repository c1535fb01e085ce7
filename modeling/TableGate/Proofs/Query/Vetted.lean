import TableGate.Proofs.Query.Regular
import TableGate.Proofs.Query.Understood
import TableGate.Query.Write

/-! # Where the caller's words stand in a statement

Of the text in a select statement only the raw fragments are the caller's own, in the form in which the
policy lets them through, and what follows one of them is set off from it. A write has no such text. -/

namespace TableGate

open Template

/-- Whatever the policy makes of the fragment has the given property. -/
def RawPolicy.Admits (policy : RawPolicy) (R : String → Prop) (fragment : String) : Prop :=
  ∀ context x, policy.check fragment context = .ok x → R x

variable {R : String → Prop} {k : Compiler} {d : Dialect} {policy : RawPolicy}

/-! ## Selected columns and sort terms -/

theorem SelectItem.vetted_aliased {t u : Template} {label : Option String} (ht : Template.Plain t)
    (h : SelectItem.aliased? t label = .ok u) : Vetted R u := by
  cases label with
  | none =>
      cases h
      exact ht.vetted
  | some label =>
      simp only [SelectItem.aliased?, Except.bind_eq_ok, Except.pure_eq_ok] at h
      obtain ⟨n, -, rfl⟩ := h
      refine ht.vetted_append (Plain.vetted ?_)
      simp +decide [Piece.Plain]

theorem SelectItem.plain_call {name : String} {t : Template} (hname : Text.Plain name.toList)
    (ht : Template.Plain t) : Template.Plain (.text name :: t ++ [.text ")"]) := by
  have hclosing : Template.Plain [.text ")"] := plain_text (by decide) plain_nil
  exact plain_text hname (plain_append.mpr ⟨ht, hclosing⟩)

theorem SelectItem.vetted {item : SelectItem} {t : Template} (h : item.template? policy = .ok t)
    (hraw : ∀ f ∈ item.fragment?, policy.Admits R f) : Vetted R t := by
  cases item with
  | column text =>
      simp only [SelectItem.template?, Except.bind_eq_ok, Except.pure_eq_ok] at h
      obtain ⟨r, hr, rfl⟩ := h
      exact (Reference.plain_of_of? hr).vetted
  | count argument label =>
      simp only [SelectItem.template?] at h
      split at h <;> simp only [Except.bind_eq_ok, Except.pure_eq_ok] at h
      · obtain ⟨inner, rfl, h⟩ := h
        have hstar : Template.Plain [.text "*"] := plain_text (by decide) plain_nil
        exact SelectItem.vetted_aliased (SelectItem.plain_call (by decide) hstar) h
      · obtain ⟨e, he, inner, rfl, h⟩ := h
        exact SelectItem.vetted_aliased
          (SelectItem.plain_call (by decide) (ColumnExpr.plain_of_of? he)) h
  | aggregate function name label =>
      simp only [SelectItem.template?, Except.bind_eq_ok] at h
      obtain ⟨e, he, h⟩ := h
      have hname : Text.Plain (function.sql ++ "(").toList := by cases function <;> decide
      exact SelectItem.vetted_aliased (SelectItem.plain_call hname (ColumnExpr.plain_of_of? he)) h
  | raw fragment =>
      simp only [SelectItem.template?, Except.bind_eq_ok, Except.pure_eq_ok] at h
      obtain ⟨x, hx, rfl⟩ := h
      exact vetted_raw (hraw fragment rfl _ x hx)

theorem OrderBy.plain {o : OrderBy} {term : OrderTerm} (h : o.term? = .ok term) :
    term.template.Plain := by
  have hterm {s : String} {e : ColumnExpr} (he : ColumnExpr.of? s = .ok e) (direction : Direction) :
      (OrderTerm.mk e direction).template.Plain := by
    have hdirection : Text.Plain (" " ++ direction.sql).toList := by cases direction <;> decide
    exact plain_append.mpr ⟨ColumnExpr.plain_of_of? he, plain_text hdirection plain_nil⟩
  cases o with
  | spec column direction =>
      simp only [OrderBy.term?, Except.bind_eq_ok, Except.pure_eq_ok] at h
      obtain ⟨e, he, rfl⟩ := h
      exact hterm he direction
  | text s =>
      simp only [OrderBy.term?] at h
      split at h
      · simp only [Except.bind_eq_ok, Except.pure_eq_ok] at h
        obtain ⟨e, he, rfl⟩ := h
        exact hterm he .asc
      · split at h <;> simp only [Except.bind_eq_ok, Except.pure_eq_ok, reduceCtorEq] at h
        · obtain ⟨e, he, rfl⟩ := h
          exact hterm he .asc
        · obtain ⟨e, he, rfl⟩ := h
          exact hterm he .desc
      · cases h

theorem OrderBy.plain_mapM {os : List OrderBy} {terms : List OrderTerm}
    (h : os.mapM OrderBy.term? = .ok terms) : ∀ t ∈ terms.map OrderTerm.template, Template.Plain t := by
  intro t ht
  obtain ⟨term, hterm, rfl⟩ := List.mem_map.mp ht
  obtain ⟨o, -, ho⟩ := Except.exists_of_mem_mapM h hterm
  exact OrderBy.plain ho

theorem WindowSpec.plain_argument {arg : String} {t : Template} (h : WindowSpec.argument? arg = .ok t) :
    Template.Plain t := by
  unfold WindowSpec.argument? at h
  split at h
  · cases h
    exact plain_text (by decide) plain_nil
  · simp only [Except.bind_eq_ok, Except.pure_eq_ok] at h
    obtain ⟨e, he, rfl⟩ := h
    exact ColumnExpr.plain_of_of? he

theorem WindowSpec.plain_clause {keyword : String} (hkeyword : Text.Plain keyword.toList)
    {terms : List Template} (h : ∀ t ∈ terms, Template.Plain t) :
    ∀ t ∈ WindowSpec.clause keyword terms, Template.Plain t := by
  cases terms with
  | nil => simp [WindowSpec.clause]
  | cons first rest =>
      intro t ht
      rw [List.mem_singleton.mp ht]
      exact plain_text hkeyword (plain_joined (by decide) h)

/-- The name of a window function is an identifier, in upper case. -/
theorem Identifier.plain_upper (n : Identifier) : Text.Plain (Text.upper n.text).toList := by
  refine Text.plain_of_forall fun c hc => ?_
  simp only [Text.upper, String.toList_ofList, List.mem_map] at hc
  obtain ⟨b, hb, rfl⟩ := hc
  exact Text.isPlainChar_of_isWordChar (Text.isWordChar_toUpper (n.isWordChar_of_mem hb))

theorem WindowSpec.plain {w : WindowSpec} {t : Template} (h : w.template? = .ok t) :
    Template.Plain t := by
  simp only [WindowSpec.template?, Except.bind_eq_ok, Except.pure_eq_ok] at h
  obtain ⟨function, hfunction, args, hargs, partition, hpartition, order, horder, label, -, rfl⟩ := h
  have hname : Text.Plain ((Text.upper w.function).toList ++ ['(']) := by
    rw [← Identifier.of?_eq_ok hfunction]
    exact function.plain_upper.append (by decide)
  have hargs' : Template.Plain (Template.joined ", " args) := by
    refine plain_joined (by decide) fun t ht => ?_
    obtain ⟨arg, -, harg⟩ := Except.exists_of_mem_mapM hargs ht
    exact WindowSpec.plain_argument harg
  have hframe : Template.Plain (Template.joined " "
      (WindowSpec.clause "PARTITION BY " (partition.map ColumnExpr.template) ++
        WindowSpec.clause "ORDER BY " (order.map OrderTerm.template))) := by
    refine plain_joined (by decide) fun t ht => ?_
    rcases List.mem_append.mp ht with ht | ht
    · exact WindowSpec.plain_clause (by decide) (ColumnExpr.plain_mapM hpartition) t ht
    · exact WindowSpec.plain_clause (by decide) (OrderBy.plain_mapM horder) t ht
  simp +decide [Piece.Plain, hname, hargs', hframe]

theorem JsonPathSpec.plain {j : JsonPathSpec} {t : Template} (h : j.template? d = .ok t) :
    Template.Plain t := by
  simp only [JsonPathSpec.template?, Except.bind_eq_ok, Except.pure_eq_ok] at h
  obtain ⟨e, he, steps, hsteps, n, -, rfl⟩ := h
  have hdollar : JsonStep.IsPathText (JsonStep.dollarPath steps) := ⟨j.path, steps, hsteps, .inl rfl⟩
  have hbrace : JsonStep.IsPathText (JsonStep.bracePath steps) := ⟨j.path, steps, hsteps, .inr rfl⟩
  cases d <;> simp +decide [Piece.Plain, ColumnExpr.plain_of_of? he, hdollar, hbrace]

/-! ## A single SELECT -/

theorem SelectClauses.vetted_columns {c : SelectClauses} {columns : List Template}
    (h : c.columns? k = .ok columns)
    (hraw : ∀ f ∈ c.select.filterMap SelectItem.fragment?, k.policy.Admits R f) :
    ∀ t ∈ columns, Vetted R t := by
  simp only [SelectClauses.columns?, Except.bind_eq_ok, Except.pure_eq_ok] at h
  obtain ⟨items, hitems, windows, hwindows, json, hjson, rfl⟩ := h
  intro t ht
  rcases List.mem_append.mp ht with ht | ht
  · rcases List.mem_append.mp ht with ht | ht
    · split at ht
      · rw [List.mem_singleton.mp ht]
        exact (plain_text (by decide) plain_nil).vetted
      · obtain ⟨item, hmem, hitem⟩ := Except.exists_of_mem_mapM hitems ht
        exact SelectItem.vetted hitem fun f hf => hraw f (List.mem_filterMap.mpr ⟨item, hmem, hf⟩)
    · obtain ⟨w, -, hw⟩ := Except.exists_of_mem_mapM hwindows ht
      exact (WindowSpec.plain hw).vetted
  · obtain ⟨j, -, hj⟩ := Except.exists_of_mem_mapM hjson ht
    exact (JsonPathSpec.plain hj).vetted

theorem Having.vetted {having : Option Having} {clause : HavingClause}
    (h : Having.clause? policy having = .ok clause)
    (hraw : ∀ f ∈ Having.fragment? having, policy.Admits R f) : Vetted R clause.template := by
  unfold Having.clause? at h
  split at h
  · simp only [Except.bind_eq_ok, Except.pure_eq_ok] at h
    obtain ⟨x, hx, rfl⟩ := h
    exact vetted_cons (by simp +decide [Piece.Plain]) (vetted_raw (hraw _ rfl _ x hx))
  · cases h
    trivial
  · simp only [Except.bind_eq_ok, Except.pure_eq_ok] at h
    obtain ⟨chain, hchain, rfl⟩ := h
    exact (plain_text (by decide) (Predicate.plain_chain chain (Condition.regular_of_chain? hchain))).vetted
  · cases h
    trivial

/-- The filter of a SELECT that was understood is made of regular atoms. -/
theorem SelectClauses.regular_of_body? {scope : Scope} {table : String} {c : SelectClauses}
    {body : SelectBody} (h : c.body? k scope table = .ok body) :
    Chain.Regular body.filter.given ∧ ∀ a ∈ body.filter.also, a.Regular := by
  simp only [SelectClauses.body?, Except.bind_eq_ok, Except.pure_eq_ok] at h
  obtain ⟨columns, -, source, -, joins, hjoins, given, hgiven, search, hsearch, test, htest, groupBy, -,
    having, -, rfl⟩ := h
  refine ⟨Condition.regular_of_chain? hgiven, fun a ha => ?_⟩
  simp only [List.mem_append, Option.mem_toList] at ha
  rcases ha with (ha | ha) | ha
  · exact SelectClauses.regular_of_search? hsearch a ha
  · exact Scope.regular_of_sourceTest? htest a ha
  · obtain ⟨⟨clause, cross⟩, hmem, ha⟩ := List.mem_filterMap.mp ha
    obtain ⟨j, -, hj⟩ := Except.exists_of_mem_mapM hjoins hmem
    exact (JoinSpec.plain_of_clause? hj).2 a ha

theorem SelectClauses.vetted {scope : Scope} {table : String} {c : SelectClauses} {body : SelectBody}
    (h : c.body? k scope table = .ok body) (hraw : ∀ f ∈ c.rawFragments, k.policy.Admits R f) :
    Vetted R body.template := by
  have hregular := SelectClauses.regular_of_body? h
  simp only [SelectClauses.body?, Except.bind_eq_ok, Except.pure_eq_ok] at h
  obtain ⟨columns, hcolumns, source, hsource, joins, hjoins, given, -, search, -, test, -, groupBy,
    hgroupBy, having, hhaving, rfl⟩ := h
  have hkeyword : Text.Plain (if c.distinct then "SELECT DISTINCT " else "SELECT ").toList := by
    split <;> decide
  have hcolumns' := SelectClauses.vetted_columns hcolumns fun f hf => hraw f (by simp [rawFragments, hf])
  have hjoined : Template.Plain (SelectBody.joinTemplates (joins.map (·.1))) := by
    refine plain_flatMap fun j hj => plain_text (by decide) ?_
    obtain ⟨⟨clause, test⟩, hmem, rfl⟩ := List.mem_map.mp hj
    obtain ⟨j, -, hj⟩ := Except.exists_of_mem_mapM hjoins hmem
    exact (JoinSpec.plain_of_clause? hj).1
  have hgroup : Template.Plain (SelectBody.groupTemplate groupBy) := by
    unfold SelectBody.groupTemplate
    split
    · exact plain_nil
    · exact plain_text (by decide) (plain_joined (by decide) (ColumnExpr.plain_mapM hgroupBy))
  have hgroups := Having.vetted (R := R) hhaving fun f hf =>
    hraw f (List.mem_append_right _ (Option.mem_toList.mpr hf))
  -- the fragments are among the columns and at the very end
  have hlist : Vetted R (Template.joined ", " columns) := vetted_joined (by decide) (by decide) hcolumns'
  have hselected := vetted_cons (R := R) (p := .text _) hkeyword hlist
  have hrest := Plain.vetted_append (plain_text (x := " FROM ") (by decide) (plain_append.mpr
    ⟨plain_append.mpr ⟨plain_append.mpr ⟨Reference.plain_of_of? hsource, hjoined⟩,
      Filter.plain hregular.1 hregular.2⟩, hgroup⟩)) hgroups
  simpa [SelectBody.template] using hselected.append hrest (setOff_text (by decide) _)

/-! ## Queries of any nesting -/

theorem Dialect.plain_limitClause (d : Dialect) (limit offset : Option ℕ) :
    Text.Plain (d.limitClause limit offset).toList := by
  have hnumber {x : String} (hx : Text.Plain x.toList) (n : ℕ) : Text.Plain (x ++ Text.ofNat n).toList := by
    rw [String.toList_append]
    exact hx.append (Text.plain_ofNat n)
  cases limit with
  | none =>
      cases offset with
      | none => exact (by decide : Text.Plain "".toList)
      | some offset => cases d <;> exact hnumber (by decide) offset
  | some limit =>
      cases offset with
      | none => exact hnumber (by decide) limit
      | some offset =>
          have hlimit := hnumber (x := " LIMIT ") (by decide) limit
          refine hnumber ?_ offset
          rw [String.toList_append]
          exact hlimit.append (by decide)

theorem Dialect.setOff_limitClause (d : Dialect) (limit offset : Option ℕ) :
    SetOff [.text (d.limitClause limit offset)] := by
  have hset {x : String} (hx : isSetOff x = true) (y : String) : isSetOff (x ++ y) = true := by
    cases hchars : x.toList with
    | nil => simp [isSetOff, hchars] at hx
    | cons c cs => simpa [isSetOff, hchars] using hx
  cases limit with
  | none =>
      cases offset with
      | none => exact .inr ⟨rfl, trivial⟩
      | some offset => cases d <;> exact .inl (hset (by decide) _)
  | some limit =>
      cases offset with
      | none => exact .inl (hset (by decide) _)
      | some offset => exact .inl (hset (hset (hset (by decide) _) _) _)

theorem OrderBy.plain_clause {os : List OrderBy} {terms : List OrderTerm}
    (h : os.mapM OrderBy.term? = .ok terms) :
    Template.Plain (Select.orderTemplate terms) ∧ SetOff (Select.orderTemplate terms) := by
  have hterms := OrderBy.plain_mapM h
  unfold Select.orderTemplate
  split
  · exact ⟨plain_nil, trivial⟩
  · exact ⟨plain_text (by decide) (plain_joined (by decide) hterms), setOff_text (by decide) _⟩

/-- A common table expression in front of the rest of the statement. -/
theorem Select.vetted_cte (keyword : String) (name : Identifier) {body rest : Template}
    (hkeyword : Text.Plain keyword.toList) (hbody : Vetted R body) (hrest : Vetted R rest) :
    Vetted R (.text keyword :: .name name :: .text " AS (" :: body ++ .text ")" :: rest) := by
  have hclosing : Vetted R (.text ")" :: rest) := vetted_cons (by simp +decide [Piece.Plain]) hrest
  have hopened : Template.Plain [.text keyword, .name name, .text " AS ("] := by
    refine plain_text hkeyword ?_
    simp +decide [Piece.Plain]
  exact hopened.vetted_append (hbody.append hclosing (setOff_text (by decide) _))

mutual

/-- The template of a query that was understood. -/
theorem QuerySpec.vetted : ∀ (q : QuerySpec) (scope : Scope) (table : String) (s : Select),
    q.select? k scope table = .ok s → (∀ f ∈ q.rawFragments, k.policy.Admits R f) →
      Vetted R (s.template k.dialect)
  | .mk c union ctes => by
      intro scope table s h hraw
      simp only [QuerySpec.select?, Except.bind_eq_ok, Except.pure_eq_ok] at h
      obtain ⟨clauses, hclauses, first, hfirst, rest, hrest, order, horder, rfl⟩ := h
      simp only [QuerySpec.rawFragments, List.mem_append] at hraw
      have hbody := SelectClauses.vetted (R := R) hfirst fun f hf => hraw f (.inl (.inr hf))
      obtain ⟨hmembers, hmembersSet⟩ :=
        UnionSpec.vetted union _ rest hrest fun f hf => hraw f (.inr hf)
      obtain ⟨hsorted, hsortedSet⟩ := OrderBy.plain_clause horder
      have hlimit : Vetted R [.text (k.dialect.limitClause (c.limit.map UInt64.toNat)
          (c.offset.map UInt64.toNat))] :=
        (plain_text (k.dialect.plain_limitClause _ _) plain_nil).vetted
      have hlimitSet := k.dialect.setOff_limitClause (c.limit.map UInt64.toNat) (c.offset.map UInt64.toNat)
      have hselect := ((hbody.append hmembers hmembersSet).append hsorted.vetted hsortedSet).append hlimit
        hlimitSet
      have hall := (CteSpecs.vetted ctes _ clauses hclauses
        (fun f hf => hraw f (.inl (.inl hf))) _ hselect).1
      simpa [Select.template] using hall

theorem UnionSpec.vetted : ∀ (u : UnionSpec) (scope : Scope) (rest : List (Bool × SelectBody)),
    QuerySpec.unionMembers? k scope u = .ok rest → (∀ f ∈ u.rawFragments, k.policy.Admits R f) →
      Vetted R (Select.restTemplate rest) ∧ SetOff (Select.restTemplate rest)
  | .none => by
      intro scope rest h _
      cases h
      exact ⟨trivial, trivial⟩
  | .member table (.mk c union ctes) all => by
      intro scope rest h hraw
      obtain ⟨-, rfl, body, hbody, members, hmembers, rfl⟩ := QuerySpec.unionMembers?_member.mp h
      simp only [UnionSpec.rawFragments, QuerySpec.rawFragments, List.mem_append] at hraw
      have hfirst := SelectClauses.vetted (R := R) hbody fun f hf => hraw f (.inl (.inr hf))
      obtain ⟨hrest, hrestSet⟩ :=
        UnionSpec.vetted union _ members hmembers fun f hf => hraw f (.inr hf)
      have hkeyword : Text.Plain (if all then " UNION ALL " else " UNION ").toList := by split <;> decide
      have hset : isSetOff (if all then " UNION ALL " else " UNION ") = true := by split <;> decide
      exact ⟨vetted_cons hkeyword (hfirst.append hrest hrestSet), setOff_text hset _⟩

/-- Common table expressions in front of the rest of a statement, where they open it and where they
follow another one. -/
theorem CteSpecs.vetted : ∀ (cs : CteSpecs) (scope : Scope) (clauses : CteClauses),
    QuerySpec.cteClauses? k scope cs = .ok clauses → (∀ f ∈ cs.rawFragments, k.policy.Admits R f) →
      ∀ rest, Vetted R rest →
        Vetted R (Select.withTemplate k.dialect clauses ++ rest) ∧
          Vetted R (Select.moreCtes k.dialect clauses ++ rest)
  | .nil => by
      intro scope clauses h _ rest hrest
      cases h
      exact ⟨hrest, vetted_cons (by simp +decide [Piece.Plain]) hrest⟩
  | .raw name fragment more => by
      intro scope clauses h hraw rest hrest
      simp only [QuerySpec.cteClauses?, Except.bind_eq_ok, Except.pure_eq_ok] at h
      obtain ⟨label, -, x, hx, clauses, hclauses, rfl⟩ := h
      simp only [CteSpecs.rawFragments, List.mem_cons] at hraw
      have hfragment : Vetted R [.raw x] := vetted_raw (hraw _ (.inl rfl) _ x hx)
      have hmore := (CteSpecs.vetted more scope clauses hclauses (fun f hf => hraw f (.inr hf)) rest hrest).2
      exact ⟨Select.vetted_cte "WITH " label (by decide) hfragment hmore,
        Select.vetted_cte ", " label (by decide) hfragment hmore⟩
  | .query name table query more => by
      intro scope clauses h hraw rest hrest
      simp only [QuerySpec.cteClauses?, Except.bind_eq_ok, Except.pure_eq_ok] at h
      obtain ⟨label, -, body, hbody, clauses, hclauses, rfl⟩ := h
      simp only [CteSpecs.rawFragments, List.mem_append] at hraw
      have hquery := QuerySpec.vetted query scope table body hbody fun f hf => hraw f (.inl hf)
      have hmore := (CteSpecs.vetted more scope clauses hclauses (fun f hf => hraw f (.inr hf)) rest hrest).2
      constructor
      · simpa [Select.withTemplate] using Select.vetted_cte "WITH " label (by decide) hquery hmore
      · simpa [Select.moreCtes] using Select.vetted_cte ", " label (by decide) hquery hmore

end

end TableGate
