import TableGate.Proofs.Query.SelectedColumns

/-! # What the clauses of a SELECT carry

The joins, the filter and the condition on the groups carry the values that their parts of the query
bind; the tests for soft deletion carry nothing. -/

namespace TableGate

open Template

variable {d : Dialect} {k : Compiler} {scope : Scope}

/-! ## Parts with a text between them -/

/-- Each of the templates carries values; in a row they are the given ones. -/
def CarryAll (d : Dialect) (vs : List Value) (ts : List Template) : Prop :=
  ∃ vss : List (List Value), vss.flatten = vs ∧ List.Forall₂ (Carries d) vss ts

theorem CarryAll.nil : CarryAll d [] [] :=
  ⟨[], rfl, .nil⟩

theorem CarryAll.single {vs : List Value} {t : Template} (h : Carries d vs t) : CarryAll d vs [t] :=
  ⟨[vs], by simp, .cons h .nil⟩

theorem CarryAll.append {vs ws : List Value} {ts us : List Template} (hts : CarryAll d vs ts)
    (hus : CarryAll d ws us) : CarryAll d (vs ++ ws) (ts ++ us) := by
  obtain ⟨vss, rfl, hvss⟩ := hts
  obtain ⟨wss, rfl, hwss⟩ := hus
  exact ⟨vss ++ wss, by simp, List.rel_append hvss hwss⟩

theorem CarryAll.joined {vs : List Value} {ts : List Template} (h : CarryAll d vs ts) {x : String}
    (hx : Unmarked x) (ho : opensWithoutDigit x = true) : Carries d vs (Template.joined x ts) := by
  obtain ⟨vss, rfl, hvss⟩ := h
  exact Carries.joined hx ho hvss

theorem Carries.parenthesized {vs : List Value} {t : Template} (h : Carries d vs t) :
    Carries d vs t.parenthesized := by
  have hclosed := h.append (carries_nil.text (x := ")") (by decide)) (opens_text (by decide))
  simpa [Template.parenthesized] using hclosed.text (x := "(") (by decide)

theorem Chain.carries_enclosed {vs : List Value} {chain : Chain}
    (h : Carries d vs (Predicate.chainTemplate chain)) (wrapped : Bool) :
    Carries d vs (Chain.enclosed chain wrapped) := by
  unfold Chain.enclosed
  split
  · exact Carries.parenthesized h
  · exact h

/-- A chain of conditions as a part of a clause, from which it is left out when it is empty. -/
theorem Chain.carryAll (mode : ValueMode) {cs : List Condition} {chain : Chain}
    (h : Condition.chain? mode cs = .ok chain) (wrapped : Bool) :
    CarryAll d (mode.bound (Condition.boundValuesOf cs))
      (if chain.isEmpty then [] else [Chain.enclosed chain wrapped]) := by
  split
  · rename_i hempty
    rw [Condition.boundValuesOf_eq_nil h hempty, ValueMode.bound_nil]
    exact .nil
  · exact .single (Chain.carries_enclosed (Condition.carries_chain cs chain h).1 wrapped)

/-! ## Tests for soft deletion and searches -/

theorem Atom.carries_notDeleted {r : Reference} (h : Carries d [] r.template) :
    Carries d [] (Atom.notDeleted r).template :=
  h.append (carries_nil.text (by decide)) (opens_text (by decide))

theorem Scope.carries_joinTest {table : String} {test : Option Atom}
    (h : scope.joinTest? table = .ok test) : ∀ a ∈ test, Carries d [] a.template := by
  unfold Scope.joinTest? at h
  split at h
  · simp only [Except.map_eq_ok, Scope.qualifiedTest?] at h
    obtain ⟨a, ⟨r, hr, rfl⟩, rfl⟩ := h
    simpa using Atom.carries_notDeleted (Reference.carries hr)
  · cases h
    simp

theorem Scope.carries_sourceTest {table : String} {joined : Bool} {test : Option Atom}
    (h : scope.sourceTest? table joined = .ok test) : ∀ a ∈ test, Carries d [] a.template := by
  unfold Scope.sourceTest? at h
  split at h
  · split at h
    · simp only [Except.map_eq_ok, Scope.qualifiedTest?] at h
      obtain ⟨a, ⟨r, hr, rfl⟩, rfl⟩ := h
      simpa using Atom.carries_notDeleted (Reference.carries hr)
    · obtain ⟨n, _, rfl⟩ := Except.map_eq_ok.mp h
      simpa using Atom.carries_notDeleted (r := ⟨.ofName n, Option.none⟩) (ColumnExpr.carries_ofName n)
  · cases h
    simp

theorem Atom.carries_columns {es : List ColumnExpr}
    (h : ∀ t ∈ es.map ColumnExpr.template, Carries d [] t) :
    Carries d [] (Atom.columnTemplates es) :=
  .joined_nil (by decide) (by decide) h

theorem Atom.carries_document {es : List ColumnExpr}
    (h : ∀ t ∈ es.map ColumnExpr.template, Carries d [] t) : Carries d [] (Atom.document es) := by
  unfold Atom.document
  split
  · exact h _ (by simp)
  · have hspace : d.markChar ∉ " ".toList := by cases d <;> decide
    have hend := (Atom.carries_columns h).append (carries_nil.text (x := ")") (by decide))
      (opens_text (by decide))
    simpa using ((hend.text (x := ", ") (by decide)).literal hspace).text (x := "concat_ws(") (by decide)

theorem Atom.carries_search {form : SearchForm} {es : List ColumnExpr} {term : String}
    (h : ∀ t ∈ es.map ColumnExpr.template, Carries d [] t) :
    Carries d [.text term] (Atom.search form es term).template := by
  have hparam {x : String} (hx : Unmarked x) (ho : opensWithoutDigit x = true) :
      Carries d [.text term] [.param (.text term), .text x] :=
    (carries_nil.text hx).param rfl (opens_text ho)
  cases form with
  | matchBoolean =>
      exact ((Atom.carries_columns h).text (by decide)).append
        ((hparam (by decide) (by decide)).text (by decide)) (opens_text (by decide))
  | matchNatural =>
      exact ((Atom.carries_columns h).text (by decide)).append
        ((hparam (by decide) (by decide)).text (by decide)) (opens_text (by decide))
  | textVector =>
      exact ((Atom.carries_document h).text (by decide)).append
        ((hparam (by decide) (by decide)).text (by decide)) (opens_text (by decide))

theorem FullTextSpec.carries {f : FullTextSpec} {a : Atom} (h : f.atom? d = .ok a) :
    Carries d [.text f.term] a.template := by
  unfold FullTextSpec.atom? at h
  split at h
  · cases h
  · cases d with
    | sqlite => cases h
    | mysql =>
        simp only [Except.bind_eq_ok, Except.pure_eq_ok] at h
        obtain ⟨es, hes, rfl⟩ := h
        exact Atom.carries_search (ColumnExpr.carries_mapM hes)
    | postgres =>
        simp only [Except.bind_eq_ok, Except.pure_eq_ok] at h
        obtain ⟨es, hes, rfl⟩ := h
        exact Atom.carries_search (ColumnExpr.carries_mapM hes)

/-! ## Clauses -/

theorem JoinClause.carries_condition {vs ws : List Value} {compared filters : Chain}
    {test : Option Atom}
    (hcompared : ∀ wrapped, CarryAll d vs
      (if compared.isEmpty then [] else [Chain.enclosed compared wrapped]))
    (hfilters : CarryAll d ws (if filters.isEmpty then [] else [Chain.enclosed filters true]))
    (htest : ∀ a ∈ test, Carries d [] a.template) :
    Carries d (vs ++ ws) (JoinClause.condition compared filters test) := by
  have hparts := (hcompared (!filters.isEmpty)).append hfilters
  unfold JoinClause.condition
  cases test with
  | none => simpa using hparts.joined (x := " AND ") (by decide) (by decide)
  | some a =>
      have htested := hparts.append (.single (htest a rfl))
      rw [List.append_nil] at htested
      exact htested.joined (by decide) (by decide)

theorem JoinSpec.carries_compared {on : Option JoinOn} {chain : Chain}
    (h : JoinSpec.comparedChain? on = .ok chain) (wrapped : Bool) :
    CarryAll d [] (if chain.isEmpty then [] else [Chain.enclosed chain wrapped]) := by
  cases on with
  | none =>
      cases h
      exact .nil
  | some on =>
      cases on with
      | conditions items => exact Chain.carryAll .column h wrapped
      | pair left right =>
          simp only [JoinSpec.comparedChain?, Except.bind_eq_ok, Except.pure_eq_ok] at h
          obtain ⟨l, hl, r, hr, rfl⟩ := h
          have hatom := Atom.carries_compare (d := d) (ColumnExpr.carries hl) .eq
            (o := .column r) (ColumnExpr.carries hr)
          refine .single (Chain.carries_enclosed ?_ wrapped)
          simpa [Predicate.chainTemplate, Predicate.restTemplate, Predicate.template] using hatom

theorem JoinSpec.carries {j : JoinSpec} {clause : JoinClause} {test : Option Atom}
    (h : j.clause? scope = .ok (clause, test)) :
    Carries d (Condition.boundValuesOf j.filters) clause.template ∧
      ∀ a ∈ test, Carries d [] a.template := by
  simp only [JoinSpec.clause?, Except.bind_eq_ok] at h
  obtain ⟨joinTest, htest, r, hr, h⟩ := h
  have hatoms := Scope.carries_joinTest (d := d) htest
  have htable : Carries d [] r.template := Reference.carries hr
  split at h
  · split at h
    · cases h
    · rename_i hbare
      cases h
      have hfilters : j.filters = [] := by
        simp only [Bool.or_eq_true, not_or, Bool.not_eq_true', Bool.not_eq_false,
          List.isEmpty_iff] at hbare
        exact hbare.2
      rw [hfilters]
      exact ⟨htable.text (by decide), hatoms⟩
  · simp only [Except.bind_eq_ok] at h
    obtain ⟨compared, hcompared, filters, hfilters, h⟩ := h
    split at h
    · cases h
    · cases h
      refine ⟨?_, by simp⟩
      have hkind : Unmarked (j.joinType.sql ++ " ") := by cases j.joinType <;> decide
      have hcondition := JoinClause.carries_condition (d := d) (JoinSpec.carries_compared hcompared)
        (Chain.carryAll .parameter hfilters true) hatoms
      exact (htable.text hkind).append (hcondition.text (x := " ON ") (by decide))
        (opens_text (by decide))

/-- The joins of a SELECT, and the tests that they hand on to its filter. -/
theorem JoinSpec.carries_mapM {js : List JoinSpec} {parts : List (JoinClause × Option Atom)}
    (h : js.mapM (JoinSpec.clause? scope) = .ok parts) :
    Carries d (js.flatMap fun j => Condition.boundValuesOf j.filters)
        (SelectBody.joinTemplates (parts.map (·.1))) ∧
      Opens d (SelectBody.joinTemplates (parts.map (·.1))) ∧
      CarryAll d [] ((parts.filterMap (·.2)).map Atom.template) := by
  have hall := Except.mapM_eq_ok.mp h
  clear h
  induction hall with
  | nil => exact ⟨carries_nil, opens_nil, .nil⟩
  | @cons j part js parts hpart _ ih =>
      obtain ⟨clause, test⟩ := part
      obtain ⟨hclause, htest⟩ := JoinSpec.carries (d := d) hpart
      obtain ⟨hrest, hopens, htests⟩ := ih
      refine ⟨?_, ?_, ?_⟩
      · exact (hclause.text (x := " ") (by decide)).append hrest hopens
      · exact (opens_text (x := " ") (by decide)).append hopens
      · cases test with
        | none => simpa using htests
        | some a => exact (CarryAll.single (htest a rfl)).append htests

theorem Filter.carries {vs ws : List Value} {f : Filter}
    (hgiven : ∀ wrapped, CarryAll d vs
      (if f.given.isEmpty then [] else [Chain.enclosed f.given wrapped]))
    (halso : CarryAll d ws (f.also.map Atom.template)) :
    Carries d (vs ++ ws) f.template ∧ Opens d f.template := by
  have hparts : CarryAll d (vs ++ ws) f.parts := (hgiven _).append halso
  unfold Filter.template
  split
  · rename_i hempty
    obtain ⟨vss, hflat, hall⟩ := hempty ▸ hparts
    cases hall
    rw [← hflat]
    exact ⟨carries_nil, opens_nil⟩
  · exact ⟨(hparts.joined (by decide) (by decide)).text (by decide), opens_text (by decide)⟩

theorem Having.carries {policy : RawPolicy} {having : Option Having} {clause : HavingClause}
    (h : Having.clause? policy having = .ok clause)
    (hraw : ∀ f ∈ Having.fragment? having, Unmarked f) :
    Carries d (Having.boundValues having) clause.template ∧ Opens d clause.template := by
  unfold Having.clause? at h
  split at h
  · simp only [Except.bind_eq_ok, Except.pure_eq_ok] at h
    obtain ⟨s, hs, rfl⟩ := h
    have hfragment := (carries_nil (d := d)).raw (RawPolicy.unmarked_check hs (hraw _ rfl))
    exact ⟨hfragment.text (by decide), opens_text (by decide)⟩
  · cases h
    exact ⟨carries_nil, opens_nil⟩
  · simp only [Except.bind_eq_ok, Except.pure_eq_ok] at h
    obtain ⟨chain, hchain, rfl⟩ := h
    have hvalues := (Condition.carries_chain (d := d) _ chain hchain).1
    exact ⟨hvalues.text (by decide), opens_text (by decide)⟩
  · cases h
    exact ⟨carries_nil, opens_nil⟩

theorem SelectBody.carries_group {es : List ColumnExpr}
    (h : ∀ t ∈ es.map ColumnExpr.template, Carries d [] t) :
    Carries d [] (SelectBody.groupTemplate es) ∧ Opens d (SelectBody.groupTemplate es) := by
  unfold SelectBody.groupTemplate
  split
  · exact ⟨carries_nil, opens_nil⟩
  · exact ⟨(Carries.joined_nil (by decide) (by decide) h).text (by decide), opens_text (by decide)⟩

theorem SelectClauses.carries_columns {c : SelectClauses} {columns : List Template}
    (h : c.columns? k = .ok columns)
    (hraw : ∀ f ∈ c.select.filterMap SelectItem.fragment?, Unmarked f) :
    ∀ t ∈ columns, Carries k.dialect [] t := by
  simp only [SelectClauses.columns?, Except.bind_eq_ok, Except.pure_eq_ok] at h
  obtain ⟨items, hitems, windows, hwindows, json, hjson, rfl⟩ := h
  intro t ht
  rcases List.mem_append.mp ht with ht | ht
  · rcases List.mem_append.mp ht with ht | ht
    · split at ht
      · rw [List.mem_singleton.mp ht]
        exact carries_nil.text (by decide)
      · obtain ⟨item, hmem, hitem⟩ := Except.exists_of_mem_mapM hitems ht
        exact SelectItem.carries hitem fun f hf => hraw f (List.mem_filterMap.mpr ⟨item, hmem, hf⟩)
    · obtain ⟨w, _, hw⟩ := Except.exists_of_mem_mapM hwindows ht
      exact WindowSpec.carries hw
  · obtain ⟨j, _, hj⟩ := Except.exists_of_mem_mapM hjson ht
    exact JsonPathSpec.carries hj

theorem SelectClauses.carries_search {c : SelectClauses} {search : Option Atom}
    (h : c.search? d = .ok search) :
    CarryAll d (c.fullText.map fun f => Value.text f.term).toList
      (search.toList.map Atom.template) := by
  unfold SelectClauses.search? at h
  split at h
  · rename_i f hf
    obtain ⟨a, ha, rfl⟩ := Except.map_eq_ok.mp h
    rw [hf]
    exact .single (FullTextSpec.carries ha)
  · rename_i hnone
    cases h
    rw [hnone]
    exact .nil

theorem Scope.carryAll_test {test : Option Atom} (h : ∀ a ∈ test, Carries d [] a.template) :
    CarryAll d [] (test.toList.map Atom.template) := by
  cases test with
  | none => exact .nil
  | some a => exact .single (h a rfl)

end TableGate
