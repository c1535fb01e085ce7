import TableGate.Proofs.Query.JsonPath
import TableGate.Proofs.Query.Predicate
import TableGate.Proofs.Text.Blank
import TableGate.Query.Select

/-! # Selected columns and sort terms carry nothing

Raw fragments are the only places where a caller's text could bring in a mark. Paths into JSON columns
open with a dollar sign only in the dialects that do not mark parameters with it. -/

namespace TableGate

open Template

variable {d : Dialect}

/-! ## Raw fragments and numbers -/

theorem RawPolicy.unmarked_check {policy : RawPolicy} {fragment context s : String}
    (h : policy.check fragment context = .ok s) (hf : Unmarked fragment) : Unmarked s := by
  simp only [RawPolicy.check] at h
  split at h
  · cases h
  · split at h
    · cases h
    · cases h
      simp only [Unmarked, String.toList_ofList]
      exact ⟨fun hc => hf.1 (Text.mem_of_mem_trimChars hc),
        fun hc => hf.2 (Text.mem_of_mem_trimChars hc)⟩

theorem Text.unmarked_ofNat (n : ℕ) : Unmarked (Text.ofNat n) := by
  simp only [Unmarked, Text.ofNat, String.toList_ofList]
  exact ⟨fun hc => absurd (Text.isDigit_of_mem_digits hc) (by decide),
    fun hc => absurd (Text.isDigit_of_mem_digits hc) (by decide)⟩

theorem Dialect.unmarked_limitClause (d : Dialect) (limit offset : Option ℕ) :
    Unmarked (d.limitClause limit offset) := by
  have hnumber {x : String} (hx : Unmarked x) (n : ℕ) : Unmarked (x ++ Text.ofNat n) :=
    hx.append (Text.unmarked_ofNat n)
  cases limit with
  | none =>
      cases offset with
      | none => exact (by decide : Unmarked "")
      | some offset => cases d <;> exact hnumber (by decide) offset
  | some limit =>
      cases offset with
      | none => exact hnumber (by decide) limit
      | some offset => exact hnumber ((hnumber (by decide) limit).append (by decide)) offset

theorem Dialect.noDigitFirst_limitClause (d : Dialect) (limit offset : Option ℕ) :
    NoDigitFirst (d.limitClause limit offset).toList := by
  have hnumber {x : String} (hx : opensWithoutDigit x = true) (n : ℕ) :
      opensWithoutDigit (x ++ Text.ofNat n) = true := opensWithoutDigit_append hx _
  cases limit with
  | none =>
      cases offset with
      | none => exact (by simp [NoDigitFirst] : NoDigitFirst "".toList)
      | some offset => cases d <;> exact noDigitFirst_of_opens (hnumber (by decide) offset)
  | some limit =>
      cases offset with
      | none => exact noDigitFirst_of_opens (hnumber (by decide) limit)
      | some offset =>
          refine noDigitFirst_of_opens (hnumber (opensWithoutDigit_append ?_ _) offset)
          exact hnumber (by decide) limit

/-! ## Values inside JSON columns -/

theorem JsonStep.notMem_element {step : JsonStep} (h : step.IsWord) (d : Dialect) :
    d.markChar ∉ step.element.toList :=
  notMem_of_isWordChar h.isWordChar_element d

/-- A path with dots and brackets opens with a dollar sign, but holds no question mark. -/
theorem JsonStep.notMem_dollarPath {steps : List JsonStep} (h : ∀ step ∈ steps, step.IsWord) :
    '?' ∉ (JsonStep.dollarPath steps).toList := by
  simp only [toList_dollarPath, List.mem_cons, List.mem_flatMap, not_or, not_exists, not_and]
  refine ⟨by decide, fun step hstep => ?_⟩
  have helement : '?' ∉ step.element.toList := notMem_element (h step hstep) .mysql
  cases step <;> simpa [dollarStep, element] using helement

theorem JsonStep.notMem_bracePath {steps : List JsonStep} (h : ∀ step ∈ steps, step.IsWord) :
    '$' ∉ (JsonStep.bracePath steps).toList := by
  have hinner : '$' ∉ (String.intercalate "," (steps.map JsonStep.element)).toList := by
    induction steps with
    | nil => simp
    | cons step steps ih =>
        have hstep : '$' ∉ step.element.toList :=
          JsonStep.notMem_element (h step (by simp)) .postgres
        have hrest := ih fun s hs => h s (by simp [hs])
        cases steps with
        | nil => simpa using hstep
        | cons next steps => simpa [hstep] using hrest
  simpa [JsonStep.bracePath] using hinner

theorem JsonPathSpec.carries {j : JsonPathSpec} {t : Template} (h : j.template? d = .ok t) :
    Carries d [] t := by
  simp only [JsonPathSpec.template?, Except.bind_eq_ok, Except.pure_eq_ok] at h
  obtain ⟨e, he, steps, hsteps, n, _, rfl⟩ := h
  have hcolumn : Carries d [] e.template := ColumnExpr.carries he
  have hwords := JsonStep.isWord_of_pathOf? hsteps
  have hlabel : Carries d [] [.text " AS ", .name n] := carries_nil.name.text (by decide)
  refine Carries.append (?_ : Carries d [] _) hlabel (opens_text (by decide))
  cases d with
  | mysql =>
      have hpath := JsonStep.notMem_dollarPath hwords
      have hcall := (carries_nil (d := .mysql)).text (x := "))") (by decide)
      exact (hcolumn.append ((hcall.literal hpath).text (by decide)) (opens_text (by decide))).text
        (by decide)
  | sqlite =>
      have hpath := JsonStep.notMem_dollarPath hwords
      have hcall := (carries_nil (d := .sqlite)).text (x := ")") (by decide)
      exact (hcolumn.append ((hcall.literal hpath).text (by decide)) (opens_text (by decide))).text
        (by decide)
  | postgres =>
      have hpath := JsonStep.notMem_bracePath hwords
      exact hcolumn.append ((carries_nil.literal hpath).text (by decide)) (opens_text (by decide))

/-! ## Selected columns -/

theorem SelectItem.carries_aliased {t u : Template} {label : Option String} (ht : Carries d [] t)
    (h : SelectItem.aliased? t label = .ok u) : Carries d [] u := by
  cases label with
  | none =>
      simp only [SelectItem.aliased?, Except.ok.injEq] at h
      exact h ▸ ht
  | some label =>
      simp only [SelectItem.aliased?, Except.bind_eq_ok, Except.pure_eq_ok] at h
      obtain ⟨n, _, rfl⟩ := h
      exact ht.append (carries_nil.name.text (by decide)) (opens_text (by decide))

theorem SelectItem.carries_call {name : String} {t : Template} (hname : Unmarked name)
    (ht : Carries d [] t) : Carries d [] (.text name :: t ++ [.text ")"]) :=
  (ht.text hname).append (carries_nil.text (by decide)) (opens_text (by decide))

theorem SelectItem.carries {policy : RawPolicy} {item : SelectItem} {t : Template}
    (h : item.template? policy = .ok t) (hraw : ∀ f ∈ item.fragment?, Unmarked f) :
    Carries d [] t := by
  cases item with
  | column text =>
      simp only [SelectItem.template?, Except.bind_eq_ok, Except.pure_eq_ok] at h
      obtain ⟨r, hr, rfl⟩ := h
      exact Reference.carries hr
  | count argument label =>
      simp only [SelectItem.template?] at h
      split at h <;> simp only [Except.bind_eq_ok, Except.pure_eq_ok] at h
      · obtain ⟨inner, rfl, h⟩ := h
        have hstar : Carries d [] [.text "*"] := carries_nil.text (by decide)
        exact SelectItem.carries_aliased (SelectItem.carries_call (by decide) hstar) h
      · obtain ⟨e, he, inner, rfl, h⟩ := h
        exact SelectItem.carries_aliased
          (SelectItem.carries_call (by decide) (ColumnExpr.carries he)) h
  | aggregate function name label =>
      simp only [SelectItem.template?, Except.bind_eq_ok] at h
      obtain ⟨e, he, h⟩ := h
      have hname : Unmarked (function.sql ++ "(") := by cases function <;> decide
      exact SelectItem.carries_aliased (SelectItem.carries_call hname (ColumnExpr.carries he)) h
  | raw fragment =>
      simp only [SelectItem.template?, Except.bind_eq_ok, Except.pure_eq_ok] at h
      obtain ⟨s, hs, rfl⟩ := h
      exact carries_nil.raw (RawPolicy.unmarked_check hs (hraw fragment rfl))

theorem OrderBy.carries {o : OrderBy} {term : OrderTerm} (h : o.term? = .ok term) :
    Carries d [] term.template := by
  have hterm {s : String} {e : ColumnExpr} (he : ColumnExpr.of? s = .ok e) (direction : Direction) :
      Carries d [] (OrderTerm.mk e direction).template := by
    have hdirection : Unmarked (" " ++ direction.sql) := by cases direction <;> decide
    have hopens : opensWithoutDigit (" " ++ direction.sql) = true := by cases direction <;> decide
    exact (ColumnExpr.carries he).append (carries_nil.text hdirection) (opens_text hopens)
  cases o with
  | spec column direction =>
      simp only [OrderBy.term?, Except.bind_eq_ok, Except.pure_eq_ok] at h
      obtain ⟨e, he, rfl⟩ := h
      exact hterm he direction
  | text s =>
      simp only [OrderBy.term?] at h
      split at h
      · simp only [Except.bind_eq_ok, Except.pure_eq_ok] at h
        obtain ⟨e, he, rfl⟩ := h
        exact hterm he .asc
      · split at h <;> simp only [Except.bind_eq_ok, Except.pure_eq_ok, reduceCtorEq] at h
        · obtain ⟨e, he, rfl⟩ := h
          exact hterm he .asc
        · obtain ⟨e, he, rfl⟩ := h
          exact hterm he .desc
      · cases h

theorem OrderBy.carries_mapM {os : List OrderBy} {terms : List OrderTerm}
    (h : os.mapM OrderBy.term? = .ok terms) : ∀ t ∈ terms.map OrderTerm.template, Carries d [] t := by
  intro t ht
  obtain ⟨term, hterm, rfl⟩ := List.mem_map.mp ht
  obtain ⟨o, _, ho⟩ := Except.exists_of_mem_mapM h hterm
  exact OrderBy.carries ho

/-! ## Window functions -/

theorem WindowSpec.carries_argument {arg : String} {t : Template}
    (h : WindowSpec.argument? arg = .ok t) : Carries d [] t := by
  unfold WindowSpec.argument? at h
  split at h
  · cases h
    exact carries_nil.text (by decide)
  · simp only [Except.bind_eq_ok, Except.pure_eq_ok] at h
    obtain ⟨e, he, rfl⟩ := h
    exact ColumnExpr.carries he

theorem WindowSpec.carries_clause {keyword : String} (hkeyword : Unmarked keyword)
    {terms : List Template} (h : ∀ t ∈ terms, Carries d [] t) :
    ∀ t ∈ WindowSpec.clause keyword terms, Carries d [] t := by
  cases terms with
  | nil => simp [WindowSpec.clause]
  | cons first rest =>
      intro t ht
      rw [List.mem_singleton.mp ht]
      exact (Carries.joined_nil (by decide) (by decide) h).text hkeyword

theorem WindowSpec.carries {w : WindowSpec} {t : Template} (h : w.template? = .ok t) :
    Carries d [] t := by
  simp only [WindowSpec.template?, Except.bind_eq_ok, Except.pure_eq_ok] at h
  obtain ⟨function, hfunction, args, hargs, partition, hpartition, order, horder, label, _, rfl⟩ := h
  have hname : Unmarked (Text.upper w.function ++ "(") := by
    rw [← Identifier.of?_eq_ok hfunction]
    exact function.unmarked.upper.append (by decide)
  have hargs' : Carries d [] (Template.joined ", " args) := by
    refine .joined_nil (by decide) (by decide) fun t ht => ?_
    obtain ⟨arg, _, harg⟩ := Except.exists_of_mem_mapM hargs ht
    exact WindowSpec.carries_argument harg
  have hframe : Carries d [] (Template.joined " "
      (WindowSpec.clause "PARTITION BY " (partition.map ColumnExpr.template) ++
        WindowSpec.clause "ORDER BY " (order.map OrderTerm.template))) := by
    refine .joined_nil (by decide) (by decide) fun t ht => ?_
    rcases List.mem_append.mp ht with ht | ht
    · exact WindowSpec.carries_clause (by decide) (ColumnExpr.carries_mapM hpartition) t ht
    · exact WindowSpec.carries_clause (by decide) (OrderBy.carries_mapM horder) t ht
  have hend : Carries d [] [.text ") AS ", .name label] := carries_nil.name.text (by decide)
  exact ((hargs'.text hname).append (hframe.text (by decide)) (opens_text (by decide))).append hend
    (opens_text (by decide))

end TableGate
