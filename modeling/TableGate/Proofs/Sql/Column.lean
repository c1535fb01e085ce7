import TableGate.Proofs.Sql.Rendering
import TableGate.Proofs.Text.Ascii
import TableGate.Proofs.Text.Pieces
import TableGate.Sql.Column

/-! # References to columns and tables carry nothing

Neither a path nor a call of an aggregate function holds the mark of a parameter. -/

namespace TableGate

open Template

variable {d : Dialect}

theorem Unmarked.upper {s : String} (h : Unmarked s) : Unmarked (Text.upper s) :=
  ⟨fun hmem => h.1 (Text.mem_of_mem_upper (by decide) hmem),
    fun hmem => h.2 (Text.mem_of_mem_upper (by decide) hmem)⟩

theorem Identifier.unmarked (n : Identifier) : Unmarked n.text :=
  ⟨notMem_of_isWordChar (fun _ hc => n.isWordChar_of_mem hc) .postgres,
    notMem_of_isWordChar (fun _ hc => n.isWordChar_of_mem hc) .mysql⟩

/-- An identifier that was understood is the text that it was understood from. -/
theorem Identifier.of?_eq_ok {s : String} {n : Identifier} (h : Identifier.of? s = .ok n) :
    n.text = s := by
  unfold Identifier.of? at h
  split at h
  · cases h
    rfl
  · cases h

theorem Identifier.of?_text (n : Identifier) : Identifier.of? n.text = .ok n :=
  dif_pos n.valid

theorem Identifier.text_injective : Function.Injective Identifier.text := by
  rintro ⟨_, _⟩ ⟨_, _⟩ rfl
  rfl

/-- The texts that are understood as identifiers are the texts of these. -/
theorem Identifier.mapM_of?_iff {texts : List String} {names : List Identifier} :
    texts.mapM Identifier.of? = .ok names ↔ names.map (·.text) = texts := by
  rw [Except.mapM_eq_ok]
  constructor
  · intro h
    induction h with
    | nil => rfl
    | cons hname _ ih => rw [List.map_cons, Identifier.of?_eq_ok hname, ih]
  · rintro rfl
    rw [List.forall₂_map_left_iff, List.forall₂_same]
    exact fun n _ => n.of?_text

theorem Identifier.exists_texts_iff {texts : List String} :
    (∃ names : List Identifier, names.map (·.text) = texts) ↔
      ∀ text ∈ texts, Text.isIdentifier text.toList = true := by
  constructor
  · rintro ⟨names, rfl⟩ text htext
    obtain ⟨n, -, rfl⟩ := List.mem_map.mp htext
    exact n.valid
  · intro h
    refine ⟨texts.pmap Identifier.mk h, ?_⟩
    rw [List.map_pmap, List.pmap_eq_map, List.map_id']

theorem Path.carries_nameTemplates (names : List Identifier) :
    ∀ t ∈ Path.nameTemplates names, Carries d [] t := by
  intro t ht
  obtain ⟨n, _, rfl⟩ := List.mem_map.mp ht
  exact carries_nil.name

theorem Path.carries (p : Path) : Carries d [] p.template := by
  cases p with
  | all => exact carries_nil.text (by decide)
  | column names => exact .joined_nil (by decide) (by decide) (Path.carries_nameTemplates names)
  | allOf names =>
      refine .joined_nil (by decide) (by decide) ?_
      intro t ht
      rcases List.mem_append.mp ht with ht | ht
      · exact Path.carries_nameTemplates names t ht
      · rw [List.mem_singleton.mp ht]
        exact carries_nil.text (by decide)

/-- The name of an aggregate function is made of letters, whatever their case. -/
theorem Text.unmarked_of_isAggregate {cs : List Char} (h : Text.isAggregate cs = true) :
    Unmarked (String.ofList cs) := by
  have hmem : ∀ c ∈ cs, Text.foldCase c ∈ cs.map Text.foldCase := fun c hc => List.mem_map_of_mem hc
  simp only [Text.isAggregate, Bool.or_eq_true, beq_iff_eq] at h
  refine ⟨fun hc => ?_, fun hc => ?_⟩ <;>
    · have hfold := hmem _ (by simpa using hc)
      rcases h with (((h | h) | h) | h) | h <;>
        · rw [h] at hfold
          exact absurd hfold (by decide)

/-- A call is the name of an aggregate function and an argument in parentheses, the first of which ends
the name. -/
theorem Text.aggregateCall?_eq_some {cs f a : List Char}
    (h : Text.aggregateCall? cs = some (f, a)) :
    ∃ before inner, Text.trimChars cs = before ++ '(' :: (inner ++ [')']) ∧
      (∀ c ∈ before, c ≠ '(') ∧ f = Text.trimChars before ∧ a = Text.trimChars inner ∧
      Text.isAggregate f = true ∧ Text.isAggregateArgument a = true := by
  unfold Text.aggregateCall? at h
  split at h
  · cases h
  · rename_i before rest hcut
    split at h
    · rename_i inner hrest
      simp only [Option.ite_none_right_eq_some, Bool.and_eq_true, Option.some.injEq,
        Prod.mk.injEq] at h
      obtain ⟨⟨hname, hargument⟩, rfl, rfl⟩ := h
      obtain ⟨c, hc, hbefore, hcs⟩ := Text.cut?_eq_some.mp hcut
      have hrest' : rest = inner.reverse ++ [')'] := by
        rw [← List.reverse_reverse rest, hrest, List.reverse_cons]
      refine ⟨before, inner.reverse, ?_, ?_, rfl, rfl, hname, hargument⟩
      · rw [hcs, hrest', beq_iff_eq.mp hc]
      · intro b hb heq
        simpa [heq] using hbefore b hb
    · cases h

theorem ColumnExpr.carries {s : String} {e : ColumnExpr} (h : ColumnExpr.of? s = .ok e) :
    Carries d [] e.template := by
  unfold ColumnExpr.of? at h
  split at h
  · rename_i f a hcall
    obtain ⟨p, _, rfl⟩ := Except.map_eq_ok.mp h
    obtain ⟨_, _, _, _, _, _, hf, _⟩ := Text.aggregateCall?_eq_some hcall
    have hname : Unmarked (Text.upper (String.ofList f)) := (Text.unmarked_of_isAggregate hf).upper
    exact (p.carries.append (carries_nil.text (by decide)) (opens_text (by decide))).text
      (hname.append (by decide))
  · obtain ⟨p, _, rfl⟩ := Except.map_eq_ok.mp h
    exact p.carries

theorem ColumnExpr.carries_ofName (n : Identifier) : Carries d [] (ColumnExpr.ofName n).template :=
  Path.carries (.column [n])

/-- Columns in a row. -/
theorem ColumnExpr.carries_mapM {ss : List String} {es : List ColumnExpr}
    (h : ss.mapM ColumnExpr.of? = .ok es) : ∀ t ∈ es.map ColumnExpr.template, Carries d [] t := by
  intro t ht
  obtain ⟨e, he, rfl⟩ := List.mem_map.mp ht
  obtain ⟨s, _, hs⟩ := Except.exists_of_mem_mapM h he
  exact ColumnExpr.carries hs

theorem Reference.carries {s : String} {r : Reference} (h : Reference.of? s = .ok r) :
    Carries d [] r.template := by
  unfold Reference.of? at h
  split at h
  · simp only [Except.bind_eq_ok, Except.pure_eq_ok] at h
    obtain ⟨e, he, n, _, rfl⟩ := h
    exact (ColumnExpr.carries he).append ((carries_nil.name).text (by decide)) (opens_text (by decide))
  · obtain ⟨e, he, rfl⟩ := Except.map_eq_ok.mp h
    exact ColumnExpr.carries he

end TableGate
