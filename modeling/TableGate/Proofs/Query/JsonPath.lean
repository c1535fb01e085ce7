import TableGate.Proofs.Failure
import TableGate.Proofs.Sql.ArrayLiterals
import TableGate.Proofs.Sql.Rendering
import TableGate.Proofs.Text.Ascii
import TableGate.Proofs.Text.Blank
import TableGate.Proofs.Text.Decimal
import TableGate.Query.Select

/-! # Paths into JSON columns are read back

A path is a row of keys and positions. The texts that are read as a path are exactly those that spell its
steps out, and each of the written forms has every step of the path in it. -/

namespace TableGate.JsonStep

/-- A key is a word, and a position a number of 64 bits. -/
def Valid : JsonStep → Prop
  | .key name => Text.isWord name.toList = true
  | .index n => n ≤ Text.maxUInt64

/-- The keys of a path are words. -/
def IsWord : JsonStep → Prop
  | .key name => ∀ c ∈ name.toList, Text.isWordChar c = true
  | .index _ => True

/-- The text spells the steps out one after the other: a key behind a dot, a position in brackets, which a
dot may precede. -/
inductive Spelled : List JsonStep → List Char → Prop
  | nil : Spelled [] []
  | key {name : String} (hname : Valid (.key name)) {steps : List JsonStep} {cs : List Char}
      (hsteps : Spelled steps cs) : Spelled (.key name :: steps) ('.' :: (name.toList ++ cs))
  | index {dot ds : List Char} {n : ℕ} (hdot : dot = [] ∨ dot = ['.']) (hds : Text.Numeral n ds)
      (hn : Valid (.index n)) {steps : List JsonStep} {cs : List Char} (hsteps : Spelled steps cs) :
      Spelled (.index n :: steps) (dot ++ '[' :: (ds ++ ']' :: cs))

/-- The text is a path with these steps. A dollar sign may stand in front of it, the first dot may be left
out, and blanks may stand around the whole. -/
def PathText (steps : List JsonStep) (cs : List Char) : Prop :=
  ∃ front opening body back, Text.Blanks front ∧ (opening = [] ∨ opening = ['$']) ∧
    (Spelled steps body ∨ Spelled steps ('.' :: body)) ∧ Text.Blanks back ∧
    cs = front ++ (opening ++ body) ++ back

theorem Valid.isWord {step : JsonStep} (h : step.Valid) : step.IsWord := by
  cases step with
  | key name => exact List.all_eq_true.mp (Bool.and_eq_true_iff.mp h).2
  | index n => trivial

theorem IsWord.isWordChar_element {step : JsonStep} (h : step.IsWord) :
    ∀ c ∈ step.element.toList, Text.isWordChar c = true := by
  intro c hc
  cases step with
  | key name => exact h c hc
  | index n =>
      rw [element, Text.ofNat, String.toList_ofList] at hc
      exact Text.isWordChar_of_isDigit (Text.isDigit_of_mem_digits hc)

theorem Spelled.valid {steps : List JsonStep} {cs : List Char} (h : Spelled steps cs) :
    ∀ step ∈ steps, step.Valid := by
  induction h with
  | nil => simp
  | key hname _ ih => exact List.forall_mem_cons.mpr ⟨hname, ih⟩
  | index _ _ hn _ ih => exact List.forall_mem_cons.mpr ⟨hn, ih⟩

theorem PathText.valid {steps : List JsonStep} {cs : List Char} (h : PathText steps cs) :
    ∀ step ∈ steps, step.Valid := by
  obtain ⟨_, _, _, _, _, _, hbody, _, _⟩ := h
  exact hbody.elim Spelled.valid Spelled.valid

/-! ## Positions -/

theorem indicesFrom_append {state : Option (List Char)} {cs : List Char} {ns : List ℕ}
    (h : indicesFrom state cs = some ns) (more : List Char) :
    indicesFrom state (cs ++ more) = (indicesFrom none more).map (ns ++ ·) := by
  fun_induction indicesFrom state cs generalizing ns with
  | case1 =>
      cases h
      simp
  | case2 cs ih =>
      simp only [List.cons_append, indicesFrom, if_true]
      exact ih h
  | case3 => cases h
  | case4 => cases h
  | case5 inside cs ih =>
      simp only [Option.bind_eq_bind, Option.bind_eq_some_iff, Option.pure_def, Option.some.injEq] at h
      obtain ⟨n, hn, rest, hrest, rfl⟩ := h
      simp only [List.cons_append, indicesFrom, if_true, hn, ih hrest, Option.bind_eq_bind, Option.bind_some]
      cases indicesFrom none more <;> rfl
  | case6 inside c cs hc ih =>
      simp only [List.cons_append, indicesFrom, hc, if_false]
      exact ih h

theorem indicesFrom_inside {ds : List Char} (h : ']' ∉ ds) (inside rest : List Char) :
    indicesFrom (some inside) (ds ++ ']' :: rest) = (do
      let n ← Text.toNat? Text.maxUInt64 (inside.reverse ++ ds)
      let ns ← indicesFrom none rest
      return n :: ns) := by
  induction ds generalizing inside with
  | nil => simp [indicesFrom]
  | cons d ds ih =>
      rw [List.mem_cons, not_or] at h
      obtain ⟨hd, hds⟩ := h
      rw [List.cons_append, indicesFrom, if_neg (Ne.symm hd), ih hds, List.reverse_cons,
        List.append_assoc, List.singleton_append]

/-- A position in brackets is read, whichever text writes it. -/
theorem indicesFrom_bracketed {ds : List Char} {n : ℕ} (hds : Text.Numeral n ds) (hn : Valid (.index n)) :
    indicesFrom none ('[' :: (ds ++ [']'])) = some [n] := by
  have hclosed : ']' ∉ ds := hds.notMem (by decide) rfl
  have hread := Text.toNat?_eq_some.mpr ⟨hds, hn⟩
  rw [indicesFrom, if_pos rfl, indicesFrom_inside hclosed, List.reverse_nil, List.nil_append, hread]
  rfl

/-- The positions that are read are spelled out in the text, from the bracket on that is still open. -/
theorem spelled_of_indicesFrom {state : Option (List Char)} {cs : List Char} {ns : List ℕ}
    (h : indicesFrom state cs = some ns) {steps : List JsonStep} {rest : List Char}
    (hrest : Spelled steps rest) :
    Spelled (ns.map index ++ steps) ((state.elim [] fun inside => '[' :: inside.reverse) ++ (cs ++ rest)) := by
  fun_induction indicesFrom state cs generalizing ns with
  | case1 =>
      cases h
      exact hrest
  | case2 cs ih => exact ih h
  | case3 => cases h
  | case4 => cases h
  | case5 inside cs ih =>
      simp only [Option.bind_eq_bind, Option.bind_eq_some_iff, Option.pure_def, Option.some.injEq] at h
      obtain ⟨n, hn, rest, hrest, rfl⟩ := h
      obtain ⟨hds, hle⟩ := Text.toNat?_eq_some.mp hn
      exact .index (.inl rfl) hds hle (ih hrest)
  | case6 inside c cs hc ih => simpa using ih h

/-! ## Parts -/

/-- The key at the front of a part, if there is one. -/
def keyOf (word : List Char) : List JsonStep :=
  if word.isEmpty then [] else [.key (String.ofList word)]

/-- A part of a path is a word with positions behind it, and one of the two may be missing. -/
theorem ofPart?_eq_some {part : List Char} {steps : List JsonStep} :
    ofPart? part = some steps ↔ ∃ word brackets ns, part = word ++ brackets ∧ part ≠ [] ∧
      (∀ c ∈ word, Text.isWordChar c = true) ∧ indicesFrom none brackets = some ns ∧
      steps = keyOf word ++ ns.map index := by
  have hkey (word : List Char) (ns : List ℕ) : (if word.isEmpty then ns.map index else
      key (String.ofList word) :: ns.map index) = keyOf word ++ ns.map index := by
    unfold keyOf
    split <;> rfl
  constructor
  · intro h
    simp only [ofPart?, Option.bind_eq_bind, Option.bind_eq_some_iff, Option.pure_def,
      Option.ite_none_left_eq_some, Bool.or_eq_true, not_or, List.isEmpty_iff, Bool.not_eq_true',
      Bool.not_eq_false, List.all_eq_true, Option.some.injEq] at h
    obtain ⟨ns, hns, ⟨hne, hword⟩, rfl⟩ := h
    exact ⟨_, _, ns, List.takeWhile_append_dropWhile.symm, hne, hword, hns, by simp [← hkey]⟩
  · rintro ⟨word, brackets, ns, rfl, hne, hword, hns, rfl⟩
    have hopen : ∀ c ∈ word, (c != '[') = true := by
      intro c hc
      rw [bne_iff_ne]
      rintro rfl
      exact absurd (hword _ hc) (by decide)
    -- what is not a row of positions could go on with the word
    have hbrackets : brackets.takeWhile (· != '[') = [] ∧ brackets.dropWhile (· != '[') = brackets := by
      cases brackets with
      | nil => exact ⟨rfl, rfl⟩
      | cons c cs =>
          rw [indicesFrom, Option.ite_none_right_eq_some] at hns
          simp [hns.1]
    simp only [ofPart?, List.takeWhile_append_of_pos hopen, List.dropWhile_append_of_pos hopen, hbrackets,
      List.append_nil, hns, Option.bind_eq_bind, Option.bind_some, hkey]
    simp [hne, List.all_eq_true.mpr hword]

theorem ofPart?_word {word : List Char} (h : Text.isWord word = true) :
    ofPart? word = some [key (String.ofList word)] := by
  simp only [Text.isWord, Bool.and_eq_true, Bool.not_eq_true', List.isEmpty_eq_false_iff,
    List.all_eq_true] at h
  refine ofPart?_eq_some.mpr ⟨word, [], [], by simp, h.1, h.2, rfl, ?_⟩
  simp [keyOf, h.1]

theorem ofPart?_append_index {part ds : List Char} {n : ℕ} {steps : List JsonStep}
    (h : ofPart? part = some steps) (hds : Text.Numeral n ds) (hn : Valid (.index n)) :
    ofPart? (part ++ '[' :: (ds ++ [']'])) = some (steps ++ [index n]) := by
  obtain ⟨word, brackets, ns, rfl, hne, hword, hns, rfl⟩ := ofPart?_eq_some.mp h
  refine ofPart?_eq_some.mpr ⟨word, _, ns ++ [n], List.append_assoc _ _ _, by simp, hword, ?_, by simp⟩
  rw [indicesFrom_append hns, indicesFrom_bracketed hds hn]
  rfl

theorem ofPart?_index {ds : List Char} {n : ℕ} (hds : Text.Numeral n ds) (hn : Valid (.index n)) :
    ofPart? ('[' :: (ds ++ [']'])) = some [index n] :=
  ofPart?_eq_some.mpr ⟨[], _, [n], rfl, by simp, by simp, indicesFrom_bracketed hds hn, rfl⟩

theorem Spelled.dotted {steps : List JsonStep} {cs : List Char} (h : Spelled steps ('[' :: cs)) :
    Spelled steps ('.' :: '[' :: cs) := by
  generalize htext : '[' :: cs = text at h
  cases h with
  | nil => cases htext
  | key => cases htext
  | index hdot hds hn hsteps =>
      rcases hdot with rfl | rfl
      · exact .index (.inr rfl) hds hn hsteps
      · cases htext

/-- The steps of a part are spelled out behind a dot. -/
theorem spelled_of_ofPart? {part : List Char} {steps : List JsonStep} (h : ofPart? part = some steps)
    {more : List JsonStep} {rest : List Char} (hrest : Spelled more rest) :
    Spelled (steps ++ more) ('.' :: (part ++ rest)) := by
  obtain ⟨word, brackets, ns, rfl, hne, hword, hns, rfl⟩ := ofPart?_eq_some.mp h
  have hindices : Spelled (ns.map index ++ more) (brackets ++ rest) := spelled_of_indicesFrom hns hrest
  rw [List.append_assoc, List.append_assoc]
  cases word with
  | nil =>
      obtain ⟨c, cs, rfl⟩ := List.exists_cons_of_ne_nil (l := brackets) hne
      rw [List.nil_append] at h
      rw [indicesFrom, Option.ite_none_right_eq_some] at hns
      obtain ⟨rfl, -⟩ := hns
      exact hindices.dotted
  | cons c cs =>
      have hvalid : Valid (.key (String.ofList (c :: cs))) := by
        simpa [Valid, Text.isWord] using hword
      simpa [keyOf] using Spelled.key hvalid hindices

/-! ## Texts -/

/-- The steps of a text between whose parts there are dots. -/
def ofBody? (cs : List Char) : Option (List JsonStep) :=
  ((Text.pieces (· == '.') cs).mapM ofPart?).map List.flatten

theorem pathOf?_eq_ok {path : String} {steps : List JsonStep} : pathOf? path = .ok steps ↔
    ofBody? (dropFirst '.' (dropFirst '$' (Text.trimChars path.toList))) = some steps := by
  rw [pathOf?, ofBody?]
  split <;> simp_all

theorem ofBody?_part {part : List Char} (hdot : '.' ∉ part) : ofBody? part = ofPart? part := by
  rw [ofBody?, Text.pieces_of_forall_not (Text.beq_eq_false_of_notMem hdot)]
  cases h : ofPart? part <;> simp [h]

theorem ofBody?_append_dot {part : List Char} (hdot : '.' ∉ part) (cs : List Char) :
    ofBody? (part ++ '.' :: cs) = (ofPart? part).bind fun front => (ofBody? cs).map (front ++ ·) := by
  rw [ofBody?, ofBody?, Text.pieces_append_cons (p := (· == '.')) rfl,
    Text.pieces_of_forall_not (Text.beq_eq_false_of_notMem hdot), List.singleton_append, List.mapM_cons]
  cases ofPart? part <;> cases (Text.pieces (· == '.') cs).mapM ofPart? <;> simp

theorem dot_notMem_word {name : String} (h : Valid (.key name)) : '.' ∉ name.toList := fun hmem =>
  absurd (h.isWord '.' hmem) (by decide)

theorem dot_notMem_bracketed {ds : List Char} {n : ℕ} (hds : Text.Numeral n ds) :
    '.' ∉ '[' :: (ds ++ [']']) := by
  rw [List.mem_cons, List.mem_append, not_or, not_or]
  exact ⟨by decide, hds.notMem (by decide) rfl, by decide⟩

/-- Steps that are spelled out behind a part are read behind the steps of the part. -/
theorem ofBody?_append {part : List Char} {front : List JsonStep} (hdot : '.' ∉ part)
    (hpart : ofPart? part = some front) {steps : List JsonStep} {cs : List Char} (h : Spelled steps cs) :
    ofBody? (part ++ cs) = some (front ++ steps) := by
  induction h generalizing part front with
  | nil => rw [List.append_nil, List.append_nil, ofBody?_part hdot, hpart]
  | key hname _ ih =>
      rw [ofBody?_append_dot hdot, hpart, ih (dot_notMem_word hname) (ofPart?_word hname)]
      simp
  | @index dot ds n hdot' hds hn steps cs _ ih =>
      have hbracketed := dot_notMem_bracketed hds
      rcases hdot' with rfl | rfl
      · have hgrown : '.' ∉ part ++ '[' :: (ds ++ [']']) := by simp_all
        simpa using ih hgrown (ofPart?_append_index hpart hds hn)
      · have hrest := ih hbracketed (ofPart?_index hds hn)
        simp only [List.cons_append, List.append_assoc, List.nil_append] at hrest ⊢
        rw [ofBody?_append_dot hdot, hpart, hrest]
        simp

theorem spelled_of_mapM {parts : List (List Char)} {found : List (List JsonStep)}
    (h : parts.mapM ofPart? = some found) : Spelled found.flatten (parts.flatMap ('.' :: ·)) := by
  induction parts generalizing found with
  | nil =>
      cases h
      exact .nil
  | cons part parts ih =>
      simp only [List.mapM_cons, Option.bind_eq_bind, Option.bind_eq_some_iff, Option.pure_def,
        Option.some.injEq] at h
      obtain ⟨front, hfront, others, hothers, rfl⟩ := h
      exact spelled_of_ofPart? hfront (ih hothers)

theorem ofBody?_eq_some {steps : List JsonStep} {cs : List Char} :
    ofBody? cs = some steps ↔ Spelled steps ('.' :: cs) := by
  constructor
  · intro h
    obtain ⟨found, hfound, rfl⟩ := Option.map_eq_some_iff.mp h
    simpa only [Text.flatMap_pieces] using spelled_of_mapM hfound
  · intro h
    generalize htext : '.' :: cs = text at h
    cases h with
    | nil => cases htext
    | key hname hsteps =>
        cases htext
        simpa using ofBody?_append (dot_notMem_word hname) (ofPart?_word hname) hsteps
    | index hdot hds hn hsteps =>
        rcases hdot with rfl | rfl <;> cases htext
        simpa using ofBody?_append (dot_notMem_bracketed hds) (ofPart?_index hds hn) hsteps

/-! ## The texts that are paths -/

/-- Neither a blank nor a dollar sign stands where steps are spelled out. -/
theorem Spelled.clean {steps : List JsonStep} {cs : List Char} (h : Spelled steps cs) :
    ∀ c ∈ cs, Text.isBlank c = false ∧ c ≠ '$' := by
  have hword {c : Char} (hc : Text.isWordChar c = true) : Text.isBlank c = false ∧ c ≠ '$' := by
    refine ⟨Text.isBlank_of_isWordChar hc, ?_⟩
    rintro rfl
    exact absurd hc (by decide)
  induction h with
  | nil => simp
  | @key name hname steps cs _ ih =>
      intro c hc
      rw [List.mem_cons, List.mem_append] at hc
      rcases hc with rfl | hc | hc
      · decide
      · exact hword (hname.isWord c hc)
      · exact ih c hc
  | @index dot ds n hdot hds hn steps cs _ ih =>
      have hdotted : ∀ c ∈ dot, Text.isBlank c = false ∧ c ≠ '$' := by
        rcases hdot with rfl | rfl
        · exact List.forall_mem_nil _
        · exact List.forall_mem_singleton.mpr (by decide)
      intro c hc
      simp only [List.mem_append, List.mem_cons] at hc
      rcases hc with hc | rfl | hc | rfl | hc
      · exact hdotted c hc
      · decide
      · rcases hds.eq_plus_or_isDigit hc with rfl | hdigit
        · decide
        · exact hword (Text.isWordChar_of_isDigit hdigit)
      · decide
      · exact ih c hc

theorem Spelled.ne_nil {steps : List JsonStep} {cs : List Char} (h : Spelled steps cs) (hne : steps ≠ []) :
    cs ≠ [] := by
  cases h with
  | nil => exact absurd rfl hne
  | key => exact List.cons_ne_nil _ _
  | index => simp

theorem not_spelled_dots {steps : List JsonStep} {cs : List Char} : ¬Spelled steps ('.' :: '.' :: cs) := by
  intro h
  generalize htext : '.' :: '.' :: cs = text at h
  cases h with
  | nil => cases htext
  | @key name hname steps rest _ =>
      have hne : name.toList ≠ [] := by
        intro hnil
        simp [Valid, hnil, Text.isWord] at hname
      obtain ⟨c, word, hword⟩ := List.exists_cons_of_ne_nil hne
      rw [hword] at htext
      have hdot := dot_notMem_word hname
      simp_all
  | index hdot _ _ _ => rcases hdot with rfl | rfl <;> cases htext

/-- A dot may be left out in front of the first step. -/
theorem spelled_dropFirst_dot {steps : List JsonStep} (hne : steps ≠ []) (cs : List Char) :
    Spelled steps ('.' :: dropFirst '.' cs) ↔ Spelled steps cs ∨ Spelled steps ('.' :: cs) := by
  cases cs with
  | nil =>
      exact ⟨.inr, fun h => h.elim (fun hnil => absurd rfl (hnil.ne_nil hne)) id⟩
  | cons c cs =>
      by_cases hc : c = '.'
      · subst hc
        simp [dropFirst, not_spelled_dots]
      · simp only [dropFirst, hc, if_false]
        refine ⟨.inr, fun h => h.elim (fun hplain => ?_) id⟩
        generalize htext : c :: cs = text at hplain
        cases hplain with
        | nil => cases htext
        | key =>
            cases htext
            exact absurd rfl hc
        | index hdot hds hn hsteps =>
            rcases hdot with rfl | rfl
            · exact .index (.inr rfl) hds hn hsteps
            · cases htext
              exact absurd rfl hc

theorem ofBody?_trimmed {steps : List JsonStep} (hne : steps ≠ []) {cs : List Char} :
    ofBody? (dropFirst '.' (dropFirst '$' cs)) = some steps ↔
      ∃ opening body, (opening = [] ∨ opening = ['$']) ∧
        (Spelled steps body ∨ Spelled steps ('.' :: body)) ∧ cs = opening ++ body := by
  rw [ofBody?_eq_some, spelled_dropFirst_dot hne]
  constructor
  · intro h
    cases cs with
    | nil => exact ⟨[], [], .inl rfl, h, rfl⟩
    | cons c cs =>
        by_cases hc : c = '$'
        · subst hc
          exact ⟨['$'], cs, .inr rfl, h, rfl⟩
        · rw [dropFirst, if_neg hc] at h
          exact ⟨[], c :: cs, .inl rfl, h, rfl⟩
  · rintro ⟨opening, body, hopening, h, rfl⟩
    rcases hopening with rfl | rfl
    · have hplain : dropFirst '$' body = body := by
        cases body with
        | nil => rfl
        | cons c cs =>
            have hc : c ≠ '$' := by
              rcases h with h | h <;> exact (h.clean c (by simp)).2
            rw [dropFirst, if_neg hc]
      rwa [List.nil_append, hplain]
    · exact h

theorem solid_of_spelled {steps : List JsonStep} {opening body : List Char}
    (hopening : opening = [] ∨ opening = ['$']) (h : Spelled steps body ∨ Spelled steps ('.' :: body)) :
    Text.Solid (opening ++ body) := by
  have hbody : Text.Solid body := by
    intro c hc
    rcases h with h | h
    · exact (h.clean c hc).1
    · exact (h.clean c (List.mem_cons_of_mem _ hc)).1
  refine Text.Solid.append ?_ hbody
  rcases hopening with rfl | rfl <;> simp [Text.Solid, Text.isBlank]

/-- A text is read as a path if and only if it spells the steps of the path out. -/
theorem pathOf?_eq_ok_iff {path : String} {steps : List JsonStep} :
    pathOf? path = .ok steps ↔ steps ≠ [] ∧ PathText steps path.toList := by
  rw [pathOf?_eq_ok]
  constructor
  · intro h
    have hne : steps ≠ [] := by
      rintro rfl
      cases ofBody?_eq_some.mp h
    obtain ⟨front, back, hfront, hback, hpath⟩ := Text.trimChars_split path.toList
    obtain ⟨opening, body, hopening, hbody, htrim⟩ := (ofBody?_trimmed hne).mp h
    exact ⟨hne, front, opening, body, back, hfront, hopening, hbody, hback, htrim ▸ hpath⟩
  · rintro ⟨hne, front, opening, body, back, hfront, hopening, hbody, hback, hpath⟩
    have htrim : Text.trimChars path.toList = opening ++ body := by
      rw [hpath, Text.trimChars_append_blank hback, Text.trimChars_blank_append hfront,
        Text.trimChars_of_solid (solid_of_spelled hopening hbody)]
    rw [htrim]
    exact (ofBody?_trimmed hne).mpr ⟨opening, body, hopening, hbody, rfl⟩

theorem isWord_of_pathOf? {path : String} {steps : List JsonStep} (h : pathOf? path = .ok steps) :
    ∀ step ∈ steps, step.IsWord := fun step hstep =>
  ((pathOf?_eq_ok_iff.mp h).2.valid step hstep).isWord

/-! ## The written forms -/

theorem toList_dollarPath (steps : List JsonStep) :
    (dollarPath steps).toList = '$' :: steps.flatMap fun step => step.dollarStep.toList := by
  suffices hfold : ∀ acc : String, (steps.foldl (fun s step => s ++ step.dollarStep) acc).toList =
      acc.toList ++ steps.flatMap fun step => step.dollarStep.toList from hfold "$"
  induction steps with
  | nil => simp
  | cons step steps ih =>
      intro acc
      rw [List.foldl_cons, ih, String.toList_append, List.append_assoc, List.flatMap_cons]

theorem spelled_dollarSteps {steps : List JsonStep} (h : ∀ step ∈ steps, step.Valid) :
    Spelled steps (steps.flatMap fun step => step.dollarStep.toList) := by
  induction steps with
  | nil => exact .nil
  | cons step steps ih =>
      obtain ⟨hstep, hsteps⟩ := List.forall_mem_cons.mp h
      cases step with
      | key name => simpa [dollarStep] using Spelled.key hstep (ih hsteps)
      | index n =>
          simpa [dollarStep, Text.ofNat] using
            Spelled.index (.inl rfl) (Text.numeral_digits n) hstep (ih hsteps)

/-- Exactly the paths with steps, and with valid ones, are read back from dots and brackets. -/
theorem pathOf?_dollarPath_iff {steps : List JsonStep} :
    pathOf? (dollarPath steps) = .ok steps ↔ steps ≠ [] ∧ ∀ step ∈ steps, step.Valid := by
  rw [pathOf?_eq_ok_iff]
  refine and_congr_right fun _ => ⟨PathText.valid, fun h => ?_⟩
  refine ⟨[], ['$'], _, [], Text.blanks_nil, .inr rfl, .inl (spelled_dollarSteps h), Text.blanks_nil, ?_⟩
  rw [toList_dollarPath]
  simp

theorem toList_bracePath (steps : List JsonStep) : (bracePath steps).toList =
    '\x7b' :: ([','].intercalate (steps.map fun step => step.element.toList) ++ ['\x7d']) := by
  simp [bracePath, String.toList_intercalate, Function.comp_def]

/-- The element of a step is a word. -/
theorem Valid.plain_element {step : JsonStep} (h : step.Valid) :
    step.element.toList ≠ [] ∧ ∀ c ∈ step.element.toList, ArrayLiteral.Plain c := by
  refine ⟨?_, fun c hc => ArrayLiteral.plain_of_isWordChar (h.isWord.isWordChar_element c hc)⟩
  cases step with
  | key name =>
      intro hnil
      rw [element] at hnil
      simp [Valid, hnil, Text.isWord] at h
  | index n => simpa [element, Text.ofNat] using Text.digits_ne_nil n

/-- Only a key is the word NULL. -/
theorem isNull_element {step : JsonStep} (h : ArrayLiteral.IsNull step.element.toList) :
    ∃ name, step = .key name ∧ ArrayLiteral.IsNull name.toList := by
  cases step with
  | key name => exact ⟨name, rfl, h⟩
  | index n =>
      exfalso
      rw [element, Text.ofNat, String.toList_ofList] at h
      have hmem : 'n' ∈ (Text.digits n).map Char.toLower := by
        rw [h]
        decide
      obtain ⟨c, hc, hlower⟩ := List.mem_map.mp hmem
      have hdigit := Text.isDigit_of_mem_digits hc
      rw [Text.toLower_of_isDigit hdigit] at hlower
      rw [hlower] at hdigit
      exact absurd hdigit (by decide)

/-- The list in braces has an element for each step, in their order, whose text is that of the step. -/
theorem elements?_bracePath {steps : List JsonStep} (hne : steps ≠ []) (h : ∀ step ∈ steps, step.Valid)
    (hkeys : ∀ name, .key name ∈ steps → ¬ArrayLiteral.IsNull name.toList) :
    ArrayLiteral.elements? (bracePath steps).toList = some (steps.map fun step => some step.element) := by
  have hwords : ∀ w ∈ steps.map (fun step => step.element.toList), w ≠ [] ∧ ∀ c ∈ w, ArrayLiteral.Plain c :=
    List.forall_mem_map.mpr fun step hstep => (h step hstep).plain_element
  rw [toList_bracePath, ArrayLiteral.elements?_braces (by simpa using hne) hwords, List.map_map]
  refine congrArg some (List.map_congr_left fun step hstep => ?_)
  have hsome : ¬ArrayLiteral.IsNull step.element.toList := by
    intro hnull
    obtain ⟨name, rfl, hname⟩ := isNull_element hnull
    exact hkeys name hstep hname
  simp [ArrayLiteral.bareElement, hsome]

/-- Of two paths the same list in braces is written if their steps have the same texts. -/
theorem bracePath_inj {steps others : List JsonStep} (hne : steps ≠ []) (h : ∀ step ∈ steps, step.Valid)
    (hne' : others ≠ []) (h' : ∀ step ∈ others, step.Valid) :
    bracePath others = bracePath steps ↔ others.map element = steps.map element := by
  have hcommas {path : List JsonStep} (hpath : ∀ step ∈ path, step.Valid) :
      ∀ part ∈ path.map (fun step => step.element.toList), ',' ∉ part :=
    List.forall_mem_map.mpr fun step hstep hcomma =>
      ((hpath step hstep).plain_element.2 ',' hcomma).2 (by decide)
  refine ⟨fun hpath => ?_, fun hsteps => by rw [bracePath, bracePath, hsteps]⟩
  have hchars := congrArg String.toList hpath
  rw [toList_bracePath, toList_bracePath, List.cons.injEq, List.append_left_inj] at hchars
  have hparts := congrArg (Text.pieces (· == ',')) hchars.2
  rw [Text.pieces_intercalate (by simpa using hne') (hcommas h'),
    Text.pieces_intercalate (by simpa using hne) (hcommas h)] at hparts
  simpa [Function.comp_def] using congrArg (List.map String.ofList) hparts

/-- The text of a path in a dialect. -/
def written (steps : List JsonStep) : Dialect → String
  | .mysql => dollarPath steps
  | .sqlite => dollarPath steps
  | .postgres => bracePath steps

/-- In every dialect the expression for a value inside a JSON column has the path in quotes. -/
theorem template?_written {column path : String} {label : Option String} {steps : List JsonStep}
    (hpath : pathOf? path = .ok steps) {e : ColumnExpr} (he : ColumnExpr.of? column = .ok e) {n : Identifier}
    (hn : Identifier.of? (label.getD (JsonPathSpec.columnName column)) = .ok n) (d : Dialect) :
    ∃ before after, JsonPathSpec.template? d ⟨column, path, label⟩ =
      .ok (before ++ .literal (written steps d) :: after) := by
  simp only [JsonPathSpec.template?, he, hpath, hn, Except.ok_bind, pure, Except.pure, Except.ok.injEq]
  cases d with
  | mysql =>
      exact ⟨.text "JSON_UNQUOTE(JSON_EXTRACT(" :: e.template ++ [.text ", "],
        [.text "))", .text " AS ", .name n], by simp [written]⟩
  | sqlite =>
      exact ⟨.text "json_extract(" :: e.template ++ [.text ", "], [.text ")", .text " AS ", .name n],
        by simp [written]⟩
  | postgres => exact ⟨e.template ++ [.text " #>> "], [.text " AS ", .name n], by simp [written]⟩

/-- The steps of a path are read back from dots and brackets, and each has an element of its own in braces, where
no key is the word NULL. Another path differs from this one between dots and brackets, and in braces unless only
keys and positions with the same texts are exchanged. These are the texts that the dialects have for the path,
whatever the column and its name. -/
structure Kept (path : String) (steps : List JsonStep) : Prop where
  valid : ∀ step ∈ steps, step.Valid
  dollar : pathOf? (dollarPath steps) = .ok steps
  braces : (∀ name, .key name ∈ steps → ¬ArrayLiteral.IsNull name.toList) →
    ArrayLiteral.elements? (bracePath steps).toList = some (steps.map fun step => some step.element)
  apart : ∀ others, others ≠ [] → (∀ step ∈ others, step.Valid) →
    (dollarPath others = dollarPath steps ↔ others = steps) ∧
      (bracePath others = bracePath steps ↔ others.map element = steps.map element)
  forms : ∀ column label e n, ColumnExpr.of? column = .ok e →
    Identifier.of? (label.getD (JsonPathSpec.columnName column)) = .ok n → ∀ d, ∃ t,
      JsonPathSpec.template? d ⟨column, path, label⟩ = .ok t ∧ ∀ position, ∃ before after,
        Template.printFrom d position t = before ++ ("'" ++ written steps d ++ "'") ++ after

theorem kept_of_pathOf? {path : String} {steps : List JsonStep} (h : pathOf? path = .ok steps) :
    Kept path steps := by
  obtain ⟨hne, htext⟩ := pathOf?_eq_ok_iff.mp h
  have hvalid := htext.valid
  have hdollar := pathOf?_dollarPath_iff.mpr ⟨hne, hvalid⟩
  refine ⟨hvalid, hdollar, elements?_bracePath hne hvalid, fun others hne' hvalid' => ⟨?_, ?_⟩, ?_⟩
  · refine ⟨fun hpath => ?_, congrArg dollarPath⟩
    have hread := pathOf?_dollarPath_iff.mpr ⟨hne', hvalid'⟩
    rw [hpath, hdollar] at hread
    exact (Except.ok.inj hread).symm
  · exact bracePath_inj hne hvalid hne' hvalid'
  intro column label e n he hn d
  obtain ⟨before, after, ht⟩ := template?_written h he hn d
  refine ⟨_, ht, fun position => ⟨Template.printFrom d position before,
    Template.printFrom d (position + (Template.params before).length) after, ?_⟩⟩
  rw [Template.printFrom_append, Template.printFrom]
  simp only [String.append_assoc]

/-- The paths that are read back from dots and brackets are the valid ones with a step, and a text is read as
the path that it spells out, which the written forms keep, or it is refused. -/
theorem pathOf?_keeps :
    (∀ steps, pathOf? (dollarPath steps) = .ok steps ↔ steps ≠ [] ∧ ∀ step ∈ steps, step.Valid) ∧
    ∀ path, (∀ steps, pathOf? path = .ok steps ↔ steps ≠ [] ∧ PathText steps path.toList) ∧
      (pathOf? path = .error (.querySpec (.jsonPath path)) ∨
        ∃ steps, pathOf? path = .ok steps ∧ Kept path steps) := by
  refine ⟨fun _ => pathOf?_dollarPath_iff, fun path => ⟨fun _ => pathOf?_eq_ok_iff, ?_⟩⟩
  cases h : pathOf? path with
  | ok steps => exact .inr ⟨steps, rfl, kept_of_pathOf? h⟩
  | error fault =>
      refine .inl ?_
      rw [pathOf?] at h
      split at h <;> cases h
      rfl

/-- A key of digits and a position have the same text in braces, and the key null is none there. -/
theorem pathOf?_braces_alike :
    let sql (path : String) := (JsonPathSpec.template? .postgres ⟨"data", path, none⟩).toOption.map
      (Template.print .postgres)
    pathOf? "$.a.0" = .ok [.key "a", .key "0"] ∧ pathOf? "$.a[0]" = .ok [.key "a", .index 0] ∧
      sql "$.a.0" = some "\"data\" #>> '\x7ba,0\x7d' AS \"data\"" ∧ sql "$.a[0]" = sql "$.a.0" ∧
      pathOf? "$.null" = .ok [.key "null"] ∧
      sql "$.null" = some "\"data\" #>> '\x7bnull\x7d' AS \"data\"" ∧
      ArrayLiteral.elements? "\x7bnull\x7d".toList = some [none] := by
  decide +kernel

end TableGate.JsonStep
