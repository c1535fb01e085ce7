import Mathlib.Data.List.DropRight
import TableGate.Proofs.Text.Ascii
import TableGate.Proofs.Text.Pieces

/-! # Blanks around and between words

Trimming takes away blanks at the ends and nothing else, and leaves the words of a text as they are. -/

namespace TableGate.Text

/-- The text has no blank in it. -/
def Solid (cs : List Char) : Prop :=
  ∀ c ∈ cs, isBlank c = false

theorem Solid.append {cs ds : List Char} (hcs : Solid cs) (hds : Solid ds) : Solid (cs ++ ds) := by
  intro c hc
  rcases List.mem_append.mp hc with hc | hc
  · exact hcs c hc
  · exact hds c hc

/-- All characters are blank. -/
def Blanks (cs : List Char) : Prop :=
  ∀ b ∈ cs, isBlank b = true

theorem solid_singleton {c : Char} (h : isBlank c = false) : Solid [c] := by
  intro b hb
  rwa [List.mem_singleton.mp hb]

theorem blanks_nil : Blanks [] :=
  fun _ hb => nomatch hb

theorem blanks_singleton {c : Char} (h : isBlank c = true) : Blanks [c] := by
  intro b hb
  rwa [List.mem_singleton.mp hb]

theorem Blanks.append {cs ds : List Char} (hcs : Blanks cs) (hds : Blanks ds) : Blanks (cs ++ ds) := by
  intro b hb
  rcases List.mem_append.mp hb with hb | hb
  · exact hcs b hb
  · exact hds b hb

theorem Blanks.notMem {cs : List Char} (hcs : Blanks cs) {c : Char} (hc : isBlank c = false) : c ∉ cs := by
  intro hmem
  rw [hcs c hmem] at hc
  cases hc

theorem isBlank_of_isWordChar {c : Char} (h : isWordChar c = true) : isBlank c = false := by
  have hword : ((decide ('A'.val ≤ c.val ∧ c.val ≤ 'Z'.val) || ('a'.val ≤ c.val && c.val ≤ 'z'.val)) ||
      ('0'.val ≤ c.val && c.val ≤ '9'.val) || c == '_') = true := h
  simp only [Bool.or_eq_true, Bool.and_eq_true, decide_eq_true_eq, beq_iff_eq,
    UInt32.le_iff_toNat_le, Char.toNat_val] at hword
  simp only [isBlank, Bool.or_eq_false_iff, Bool.and_eq_false_imp, decide_eq_true_eq,
    decide_eq_false_iff_not, beq_eq_false_iff_ne]
  rcases hword with hword | rfl
  · simp at hword
    omega
  · decide

/-! ## Trimming -/

/-- What trimming takes away. -/
theorem trimChars_split (cs : List Char) :
    ∃ front back, (∀ b ∈ front, isBlank b = true) ∧ (∀ b ∈ back, isBlank b = true) ∧
      cs = front ++ trimChars cs ++ back := by
  refine ⟨cs.takeWhile isBlank, (cs.dropWhile isBlank).rtakeWhile isBlank,
    fun b hb => List.mem_takeWhile_imp hb, fun b hb => List.mem_rtakeWhile_imp hb, ?_⟩
  have htrim : trimChars cs = (cs.dropWhile isBlank).rdropWhile isBlank := rfl
  rw [htrim, List.append_assoc, List.rdropWhile_append_rtakeWhile, List.takeWhile_append_dropWhile]

theorem mem_of_mem_trimChars {cs : List Char} {c : Char} (h : c ∈ trimChars cs) : c ∈ cs := by
  obtain ⟨front, back, _, _, hcs⟩ := trimChars_split cs
  rw [hcs]
  simp [h]

theorem mem_trimChars {cs : List Char} {c : Char} (h : c ∈ cs) (hc : isBlank c = false) :
    c ∈ trimChars cs := by
  obtain ⟨front, back, hfront, hback, hcs⟩ := trimChars_split cs
  rw [hcs, List.mem_append, List.mem_append] at h
  rcases h with (h | h) | h
  · simp [hfront c h] at hc
  · exact h
  · simp [hback c h] at hc

theorem trimChars_blank_append {blanks : List Char} (h : ∀ b ∈ blanks, isBlank b = true)
    (cs : List Char) : trimChars (blanks ++ cs) = trimChars cs := by
  rw [trimChars, List.dropWhile_append_of_pos h, trimChars]

theorem trimChars_append_blank {blanks : List Char} (h : ∀ b ∈ blanks, isBlank b = true)
    (cs : List Char) : trimChars (cs ++ blanks) = trimChars cs := by
  have hback : ∀ b ∈ blanks.reverse, isBlank b = true := fun b hb => h b (List.mem_reverse.mp hb)
  rw [trimChars, trimChars, List.dropWhile_append]
  split
  · rename_i hempty
    rw [List.isEmpty_iff.mp hempty, List.dropWhile_eq_nil_iff.mpr h]
  · rw [List.reverse_append, List.dropWhile_append_of_pos hback]

theorem trimChars_trimChars (cs : List Char) : trimChars (trimChars cs) = trimChars cs := by
  obtain ⟨front, back, hfront, hback, hcs⟩ := trimChars_split cs
  have htrim : trimChars cs = trimChars (trimChars cs) := by
    calc trimChars cs = trimChars (front ++ trimChars cs ++ back) := by rw [← hcs]
      _ = trimChars (trimChars cs) := by
        rw [trimChars_append_blank hback, trimChars_blank_append hfront]
  exact htrim.symm

theorem dropWhile_append_cons {c : Char} (hc : isBlank c = false) (before after : List Char) :
    (before ++ c :: after).dropWhile isBlank = before.dropWhile isBlank ++ c :: after := by
  rw [List.dropWhile_append]
  split
  · rename_i hempty
    rw [List.isEmpty_iff.mp hempty, List.dropWhile_cons_of_neg (by simp [hc])]
    rfl
  · rfl

/-- Around a character that is not blank, both sides are trimmed at their far ends. -/
theorem trimChars_append_cons {c : Char} (hc : isBlank c = false) (before after : List Char) :
    trimChars (before ++ c :: after) = before.dropWhile isBlank ++ c :: after.rdropWhile isBlank := by
  rw [trimChars, dropWhile_append_cons hc, List.reverse_append, List.reverse_cons, List.append_assoc,
    List.singleton_append, dropWhile_append_cons hc]
  simp [List.rdropWhile]

/-- Behind a text without blanks, only the end is trimmed. -/
theorem trimChars_solid_append {front : List Char} (hne : front ≠ []) (h : Solid front)
    (cs : List Char) : trimChars (front ++ cs) = front ++ cs.rdropWhile isBlank := by
  obtain ⟨init, last, rfl⟩ : ∃ init last, front = init ++ [last] :=
    ⟨_, _, (List.dropLast_concat_getLast hne).symm⟩
  have hinit : init.dropWhile isBlank = init :=
    List.dropWhile_eq_self_iff.mpr fun hlength => by simp [h init[0] (by simp)]
  rw [List.append_assoc, List.singleton_append, trimChars_append_cons (h last (by simp)), hinit,
    List.append_assoc, List.singleton_append]

theorem trimChars_dropWhile (cs : List Char) : trimChars (cs.dropWhile isBlank) = trimChars cs := by
  conv_rhs => rw [← List.takeWhile_append_dropWhile (p := isBlank) (l := cs)]
  exact (trimChars_blank_append (fun _ hb => List.mem_takeWhile_imp hb) _).symm

theorem trimChars_rdropWhile (cs : List Char) : trimChars (cs.rdropWhile isBlank) = trimChars cs := by
  conv_rhs => rw [← List.rdropWhile_append_rtakeWhile (p := isBlank) (l := cs)]
  exact (trimChars_append_blank (fun _ hb => List.mem_rtakeWhile_imp hb) _).symm

theorem trimChars_of_solid {cs : List Char} (h : Solid cs) : trimChars cs = cs := by
  cases cs with
  | nil => rfl
  | cons c cs => simpa using trimChars_solid_append (by simp) h []

/-- Trimming keeps the last piece of a text if there is no blank in it. -/
theorem getLast?_pieces_trimChars {p : Char → Bool} (hp : ∀ b, isBlank b = true → p b = false)
    {cs last : List Char} (h : (pieces p cs).getLast? = some last) (hsolid : Solid last) :
    (pieces p (trimChars cs)).getLast? = some last := by
  have hempty {blanks : List Char} (hblanks : ∀ b ∈ blanks, isBlank b = true)
      (hmem : ∀ b ∈ blanks, b ∈ last) : blanks = [] := by
    refine List.eq_nil_iff_forall_not_mem.mpr fun b hb => ?_
    have hsolid := hsolid b (hmem b hb)
    simp [hblanks b hb] at hsolid
  obtain ⟨front, back, hfront, hback, hcs⟩ := trimChars_split cs
  rw [hcs, getLast?_pieces_append _ fun b hb => hp b (hback b hb)] at h
  obtain ⟨kept, hkept, rfl⟩ := Option.map_eq_some_iff.mp h
  obtain ⟨first, rest, hpieces⟩ := exists_pieces p (trimChars cs)
  have hopening : pieces p front = [] ++ [front] :=
    pieces_of_forall_not fun b hb => hp b (hfront b hb)
  rw [pieces_append hopening hpieces, List.nil_append] at hkept
  rw [hempty hback fun b => List.mem_append_right kept, List.append_nil, hpieces]
  cases rest with
  | nil =>
      have hfirst : front ++ first = kept := by simpa using hkept
      rw [← hfirst, hempty hfront fun b hb => by simp [← hfirst, hb]]
      rfl
  | cons second rest => rwa [List.getLast?_cons_cons] at hkept ⊢

/-! ## Words -/

theorem wordsOf_blank_append {blanks : List Char} (h : ∀ b ∈ blanks, isBlank b = true)
    (cs : List Char) : wordsOf (blanks ++ cs) = wordsOf cs := by
  induction blanks with
  | nil => rfl
  | cons b blanks ih =>
      have hrest := ih fun x hx => h x (by simp [hx])
      simpa [wordsOf, pieces, h b (by simp)] using hrest

theorem wordsOf_append_blank {blanks : List Char} (h : ∀ b ∈ blanks, isBlank b = true)
    (cs : List Char) : wordsOf (cs ++ blanks) = wordsOf cs := by
  cases blanks with
  | nil => rw [List.append_nil]
  | cons b blanks =>
      have hempty : wordsOf blanks = [] := by
        simpa [wordsOf, pieces] using wordsOf_blank_append (fun x hx => h x (by simp [hx])) []
      rw [wordsOf, pieces_append_cons (h b (by simp)), List.filter_append]
      simpa [wordsOf] using hempty

/-- Trimming keeps the words. -/
theorem wordsOf_trimChars (cs : List Char) : wordsOf (trimChars cs) = wordsOf cs := by
  obtain ⟨front, back, hfront, hback, hcs⟩ := trimChars_split cs
  conv_rhs => rw [hcs]
  rw [wordsOf_append_blank hback, wordsOf_blank_append hfront]

theorem solid_of_mem_wordsOf {cs word : List Char} (h : word ∈ wordsOf cs) : Solid word :=
  fun _ hc => eq_false_of_mem_pieces (List.mem_filter.mp h).1 hc

theorem wordsOf_of_solid {cs : List Char} (h : Solid cs) (hne : cs ≠ []) : wordsOf cs = [cs] := by
  rw [wordsOf, pieces_of_forall_not h]
  simp [hne]

/-- A word ends where blanks follow. -/
theorem wordsOf_solid_append {word blanks : List Char} (hsolid : Solid word) (hne : word ≠ [])
    (hblanks : Blanks blanks) (hsome : blanks ≠ []) (rest : List Char) :
    wordsOf (word ++ (blanks ++ rest)) = word :: wordsOf rest := by
  obtain ⟨b, bs, rfl⟩ := List.exists_cons_of_ne_nil hsome
  obtain ⟨hb, hbs⟩ := List.forall_mem_cons.mp hblanks
  rw [List.cons_append, wordsOf, pieces_append_cons hb, pieces_of_forall_not hsolid, List.singleton_append,
    List.filter_cons_of_pos (by simpa using hne)]
  exact congrArg (word :: ·) (wordsOf_blank_append hbs rest)

theorem blanks_of_wordsOf {cs : List Char} (h : wordsOf cs = []) : Blanks cs := by
  intro c hc
  by_contra hblank
  obtain ⟨piece, hpiece, hmem⟩ := mem_pieces hc (by simpa using hblank)
  have hempty : piece.isEmpty = true := by simpa using List.filter_eq_nil_iff.mp h piece hpiece
  rw [List.isEmpty_iff.mp hempty] at hmem
  cases hmem

/-- A text is blank, or blanks stand before its first word and behind this nothing or a blank. -/
theorem blanks_or_exists_word (cs : List Char) :
    Blanks cs ∨ ∃ front word rest, Blanks front ∧ Solid word ∧ word ≠ [] ∧ cs = front ++ (word ++ rest) ∧
      ∀ c ∈ rest.head?, isBlank c = true := by
  induction cs with
  | nil => exact .inl fun _ hb => nomatch hb
  | cons c cs ih =>
      by_cases hc : isBlank c = true
      · rcases ih with hcs | ⟨front, word, rest, hfront, hword, hne, rfl, hrest⟩
        · exact .inl (List.forall_mem_cons.mpr ⟨hc, hcs⟩)
        · exact .inr ⟨c :: front, word, rest, List.forall_mem_cons.mpr ⟨hc, hfront⟩, hword, hne, rfl, hrest⟩
      · have hone : Solid [c] := solid_singleton (by simpa using hc)
        rcases ih with hcs | ⟨front, word, rest, hfront, hword, hne, rfl, hrest⟩
        · exact .inr ⟨[], [c], cs, blanks_nil, hone, List.cons_ne_nil _ _, rfl,
            fun b hb => hcs b (List.mem_of_head? hb)⟩
        · cases front with
          | nil =>
              refine .inr ⟨[], c :: word, rest, blanks_nil, ?_, List.cons_ne_nil _ _, rfl, hrest⟩
              exact List.forall_mem_cons.mpr ⟨hone c List.mem_cons_self, hword⟩
          | cons b front =>
              refine .inr ⟨[], [c], b :: front ++ (word ++ rest), blanks_nil, hone, List.cons_ne_nil _ _, rfl, ?_⟩
              intro x hx
              cases hx
              exact hfront b List.mem_cons_self

/-- The first word stands behind blanks, and other words only behind further ones. -/
theorem exists_of_wordsOf_cons {cs word : List Char} {words : List (List Char)}
    (h : wordsOf cs = word :: words) :
    ∃ front back rest, Blanks front ∧ Blanks back ∧ cs = front ++ (word ++ (back ++ rest)) ∧
      Solid word ∧ word ≠ [] ∧ wordsOf rest = words ∧ (words ≠ [] → back ≠ []) := by
  rcases blanks_or_exists_word cs with hcs | ⟨front, first, rest, hfront, hsolid, hne, rfl, hrest⟩
  · have hempty : wordsOf cs = [] := by simpa [wordsOf, pieces] using wordsOf_blank_append hcs []
    rw [hempty] at h
    cases h
  · rw [wordsOf_blank_append hfront] at h
    cases rest with
    | nil =>
        rw [List.append_nil, wordsOf_of_solid hsolid hne] at h
        cases h
        exact ⟨front, [], [], hfront, blanks_nil, rfl, hsolid, hne, rfl, fun hsome => absurd rfl hsome⟩
    | cons b rest =>
        have hb : Blanks [b] := blanks_singleton (hrest b rfl)
        have hwords := wordsOf_solid_append hsolid hne hb (List.cons_ne_nil _ _) rest
        rw [← List.singleton_append (x := b), hwords] at h
        cases h
        exact ⟨front, [b], rest, hfront, hb, rfl, hsolid, hne, rfl, fun _ => List.cons_ne_nil _ _⟩

/-- A text has three words if and only if these stand with blanks between them. -/
theorem wordsOf_eq_three {cs u v w : List Char} :
    wordsOf cs = [u, v, w] ↔ ∃ front left right back, Blanks front ∧ Blanks left ∧ left ≠ [] ∧ Blanks right ∧
      right ≠ [] ∧ Blanks back ∧ (∀ word ∈ [u, v, w], Solid word ∧ word ≠ []) ∧
      cs = front ++ (u ++ (left ++ (v ++ (right ++ (w ++ back))))) := by
  constructor
  · intro h
    obtain ⟨front, left, rest, hfront, hleft, rfl, hu, hune, h, hleftne⟩ := exists_of_wordsOf_cons h
    obtain ⟨more, right, rest, hmore, hright, rfl, hv, hvne, h, hrightne⟩ := exists_of_wordsOf_cons h
    obtain ⟨others, back, rest, hothers, hback, rfl, hw, hwne, h, -⟩ := exists_of_wordsOf_cons h
    refine ⟨front, left ++ more, right ++ others, back ++ rest, hfront, hleft.append hmore, ?_,
      hright.append hothers, ?_, hback.append (blanks_of_wordsOf h), ?_, by simp⟩
    · simp [hleftne (List.cons_ne_nil _ _)]
    · simp [hrightne (List.cons_ne_nil _ _)]
    · simp [hu, hune, hv, hvne, hw, hwne]
  · rintro ⟨front, left, right, back, hfront, hleft, hleftne, hright, hrightne, hback, hwords, rfl⟩
    simp only [List.forall_mem_cons] at hwords
    obtain ⟨⟨hu, hune⟩, ⟨hv, hvne⟩, ⟨hw, hwne⟩, -⟩ := hwords
    rw [wordsOf_blank_append hfront, wordsOf_solid_append hu hune hleft hleftne,
      wordsOf_solid_append hv hvne hright hrightne, wordsOf_append_blank hback, wordsOf_of_solid hw hwne]

end TableGate.Text
