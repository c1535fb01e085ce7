import Mathlib.Data.Nat.Notation
import TableGate.Text.Pieces

/-! # Cutting text at a character

Text is cut in two at the first marked character, and into pieces at each of them. -/

namespace TableGate.Text

variable {p : Char → Bool}

theorem beq_eq_false_of_notMem {c : Char} {cs : List Char} (h : c ∉ cs) : ∀ b ∈ cs, (b == c) = false := by
  intro b hb
  rw [beq_eq_false_iff_ne]
  rintro rfl
  exact h hb

/-- A text is cut at the first marked character and nowhere else. -/
theorem cut?_eq_some {cs before after : List Char} :
    cut? p cs = some (before, after) ↔
      ∃ c, p c = true ∧ (∀ b ∈ before, p b = false) ∧ cs = before ++ c :: after := by
  induction cs generalizing before with
  | nil => simp [cut?]
  | cons c cs ih =>
      by_cases hc : p c = true
      · simp only [cut?, hc, if_true, Option.some.injEq, Prod.mk.injEq]
        constructor
        · rintro ⟨rfl, rfl⟩
          exact ⟨c, hc, by simp, rfl⟩
        · rintro ⟨x, hx, hbefore, heq⟩
          cases before with
          | nil => exact ⟨rfl, (List.cons.inj heq).2⟩
          | cons b before =>
              have hb := hbefore b (by simp)
              simp only [List.cons_append, List.cons.injEq] at heq
              simp [← heq.1, hc] at hb
      · simp only [cut?, hc, Bool.false_eq_true, if_false, Option.map_eq_some_iff, Prod.exists,
          Prod.mk.injEq]
        constructor
        · rintro ⟨b, a, hcut, rfl, rfl⟩
          obtain ⟨x, hx, hb, rfl⟩ := ih.mp hcut
          exact ⟨x, hx, by simpa [hc] using hb, rfl⟩
        · rintro ⟨x, hx, hbefore, heq⟩
          cases before with
          | nil =>
              simp only [List.nil_append, List.cons.injEq] at heq
              exact absurd (heq.1 ▸ hx) hc
          | cons b before =>
              simp only [List.cons_append, List.cons.injEq] at heq
              exact ⟨before, after, ih.mpr ⟨x, hx, fun y hy => hbefore y (by simp [hy]), heq.2⟩,
                by rw [heq.1], rfl⟩

theorem cut?_append {before : List Char} {c : Char} (hbefore : ∀ b ∈ before, p b = false)
    (hc : p c = true) (after : List Char) : cut? p (before ++ c :: after) = some (before, after) :=
  cut?_eq_some.mpr ⟨c, hc, hbefore, rfl⟩

theorem cut?_eq_none {cs : List Char} : cut? p cs = none ↔ ∀ c ∈ cs, p c = false := by
  induction cs with
  | nil => simp [cut?]
  | cons c cs ih =>
      by_cases hc : p c = true
      · simp [cut?, hc]
      · simp [cut?, hc, ih]

/-- A text is cut at the last marked character and nowhere else. -/
theorem cutLast?_append {before after : List Char} {c : Char} (hc : p c = true)
    (hafter : ∀ b ∈ after, p b = false) :
    cutLast? p (before ++ c :: after) = some (before, after) := by
  have hreverse : (before ++ c :: after).reverse = after.reverse ++ c :: before.reverse := by simp
  have hback : ∀ b ∈ after.reverse, p b = false := by simpa using hafter
  rw [cutLast?, hreverse, cut?_append hback hc]
  simp

theorem cutLast?_of_forall_not {cs : List Char} (h : ∀ c ∈ cs, p c = false) : cutLast? p cs = none := by
  rw [cutLast?, cut?_eq_none.mpr (by simpa using h)]
  rfl

/-- A text is free of marked characters, or it is parted by the last of them. -/
theorem exists_last (p : Char → Bool) (cs : List Char) :
    (∀ c ∈ cs, p c = false) ∨
      ∃ before c after, p c = true ∧ (∀ b ∈ after, p b = false) ∧ cs = before ++ c :: after := by
  cases h : cut? p cs.reverse with
  | none => exact .inl (by simpa using cut?_eq_none.mp h)
  | some found =>
      obtain ⟨c, hc, hback, hcs⟩ := cut?_eq_some.mp h
      refine .inr ⟨found.2.reverse, c, found.1.reverse, hc, by simpa using hback, ?_⟩
      rw [← List.reverse_reverse cs, hcs]
      simp

/-! ## All pieces -/

theorem pieces_ne_nil (p : Char → Bool) (cs : List Char) : pieces p cs ≠ [] := by
  cases cs with
  | nil => simp [pieces]
  | cons c cs =>
      rw [pieces]
      split
      · simp
      · split <;> simp

theorem pieces_cons_of_neg {c : Char} {cs first : List Char} {rest : List (List Char)}
    (hc : p c = false) (hcs : pieces p cs = first :: rest) :
    pieces p (c :: cs) = (c :: first) :: rest := by
  simp [pieces, hc, hcs]

theorem exists_pieces (p : Char → Bool) (cs : List Char) :
    ∃ first rest, pieces p cs = first :: rest :=
  List.exists_cons_of_ne_nil (pieces_ne_nil p cs)

theorem pieces_of_forall_not {cs : List Char} (h : ∀ c ∈ cs, p c = false) : pieces p cs = [cs] := by
  induction cs with
  | nil => rfl
  | cons c cs ih => exact pieces_cons_of_neg (h c (by simp)) (ih fun x hx => h x (by simp [hx]))

/-- A marked character parts the pieces before it from those after it. -/
theorem pieces_append_cons {c : Char} (hc : p c = true) (before after : List Char) :
    pieces p (before ++ c :: after) = pieces p before ++ pieces p after := by
  induction before with
  | nil => simp [pieces, hc]
  | cons b before ih =>
      by_cases hb : p b = true
      · simp [pieces, hb, ih]
      · obtain ⟨first, rest, hpieces⟩ := exists_pieces p before
        simp [pieces, hb, ih, hpieces]

/-- Where two texts meet, the last piece of the one and the first piece of the other become one. -/
theorem pieces_append {xs ys last first : List Char} {front rest : List (List Char)}
    (hxs : pieces p xs = front ++ [last]) (hys : pieces p ys = first :: rest) :
    pieces p (xs ++ ys) = front ++ (last ++ first) :: rest := by
  induction xs generalizing front last with
  | nil =>
      have hfront : front = [] ∧ last = [] := by
        simpa [pieces, List.append_eq_singleton_iff] using hxs.symm
      simpa [hfront] using hys
  | cons x xs ih =>
      by_cases hx : p x = true
      · cases front with
        | nil => simp [pieces, hx, pieces_ne_nil] at hxs
        | cons f front =>
            simp only [pieces, hx, if_true, List.cons_append, List.cons.injEq] at hxs ⊢
            exact ⟨hxs.1, ih hxs.2⟩
      · have hx' : p x = false := by simpa using hx
        obtain ⟨f, fs, hpieces⟩ := exists_pieces p xs
        rw [pieces_cons_of_neg hx' hpieces] at hxs
        cases front with
        | nil =>
            simp only [List.nil_append, List.cons.injEq] at hxs
            obtain ⟨rfl, rfl⟩ := hxs
            exact pieces_cons_of_neg hx' (ih (show pieces p xs = [] ++ [f] from hpieces))
        | cons g gs =>
            simp only [List.cons_append, List.cons.injEq] at hxs
            obtain ⟨rfl, rfl⟩ := hxs
            exact pieces_cons_of_neg hx' (ih (show pieces p xs = (f :: gs) ++ [last] from hpieces))

/-- What follows without a marked character belongs to the last piece. -/
theorem getLast?_pieces_append (cs : List Char) {tail : List Char} (h : ∀ c ∈ tail, p c = false) :
    (pieces p (cs ++ tail)).getLast? = (pieces p cs).getLast?.map (· ++ tail) := by
  obtain ⟨init, last, hcs⟩ : ∃ init last, pieces p cs = init ++ [last] :=
    ⟨_, _, (List.dropLast_concat_getLast (pieces_ne_nil p cs)).symm⟩
  rw [pieces_append hcs (pieces_of_forall_not h), hcs]
  simp

theorem mem_pieces {cs : List Char} {c : Char} (h : c ∈ cs) (hc : p c = false) :
    ∃ piece ∈ pieces p cs, c ∈ piece := by
  induction cs with
  | nil => cases h
  | cons x cs ih =>
      by_cases hx : p x = true
      · rcases List.mem_cons.mp h with rfl | h
        · simp [hx] at hc
        · obtain ⟨piece, hpiece, hmem⟩ := ih h
          exact ⟨piece, by simp [pieces, hx, hpiece], hmem⟩
      · obtain ⟨first, rest, hpieces⟩ := exists_pieces p cs
        rw [pieces_cons_of_neg (by simpa using hx) hpieces]
        rcases List.mem_cons.mp h with rfl | h
        · exact ⟨_, List.mem_cons_self, List.mem_cons_self⟩
        · obtain ⟨piece, hpiece, hmem⟩ := ih h
          rw [hpieces] at hpiece
          rcases List.mem_cons.mp hpiece with rfl | hpiece
          · exact ⟨_, List.mem_cons_self, List.mem_cons_of_mem _ hmem⟩
          · exact ⟨piece, List.mem_cons_of_mem _ hpiece, hmem⟩

theorem eq_false_of_mem_pieces {cs piece : List Char} (h : piece ∈ pieces p cs) {c : Char}
    (hc : c ∈ piece) : p c = false := by
  induction cs generalizing piece with
  | nil =>
      rw [List.mem_singleton.mp h] at hc
      cases hc
  | cons x cs ih =>
      by_cases hx : p x = true
      · simp only [pieces, hx, if_true] at h
        rcases List.mem_cons.mp h with rfl | h
        · cases hc
        · exact ih h hc
      · obtain ⟨first, rest, hpieces⟩ := exists_pieces p cs
        rw [pieces_cons_of_neg (by simpa using hx) hpieces] at h
        rcases List.mem_cons.mp h with rfl | h
        · rcases List.mem_cons.mp hc with rfl | hc
          · simpa using hx
          · exact ih (by simp [hpieces]) hc
        · exact ih (by simp [hpieces, h]) hc

theorem mem_of_mem_pieces {cs piece : List Char} (h : piece ∈ pieces p cs) {c : Char} (hc : c ∈ piece) :
    c ∈ cs := by
  induction cs generalizing piece with
  | nil =>
      rw [List.mem_singleton.mp h] at hc
      cases hc
  | cons x cs ih =>
      by_cases hx : p x = true
      · simp only [pieces, hx, if_true] at h
        rcases List.mem_cons.mp h with rfl | h
        · cases hc
        · exact List.mem_cons_of_mem _ (ih h hc)
      · obtain ⟨first, rest, hpieces⟩ := exists_pieces p cs
        rw [pieces_cons_of_neg (by simpa using hx) hpieces] at h
        rcases List.mem_cons.mp h with rfl | h
        · rcases List.mem_cons.mp hc with rfl | hc
          · exact List.mem_cons_self
          · exact List.mem_cons_of_mem _ (ih (by simp [hpieces]) hc)
        · exact List.mem_cons_of_mem _ (ih (by simp [hpieces, h]) hc)

theorem pieces_eq_singleton {cs piece : List Char} (h : pieces p cs = [piece]) : cs = piece := by
  induction cs generalizing piece with
  | nil => simpa [pieces] using h
  | cons c cs ih =>
      by_cases hc : p c = true
      · simp [pieces, hc, pieces_ne_nil] at h
      · obtain ⟨first, rest, hpieces⟩ := exists_pieces p cs
        rw [pieces_cons_of_neg (by simpa using hc) hpieces] at h
        simp only [List.cons.injEq] at h
        obtain ⟨rfl, rfl⟩ := h
        rw [ih hpieces]

/-- Pieces with the character between them that they were cut at are the text. -/
theorem intercalate_pieces (c : Char) (cs : List Char) : [c].intercalate (pieces (· == c) cs) = cs := by
  induction cs with
  | nil => rfl
  | cons x cs ih =>
      obtain ⟨first, rest, hpieces⟩ := exists_pieces (· == c) cs
      rw [hpieces] at ih
      by_cases hx : x = c
      · subst hx
        rw [pieces, if_pos (beq_self_eq_true x), hpieces, List.intercalate_cons_cons, ih]
        rfl
      · rw [pieces_cons_of_neg (p := (· == c)) (beq_eq_false_iff_ne.mpr hx) hpieces]
        cases rest with
        | nil => rw [List.intercalate_singleton, ← ih, List.intercalate_singleton]
        | cons second rest => rw [List.intercalate_cons_cons, ← ih, List.intercalate_cons_cons]; rfl

/-- Pieces that are put together with the character between them are found again. -/
theorem pieces_intercalate {c : Char} {parts : List (List Char)} (hne : parts ≠ [])
    (h : ∀ part ∈ parts, c ∉ part) : pieces (· == c) ([c].intercalate parts) = parts := by
  induction parts with
  | nil => exact absurd rfl hne
  | cons first rest ih =>
      obtain ⟨hfirst, hrest⟩ := List.forall_mem_cons.mp h
      have hone : pieces (· == c) first = [first] := pieces_of_forall_not (beq_eq_false_of_notMem hfirst)
      cases rest with
      | nil => rw [List.intercalate_singleton, hone]
      | cons second rest =>
          rw [List.intercalate_cons_cons, List.append_assoc, List.singleton_append,
            pieces_append_cons (p := (· == c)) (beq_self_eq_true c), hone, ih (List.cons_ne_nil _ _) hrest]
          rfl

/-- Pieces, each behind the character that they were cut at, are the text behind this character. -/
theorem flatMap_pieces (c : Char) (cs : List Char) : (pieces (· == c) cs).flatMap (c :: ·) = c :: cs := by
  induction cs with
  | nil => rfl
  | cons x cs ih =>
      obtain ⟨first, rest, hpieces⟩ := exists_pieces (· == c) cs
      rw [hpieces, List.flatMap_cons, List.cons_append, List.cons.injEq] at ih
      by_cases hx : x = c
      · rw [pieces, if_pos (beq_iff_eq.mpr hx), hpieces, List.flatMap_cons, List.flatMap_cons, hx]
        simp [ih.2]
      · rw [pieces_cons_of_neg (p := (· == c)) (beq_eq_false_iff_ne.mpr hx) hpieces, List.flatMap_cons]
        simp [ih.2]

end TableGate.Text
