import Mathlib.Data.List.Infix
import TableGate.Proofs.Text.Ascii
import TableGate.Proofs.Text.Decimal
import TableGate.Sql.RawPolicy

/-! # Text that ends no statement and opens no comment

A text is clean if no statement ends in it and no comment begins in it. Two clean texts may not be clean
together: what counts is where they meet. A plain text stays clean whatever clean text follows it, and it
holds no quotation mark. -/

namespace TableGate.Text

/-- The text holds no statement separator and no start of a comment. -/
def Clean : List Char → Prop
  | [] => True
  | c :: cs => c ≠ ';' ∧ (c = '-' → cs.head? ≠ some '-') ∧ (c = '/' → cs.head? ≠ some '*') ∧ Clean cs

instance decidableClean : ∀ cs : List Char, Decidable (Clean cs)
  | [] => .isTrue trivial
  | _ :: cs =>
    have := decidableClean cs
    inferInstanceAs (Decidable (_ ∧ _ ∧ _ ∧ _))

theorem singleton_prefix_iff {c : Char} {cs : List Char} : [c] <+: cs ↔ cs.head? = some c := by
  cases cs with
  | nil => simp
  | cons d cs => simp [List.cons_prefix_cons, eq_comm]

/-- What a clean text does not hold, one after the other. -/
theorem clean_iff {cs : List Char} :
    Clean cs ↔ ∀ part ∈ [";", "--", "/*"], ¬part.toList <:+: cs := by
  have hparts (ds : List Char) : (∀ part ∈ [";", "--", "/*"], ¬part.toList <:+: ds) ↔
      ¬[';'] <:+: ds ∧ ¬['-', '-'] <:+: ds ∧ ¬['/', '*'] <:+: ds := by simp
  induction cs with
  | nil => simp [Clean]
  | cons c cs ih =>
      rw [hparts] at ih ⊢
      simp only [Clean, ih, List.infix_cons_iff, singleton_prefix_iff, List.cons_prefix_cons, not_or,
        not_and, eq_comm (b := c)]
      tauto

theorem after?_eq_some {part cs rest : List Char} : after? part cs = some rest ↔ part ++ rest = cs := by
  induction part generalizing cs with
  | nil => simp [after?, eq_comm]
  | cons p part ih =>
      cases cs with
      | nil => simp [after?]
      | cons c cs =>
          rw [after?]
          split
          · rename_i hc
            simp [hc, ih]
          · rename_i hc
            simp [hc]

theorem occursIn_iff {part cs : List Char} : occursIn part cs = true ↔ part <:+: cs := by
  unfold occursIn
  induction cs with
  | nil => cases part <;> simp [cutAt?]
  | cons c cs ih =>
      rw [cutAt?, List.infix_cons_iff]
      split
      · rename_i rest hafter
        simp only [Option.isSome_some, true_iff]
        exact .inl ⟨rest, after?_eq_some.mp hafter⟩
      · rename_i hafter
        have hopens : ¬part <+: c :: cs := by
          rintro ⟨rest, hrest⟩
          rw [after?_eq_some.mpr hrest] at hafter
          cases hafter
        rw [Option.isSome_map, ih]
        simp [hopens]

/-- The guarded policy accepts clean fragments and no others. -/
theorem isUnsafeText_eq_false {cs : List Char} : RawPolicy.isUnsafeText cs = false ↔ Clean cs := by
  have hoccurs {part : List Char} : occursIn part cs = false ↔ ¬part <:+: cs := by
    rw [← occursIn_iff, Bool.not_eq_true]
  rw [clean_iff]
  simp [RawPolicy.isUnsafeText, hoccurs, and_assoc]

theorem Clean.cons {c : Char} {cs : List Char} (hc : c ∉ [';', '-', '/']) (h : Clean cs) :
    Clean (c :: cs) := by
  simp only [List.mem_cons, List.not_mem_nil, or_false, not_or] at hc
  exact ⟨hc.1, fun hhyphen => absurd hhyphen hc.2.1, fun hslash => absurd hslash hc.2.2, h⟩

theorem Clean.append {cs ds : List Char} (hcs : Clean cs) (hds : Clean ds)
    (hhyphen : cs.getLast? = some '-' → ds.head? ≠ some '-')
    (hslash : cs.getLast? = some '/' → ds.head? ≠ some '*') : Clean (cs ++ ds) := by
  induction cs with
  | nil => exact hds
  | cons c cs ih =>
      obtain ⟨hsemicolon, hyphens, hslashes, hrest⟩ := hcs
      cases cs with
      | nil => exact ⟨hsemicolon, fun h => hhyphen (by simp [h]), fun h => hslash (by simp [h]), hds⟩
      | cons d cs => exact ⟨hsemicolon, hyphens, hslashes, ih hrest hhyphen hslash⟩

/-! ## Plain text -/

/-- The text is clean, does not end in a character that could be half of a comment's start, and holds no
quotation mark of any kind. -/
def Plain (cs : List Char) : Prop :=
  Clean cs ∧ (∀ c ∈ cs, c ∉ ['\'', '"', '\x60', '/']) ∧ cs.getLast? ≠ some '-'

instance (cs : List Char) : Decidable (Plain cs) :=
  have := List.decidableBAll (fun c => c ∉ ['\'', '"', '\x60', '/']) cs
  inferInstanceAs (Decidable (_ ∧ _ ∧ _))

/-- A plain text may stand in front of any clean one. -/
theorem Plain.clean_append {cs ds : List Char} (hcs : Plain cs) (hds : Clean ds) : Clean (cs ++ ds) := by
  refine hcs.1.append hds (fun h => absurd h hcs.2.2) fun h => ?_
  exact absurd (by simp) (hcs.2.1 '/' (List.mem_of_getLast? h))

theorem Plain.append {cs ds : List Char} (hcs : Plain cs) (hds : Plain ds) : Plain (cs ++ ds) := by
  refine ⟨hcs.clean_append hds.1, ?_, ?_⟩
  · intro c hc
    rcases List.mem_append.mp hc with hc | hc
    · exact hcs.2.1 c hc
    · exact hds.2.1 c hc
  · rw [List.getLast?_append]
    cases hlast : ds.getLast? with
    | none => simpa using hcs.2.2
    | some c => simpa [hlast] using hds.2.2

/-- A character that is in no way special. -/
def isPlainChar (c : Char) : Bool :=
  !(['\'', '"', '\x60', '/', ';', '-'].contains c)

theorem plain_of_forall {cs : List Char} (h : ∀ c ∈ cs, isPlainChar c = true) : Plain cs := by
  have hne {c d : Char} (hc : c ∈ cs) (hd : isPlainChar d = false) : c ≠ d := by
    rintro rfl
    simp [h c hc] at hd
  refine ⟨?_, ?_, ?_⟩
  · clear hne
    induction cs with
    | nil => trivial
    | cons c cs ih =>
        have hc := h c List.mem_cons_self
        refine ⟨?_, ?_, ?_, ih fun d hd => h d (List.mem_cons_of_mem c hd)⟩ <;>
          · rintro rfl
            exact absurd hc (by decide)
  · intro c hc hmem
    exact absurd (h c hc) (by revert hmem; simp [isPlainChar]; tauto)
  · intro hlast
    exact hne (List.mem_of_getLast? hlast) (d := '-') (by decide) rfl

/-- No character of a kind is among characters that are all of another kind. -/
theorem notMem_of_all {p : Char → Bool} {cs : List Char} (hcs : cs.all (fun c => !p c) = true) {c : Char}
    (hc : p c = true) : c ∉ cs := by
  intro hmem
  have hother := List.all_eq_true.mp hcs c hmem
  simp [hc] at hother

theorem isPlainChar_of_isWordChar {c : Char} (h : isWordChar c = true) : isPlainChar c = true := by
  have hspecial : c ∉ ['\'', '"', '\x60', '/', ';', '-'] := notMem_of_all (by decide) h
  simpa [isPlainChar] using hspecial

theorem plain_ofNat (n : ℕ) : Plain (ofNat n).toList := by
  rw [ofNat, String.toList_ofList]
  exact plain_of_forall fun c hc =>
    isPlainChar_of_isWordChar (isWordChar_of_isDigit (isDigit_of_mem_digits hc))

end TableGate.Text
