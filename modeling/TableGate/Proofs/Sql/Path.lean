import TableGate.Proofs.Failure
import TableGate.Proofs.Sql.Column
import TableGate.Proofs.Text.Blank

/-! # Paths under a name

A text that is a name, a dot and a column is understood as the column under the name, whatever the
column is: a path of its own, all columns, or either of them with an alias. -/

namespace TableGate

/-- The part of a path that an identifier is. -/
def Identifier.chars (n : Identifier) : List Char :=
  n.text.toList

theorem Identifier.chars_injective : Function.Injective Identifier.chars := by
  intro m n h
  obtain ⟨s, hs⟩ := m
  obtain ⟨t, ht⟩ := n
  have htext : s = t := String.toList_inj.mp h
  subst htext
  rfl

theorem Identifier.chars_ne_star (n : Identifier) : n.chars ≠ ['*'] := by
  intro h
  have hstar := n.isWordChar_of_mem (c := '*') (by simp [show n.text.toList = ['*'] from h])
  exact absurd hstar (by decide)

theorem Identifier.of?_chars (n : Identifier) : Identifier.of? (String.ofList n.chars) = .ok n := by
  obtain ⟨s, hs⟩ := n
  simp only [Identifier.chars, String.ofList_toList, Identifier.of?]
  exact dif_pos hs

/-- Parts that are understood as identifiers are the characters of these. -/
theorem Identifier.mapM_of?_eq_ok {parts : List (List Char)} {names : List Identifier} :
    (parts.mapM fun part => Identifier.of? (String.ofList part)) = .ok names ↔
      parts = names.map Identifier.chars := by
  rw [Except.mapM_eq_ok]
  constructor
  · intro h
    induction h with
    | nil => rfl
    | cons hpart _ ih => simp [ih, Identifier.chars, Identifier.of?_eq_ok hpart]
  · rintro rfl
    rw [List.forall₂_map_left_iff, List.forall₂_same]
    exact fun n _ => n.of?_chars

namespace Path

/-- The parts of a path between its dots. -/
def parts : Path → List (List Char)
  | .all => [['*']]
  | .column names => names.map Identifier.chars
  | .allOf names => names.map Identifier.chars ++ [['*']]

/-- The path below the names of a table. -/
def under (own : List Identifier) : Path → Path
  | .all => .allOf own
  | .column names => .column (own ++ names)
  | .allOf names => .allOf (own ++ names)

/-- The columns of no table in particular are all columns. -/
def WellFormed (p : Path) : Prop :=
  p ≠ .allOf []

/-- Only in the last place does a path have a star. -/
theorem getLast?_parts_column (names : List Identifier) :
    (parts (.column names)).getLast? ≠ some ['*'] := by
  intro h
  obtain ⟨n, -, hn⟩ := List.mem_map.mp (List.mem_of_getLast? h)
  exact n.chars_ne_star hn

theorem parts_eq_star {p : Path} (hp : p.WellFormed) (h : p.parts = [['*']]) : p = .all := by
  cases p with
  | all => rfl
  | column names => exact absurd (by rw [h]; rfl) (getLast?_parts_column names)
  | allOf names =>
      have hnames : names = [] := by simpa [parts] using h
      exact absurd (by rw [hnames]) hp

/-- A text is the path that has its parts. -/
theorem of?_eq_ok {cs : List Char} {p : Path} :
    of? cs = .ok p ↔ p.WellFormed ∧ Text.pieces (· == '.') cs = p.parts := by
  unfold of?
  split
  · rename_i hstar
    subst hstar
    constructor
    · intro h
      cases h
      exact ⟨by simp [WellFormed], rfl⟩
    · rintro ⟨hp, hparts⟩
      rw [parts_eq_star hp hparts.symm]
  · rename_i hstar
    have hmany : Text.pieces (· == '.') cs ≠ [['*']] := fun h => hstar (Text.pieces_eq_singleton h)
    generalize Text.pieces (· == '.') cs = ps at hmany
    simp only [Bool.and_eq_true, decide_eq_true_eq, beq_iff_eq]
    split
    · rename_i hlast
      obtain ⟨front, rfl⟩ := List.getLast?_eq_some_iff.mp hlast.2
      rw [List.dropLast_concat, Except.map_eq_ok]
      simp only [Identifier.mapM_of?_eq_ok]
      constructor
      · rintro ⟨names, rfl, rfl⟩
        refine ⟨?_, rfl⟩
        rintro hnames
        cases hnames
        simp at hlast
      · rintro ⟨_, hparts⟩
        cases p with
        | all => exact absurd hparts hmany
        | column names => exact absurd (hparts ▸ hlast.2) (getLast?_parts_column names)
        | allOf names => exact ⟨names, List.append_cancel_right hparts, rfl⟩
    · rename_i hlast
      rw [Except.map_eq_ok]
      simp only [Identifier.mapM_of?_eq_ok]
      constructor
      · rintro ⟨names, rfl, rfl⟩
        exact ⟨by simp [WellFormed], rfl⟩
      · rintro ⟨hp, hparts⟩
        cases p with
        | all => exact absurd hparts hmany
        | column names => exact ⟨names, hparts, rfl⟩
        | allOf names =>
            have hnames : names ≠ [] := fun hnil => hp (by rw [hnil])
            refine absurd ⟨?_, ?_⟩ hlast
            · simp [hparts, parts, List.length_pos_iff.mpr hnames]
            · simp [hparts, parts]

/-- A path that continues the names of a table is a path below them. -/
theorem eq_under {own : List Identifier} (hown : own ≠ []) {rest : List (List Char)}
    (hrest : rest ≠ []) {p : Path} (h : own.map Identifier.chars ++ rest = p.parts) :
    ∃ q : Path, q.WellFormed ∧ rest = q.parts ∧ p = q.under own := by
  cases p with
  | all =>
      have hlength := congrArg List.length h
      have hownLength := List.length_pos_iff.mpr hown
      have hrestLength := List.length_pos_iff.mpr hrest
      simp only [parts, List.length_append, List.length_map, List.length_singleton] at hlength
      omega
  | column names =>
      obtain ⟨front, more, rfl, hfront, hmore⟩ := List.map_eq_append_iff.mp h.symm
      have hnames := List.map_injective_iff.mpr Identifier.chars_injective hfront
      subst hnames
      exact ⟨.column more, by simp [WellFormed], hmore.symm, rfl⟩
  | allOf names =>
      obtain ⟨init, last, rfl⟩ : ∃ init last, rest = init ++ [last] :=
        ⟨rest.dropLast, rest.getLast hrest, (List.dropLast_append_getLast hrest).symm⟩
      rw [← List.append_assoc, parts] at h
      obtain ⟨hinit, hlast⟩ := List.append_inj' h rfl
      obtain ⟨front, more, rfl, hfront, hmore⟩ := List.map_eq_append_iff.mp hinit.symm
      have hnames := List.map_injective_iff.mpr Identifier.chars_injective hfront
      subst hnames
      cases more with
      | nil => exact ⟨.all, by simp [WellFormed], by simp [parts, hlast, ← hmore], by simp [under]⟩
      | cons n more =>
          exact ⟨.allOf (n :: more), by simp [WellFormed], by rw [parts, hlast, hmore], rfl⟩

end Path

end TableGate
