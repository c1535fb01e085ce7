import Mathlib.Data.List.Forall2
import TableGate.Proofs.Sql.Marks

/-! # Templates and the values they carry

A template carries values when they are its parameters and a scan of its text finds their marks and no
others, whatever text follows it. The property is kept by the ways in which templates are put together. -/

namespace TableGate

namespace Value

/-- A value that a statement can bind in a condition: neither null nor a list nor an object. -/
def isScalar : Value → Bool
  | .bool _ => true
  | .int _ => true
  | .real _ => true
  | .text _ => true
  | _ => false

end Value

/-- The text holds no character that opens the mark of a parameter in some dialect. -/
def Unmarked (s : String) : Prop :=
  '$' ∉ s.toList ∧ '?' ∉ s.toList

instance (s : String) : Decidable (Unmarked s) :=
  inferInstanceAs (Decidable (_ ∧ _))

theorem Unmarked.markChar_notMem {s : String} (h : Unmarked s) (d : Dialect) :
    d.markChar ∉ s.toList := by
  cases d
  · exact h.2
  · exact h.1
  · exact h.2

theorem Unmarked.append {s t : String} (hs : Unmarked s) (ht : Unmarked t) : Unmarked (s ++ t) := by
  simp only [Unmarked, String.toList_append, List.mem_append, not_or]
  exact ⟨⟨hs.1, ht.1⟩, ⟨hs.2, ht.2⟩⟩

/-- The text is not empty and does not open with a digit. -/
def opensWithoutDigit (s : String) : Bool :=
  s.toList.head?.any fun c => !c.isDigit

theorem noDigitFirst_of_opens {s : String} (h : opensWithoutDigit s = true) :
    NoDigitFirst s.toList := by
  intro c hc
  rw [opensWithoutDigit, hc] at h
  simpa using h

theorem opensWithoutDigit_append {s : String} (h : opensWithoutDigit s = true) (t : String) :
    opensWithoutDigit (s ++ t) = true := by
  cases hs : s.toList with
  | nil => simp [opensWithoutDigit, hs] at h
  | cons c cs => simpa [opensWithoutDigit, hs] using h

/-- A word holds no mark. -/
theorem notMem_of_isWordChar {cs : List Char} (h : ∀ c ∈ cs, Text.isWordChar c = true) (d : Dialect) :
    d.markChar ∉ cs := by
  intro hmem
  have hword := h _ hmem
  cases d <;> exact absurd hword (by decide)

theorem Identifier.isWordChar_of_mem (n : Identifier) {c : Char} (h : c ∈ n.text.toList) :
    Text.isWordChar c = true := by
  have hvalid := n.valid
  cases htext : n.text.toList with
  | nil => simp [htext] at h
  | cons first rest =>
      rw [htext] at hvalid h
      simp only [Text.isIdentifier, Bool.and_eq_true, List.all_eq_true] at hvalid
      rcases List.mem_cons.mp h with rfl | h
      · have hinitial := hvalid.1
        simp only [Text.isInitial, Bool.or_eq_true] at hinitial
        rcases hinitial with halpha | hunder
        · simp [Text.isWordChar, Char.isAlphanum, halpha]
        · simp [Text.isWordChar, hunder]
      · exact hvalid.2 c h

namespace Dialect

theorem markChar_notMem_quoted (d : Dialect) (n : Identifier) :
    d.markChar ∉ (d.quoted n).toList := by
  have hname : d.markChar ∉ n.text.toList :=
    notMem_of_isWordChar (fun c hc => n.isWordChar_of_mem hc) d
  simp only [quoted, String.toList_append, List.mem_append, not_or]
  refine ⟨⟨?_, hname⟩, ?_⟩ <;> cases d <;> decide

end Dialect

namespace Template

variable {d : Dialect} {vs ws : List Value} {s t : Template}

theorem printFrom_append (d : Dialect) (n : ℕ) (s t : Template) :
    printFrom d n (s ++ t) = printFrom d n s ++ printFrom d (n + (params s).length) t := by
  induction s generalizing n with
  | nil => simp [printFrom, params]
  | cons p s ih =>
      cases p with
      | param v => simp [printFrom, params, ih, String.append_assoc, Nat.add_assoc, Nat.add_comm 1]
      | text x => simp [printFrom, params, ih, String.append_assoc]
      | name i => simp [printFrom, params, ih, String.append_assoc]
      | raw x => simp [printFrom, params, ih, String.append_assoc]
      | literal x => simp [printFrom, params, ih, String.append_assoc]

/-- The position of the parameter that follows those of a template. -/
def after (n : ℕ) (t : Template) : ℕ :=
  n + (params t).length

theorem after_congr {s t : Template} (h : params s = params t) (n : ℕ) : after n s = after n t := by
  rw [after, after, h]

/-- A template without parameters has the same text wherever it stands. -/
theorem printFrom_eq_print {t : Template} (h : params t = []) (d : Dialect) (n : ℕ) :
    printFrom d n t = print d t := by
  suffices hall : ∀ m, printFrom d n t = printFrom d m t from hall 1
  induction t with
  | nil => exact fun _ => rfl
  | cons p t ih =>
      cases p with
      | param v => cases h
      | text x => exact fun m => congrArg (x ++ ·) (ih h m)
      | name i => exact fun m => congrArg (d.quoted i ++ ·) (ih h m)
      | raw x => exact fun m => congrArg (x ++ ·) (ih h m)
      | literal x => exact fun m => congrArg ("'" ++ x ++ "'" ++ ·) (ih h m)

theorem params_joined (separator : String) (ts : List Template) :
    params (joined separator ts) = ts.flatMap params := by
  induction ts with
  | nil => rfl
  | cons t ts ih =>
      cases ts with
      | nil => simp [joined]
      | cons u us => simpa [joined, params_append, params] using ih

theorem joined_concat (separator : String) {ts : List Template} (h : ts ≠ []) (t : Template) :
    joined separator (ts ++ [t]) = joined separator ts ++ .text separator :: t := by
  induction ts with
  | nil => exact absurd rfl h
  | cons u us ih =>
      cases us with
      | nil => rfl
      | cons v vs =>
          rw [List.cons_append, joined, joined, ih (List.cons_ne_nil _ _), List.append_assoc, List.cons_append]
          · exact List.cons_ne_nil _ _
          · simp

/-- The texts of templates whose parameters are numbered through. -/
def printEach (d : Dialect) : ℕ → List Template → List String
  | _, [] => []
  | n, t :: ts => printFrom d n t :: printEach d (n + (params t).length) ts

/-- Templates in a row are printed with the separator between their texts. -/
theorem printFrom_joined (d : Dialect) (n : ℕ) (separator : String) (ts : List Template) :
    printFrom d n (joined separator ts) = separator.intercalate (printEach d n ts) := by
  induction ts generalizing n with
  | nil => rfl
  | cons t ts ih =>
      cases ts with
      | nil => simp [joined, printEach]
      | cons u us =>
          rw [joined, printFrom_append, printFrom, ih]
          · simp only [printEach, String.intercalate_cons_cons, String.append_assoc]
          · exact List.cons_ne_nil _ _

theorem printEach_eq_map (d : Dialect) (n : ℕ) {ts : List Template} (h : ∀ t ∈ ts, params t = []) :
    printEach d n ts = ts.map (print d) := by
  induction ts generalizing n with
  | nil => rfl
  | cons t ts ih =>
      obtain ⟨ht, hts⟩ := List.forall_mem_cons.mp h
      rw [printEach, printFrom_eq_print ht, ih _ hts, List.map_cons]

/-- Templates without parameters are printed behind others as they are alone. -/
theorem printEach_append (d : Dialect) (n : ℕ) (ts : List Template) {us : List Template}
    (h : ∀ u ∈ us, params u = []) : printEach d n (ts ++ us) = printEach d n ts ++ us.map (print d) := by
  induction ts generalizing n with
  | nil => exact printEach_eq_map d n h
  | cons t ts ih => rw [List.cons_append, printEach, printEach, ih, List.cons_append]

/-- Templates without parameters are printed alike wherever they stand. -/
theorem printEach_map {α : Type} {d : Dialect} {f : α → Template} {text : α → String}
    (hparams : ∀ x, params (f x) = []) (hprint : ∀ n x, printFrom d n (f x) = text x) (n : ℕ) (xs : List α) :
    printEach d n (xs.map f) = xs.map text := by
  induction xs with
  | nil => rfl
  | cons x xs ih => simp [printEach, hparams, hprint, ih]

theorem printEach_params (d : Dialect) (n : ℕ) (values : List Value) :
    printEach d n (values.map fun v => [.param v]) = (List.range' n values.length).map d.placeholder := by
  induction values generalizing n with
  | nil => rfl
  | cons v values ih => simp [printEach, printFrom, params, ih, List.range'_succ]

/-- The text of a template never opens with a digit, unless the template is empty and what follows it
does. -/
def Opens (d : Dialect) (t : Template) : Prop :=
  ∀ n cs, NoDigitFirst cs → NoDigitFirst ((printFrom d n t).toList ++ cs)

/-- The template binds the values, in order, and a scan of its text finds their marks and no others. -/
structure Carries (d : Dialect) (vs : List Value) (t : Template) : Prop where
  params_eq : params t = vs
  scalar : ∀ v ∈ vs, v.isScalar = true
  marks_eq : ∀ n cs, NoDigitFirst cs → d.marks ((printFrom d n t).toList ++ cs) =
    (List.range' n vs.length).map d.placeholder ++ d.marks cs

/-! ## Where a template opens -/

theorem opens_nil : Opens d [] := by
  intro n cs h
  simpa [printFrom] using h

theorem opens_text {x : String} (h : opensWithoutDigit x = true) : Opens d (.text x :: t) := by
  intro n cs _
  have hfirst := noDigitFirst_of_opens (opensWithoutDigit_append h (printFrom d n t))
  cases hx : x.toList with
  | nil => simp [opensWithoutDigit, hx] at h
  | cons c rest => simpa [NoDigitFirst, printFrom, hx] using hfirst

theorem opens_text_cons {x : String} (h : NoDigitFirst x.toList) (ht : Opens d t) :
    Opens d (.text x :: t) := by
  intro n cs hcs
  simp only [printFrom, String.toList_append, List.append_assoc]
  cases hx : x.toList with
  | nil => simpa using ht n cs hcs
  | cons c rest =>
      rw [hx] at h
      simpa [NoDigitFirst] using h

theorem Opens.append (hs : Opens d s) (ht : Opens d t) : Opens d (s ++ t) := by
  intro n cs h
  rw [printFrom_append, String.toList_append, List.append_assoc]
  exact hs n _ (ht _ cs h)

/-! ## Putting templates together -/

theorem carries_nil : Carries d [] [] :=
  ⟨rfl, by simp, fun n cs _ => by simp [printFrom]⟩

theorem Carries.append (hs : Carries d vs s) (ht : Carries d ws t) (ho : Opens d t) :
    Carries d (vs ++ ws) (s ++ t) := by
  refine ⟨?_, ?_, ?_⟩
  · rw [params_append, hs.params_eq, ht.params_eq]
  · intro v hv
    rcases List.mem_append.mp hv with hv | hv
    · exact hs.scalar v hv
    · exact ht.scalar v hv
  · intro n cs h
    rw [printFrom_append, String.toList_append, List.append_assoc,
      hs.marks_eq n _ (ho _ cs h), ht.marks_eq _ cs h, hs.params_eq, List.length_append,
      ← List.range'_append_1, List.map_append, List.append_assoc]

/-- Fixed text without a mark carries nothing. -/
private theorem Carries.cons_of_text {p : Piece} {x : String} (hx : d.markChar ∉ x.toList)
    (hparams : params (p :: t) = params t)
    (hprint : ∀ n, printFrom d n (p :: t) = x ++ printFrom d n t) (ht : Carries d vs t) :
    Carries d vs (p :: t) := by
  refine ⟨hparams.trans ht.params_eq, ht.scalar, ?_⟩
  intro n cs h
  rw [hprint, String.toList_append, List.append_assoc, d.marks_append_of_notMem hx]
  exact ht.marks_eq n cs h

theorem Carries.text {x : String} (hx : Unmarked x) (ht : Carries d vs t) :
    Carries d vs (.text x :: t) :=
  ht.cons_of_text (hx.markChar_notMem d) rfl fun _ => rfl

theorem Carries.raw {x : String} (hx : Unmarked x) (ht : Carries d vs t) :
    Carries d vs (.raw x :: t) :=
  ht.cons_of_text (hx.markChar_notMem d) rfl fun _ => rfl

theorem Carries.name {i : Identifier} (ht : Carries d vs t) : Carries d vs (.name i :: t) :=
  ht.cons_of_text (d.markChar_notMem_quoted i) rfl fun _ => rfl

/-- A literal needs to be free of the marks of its own dialect only. -/
theorem Carries.literal {x : String} (hx : d.markChar ∉ x.toList) (ht : Carries d vs t) :
    Carries d vs (.literal x :: t) := by
  have hquoted : d.markChar ∉ ("'" ++ x ++ "'").toList := by
    simp only [String.toList_append, List.mem_append, not_or]
    refine ⟨⟨?_, hx⟩, ?_⟩ <;> cases d <;> decide
  exact ht.cons_of_text hquoted rfl fun _ => rfl

theorem Carries.param {v : Value} (hv : v.isScalar = true) (ht : Carries d vs t) (ho : Opens d t) :
    Carries d (v :: vs) (.param v :: t) := by
  refine ⟨by rw [params, ht.params_eq], ?_, ?_⟩
  · intro w hw
    rcases List.mem_cons.mp hw with rfl | hw
    · exact hv
    · exact ht.scalar w hw
  · intro n cs h
    rw [printFrom, String.toList_append, List.append_assoc,
      d.marks_placeholder_append n (ho _ cs h), ht.marks_eq _ cs h, List.length_cons,
      List.range'_succ, List.map_cons, List.cons_append]

/-- Templates in a row carry their values in a row. -/
theorem Carries.joined {separator : String} (hx : Unmarked separator)
    (ho : opensWithoutDigit separator = true) {vss : List (List Value)} {ts : List Template}
    (h : List.Forall₂ (Carries d) vss ts) : Carries d vss.flatten (joined separator ts) := by
  induction h with
  | nil => exact carries_nil
  | cons ht hts ih =>
      -- a separator stands only between two templates, so the last one is a case of its own
      cases hts with
      | nil => simpa [Template.joined] using ht
      | cons hu hus => exact ht.append (ih.text hx) (opens_text ho)

theorem Carries.joined_nil {separator : String} (hx : Unmarked separator)
    (ho : opensWithoutDigit separator = true) {ts : List Template} (h : ∀ t ∈ ts, Carries d [] t) :
    Carries d [] (Template.joined separator ts) := by
  have hrows : List.Forall₂ (Carries d) (ts.map fun _ => []) ts := by
    rw [List.forall₂_map_left_iff, List.forall₂_same]
    exact h
  have hflat : (ts.map fun _ => ([] : List Value)).flatten = [] := by simp
  exact hflat ▸ Carries.joined hx ho hrows

/-- What a template carries is found in its statement. -/
theorem Carries.statement (h : Carries d vs t) :
    (t.statement d).params = vs ∧
      d.marks (t.statement d).sql.toList = (List.range vs.length).map fun i => d.placeholder (i + 1) := by
  refine ⟨h.params_eq, ?_⟩
  have hmarks := h.marks_eq 1 [] (by simp [NoDigitFirst])
  simp only [List.append_nil, Dialect.marks] at hmarks
  rw [Template.statement, print, hmarks, List.range'_eq_map_range, List.map_map]
  congr 1
  funext i
  simp [Nat.add_comm]

end Template

end TableGate
