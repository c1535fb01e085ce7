import TableGate.Proofs.Sql.ExpressionGrammar

/-! # The texts that are references

What is understood as a reference is looked for as two words around the word `as`, and then as an expression.
The texts that are found so are those that a grammar spells, but for two kinds: a letter that is no ASCII
letter may pass for one, and a call may be taken for an alias. -/

namespace TableGate

open Template Text

/-! ## Words -/

namespace Text

/-- The word `as` is made of letters. -/
theorem isAlpha_foldCase_of_isAs {cs : List Char} (h : isAs cs = true) {c : Char} (hc : c ∈ cs) :
    (foldCase c).isAlpha = true :=
  isAlpha_foldCase_of_mem (beq_iff_eq.mp h) (by decide) hc

theorem solid_of_isAs {cs : List Char} (h : isAs cs = true) : Solid cs :=
  fun _ hc => isBlank_of_isAlpha_foldCase (isAlpha_foldCase_of_isAs h hc)

theorem ne_nil_of_isAs {cs : List Char} (h : isAs cs = true) : cs ≠ [] := by
  rintro rfl
  cases h

/-- What a text opens with belongs to its first word. -/
theorem mem_of_wordsOf_cons {c : Char} (hc : isBlank c = false) {cs word : List Char} {words : List (List Char)}
    (h : wordsOf (c :: cs) = word :: words) : c ∈ word := by
  obtain ⟨front, back, rest, hfront, -, hcs, -, hne, -⟩ := exists_of_wordsOf_cons h
  cases front with
  | nil =>
      obtain ⟨b, more, rfl⟩ := List.exists_cons_of_ne_nil hne
      cases hcs
      exact List.mem_cons_self
  | cons b front =>
      obtain ⟨hb, -⟩ := List.forall_mem_cons.mp hfront
      cases hcs
      rw [hc] at hb
      cases hb

/-- A closing parenthesis is a word of its own if blanks stand before it. -/
theorem wordsOf_closed {word closing : List Char} (hword : Solid word) (hne : word ≠ [])
    (hclosing : Blanks closing) :
    wordsOf (word ++ (closing ++ [')'])) = [word ++ [')']] ∨
      wordsOf (word ++ (closing ++ [')'])) = [word, [')']] := by
  have hend : Solid [')'] := solid_singleton (by decide)
  rcases eq_or_ne closing [] with rfl | hsome
  · exact .inl (wordsOf_of_solid (hword.append hend) (by simp))
  · right
    rw [wordsOf_solid_append hword hne hclosing hsome, wordsOf_of_solid hend (List.cons_ne_nil _ _)]

/-- If a call has three words, and the second of them is the word `as`, then this is the argument. -/
theorem words_of_call {name before opening argument closing first keyword last : List Char} (hname : Solid name)
    (hne : name ≠ []) (hargument : Solid argument) (hsome : argument ≠ []) (hbefore : Blanks before)
    (hopening : Blanks opening) (hclosing : Blanks closing)
    (h : wordsOf (name ++ (before ++ '(' :: (opening ++ (argument ++ (closing ++ [')']))))) =
      [first, keyword, last])
    (has : isAs keyword = true) : first = name ++ ['('] ∧ last = [')'] := by
  have hcalled : Solid (name ++ ['(']) := hname.append (solid_singleton (by decide))
  rcases eq_or_ne before [] with rfl | hfar
  · rcases eq_or_ne opening [] with rfl | hopen
    · have hshape : name ++ ([] ++ '(' :: ([] ++ (argument ++ (closing ++ [')'])))) =
          (name ++ ['('] ++ argument) ++ (closing ++ [')']) := by simp
      rw [hshape] at h
      rcases wordsOf_closed (hcalled.append hargument) (by simp) hclosing with hwords | hwords
      · rw [hwords] at h
        simp at h
      · rw [hwords] at h
        simp at h
    · have hshape : name ++ ([] ++ '(' :: (opening ++ (argument ++ (closing ++ [')'])))) =
          (name ++ ['(']) ++ (opening ++ (argument ++ (closing ++ [')']))) := by simp
      rw [hshape, wordsOf_solid_append hcalled (by simp) hopening hopen] at h
      rcases wordsOf_closed hargument hsome hclosing with hwords | hwords
      · rw [hwords] at h
        simp at h
      · rw [hwords] at h
        cases h
        exact ⟨rfl, rfl⟩
  · rw [wordsOf_solid_append hname hne hbefore hfar, List.cons.injEq] at h
    have hletter := isAlpha_foldCase_of_isAs has (mem_of_wordsOf_cons (by decide) h.2)
    exact absurd hletter (by decide)

end Text

/-! ## References -/

namespace Reference

/-- The texts of a reference. An expression that has an alias stands without blanks in it. -/
inductive Spelled (fold : Char → Char) : Reference → List Char → Prop where
  | plain {front cs back : List Char} {e : ColumnExpr} (hfront : Blanks front) (he : e.Spelled fold cs)
      (hback : Blanks back) : Spelled fold ⟨e, none⟩ (front ++ (cs ++ back))
  | aliased {front cs left keyword right back : List Char} {e : ColumnExpr} {label : Identifier}
      (hfront : Blanks front) (he : e.Spelled fold cs) (hsolid : Solid cs) (hleft : Blanks left) (hsome : left ≠ [])
      (has : keyword.map fold = ['a', 's']) (hright : Blanks right) (hmore : right ≠ []) (hback : Blanks back) :
      Spelled fold ⟨e, some label⟩
        (front ++ (cs ++ (left ++ (keyword ++ (right ++ (label.chars ++ back))))))

/-- The text is taken for a call and an alias, but it is the opening of a call, its argument `as` and its
closing parenthesis. -/
def Masked (cs : List Char) : Prop :=
  ∃ name keyword, wordsOf cs = [name ++ ['('], keyword, [')']] ∧ isAs keyword = true

end Reference

namespace ColumnExpr

/-- An expression with three words around the word `as` is a call with this argument. -/
theorem Spelled.masked {e : ColumnExpr} {front cs back : List Char} (h : e.Spelled Text.foldCase cs)
    (hfront : Blanks front) (hback : Blanks back) {first keyword last : List Char}
    (hwords : wordsOf (front ++ (cs ++ back)) = [first, keyword, last]) (has : isAs keyword = true) :
    Reference.Masked (front ++ (cs ++ back)) := by
  have hinner : wordsOf (front ++ (cs ++ back)) = wordsOf cs := by
    rw [wordsOf_blank_append hfront, wordsOf_append_blank hback]
  cases h with
  | path hp =>
      rw [hinner, wordsOf_of_solid (Path.solid_chars hp) (Path.chars_ne_nil hp)] at hwords
      simp at hwords
  | @call name _ _ _ _ hname hp _ hbefore hopening hclosing =>
      have hfunction := isAggregate_iff.mpr hname
      rw [hinner] at hwords
      obtain ⟨rfl, rfl⟩ := words_of_call (solid_of_isAggregate hfunction) (ne_nil_of_isAggregate hfunction)
        (Path.solid_chars hp) (Path.chars_ne_nil hp) hbefore hopening hclosing hwords has
      exact ⟨name, keyword, hinner.trans hwords, has⟩

end ColumnExpr

namespace Reference

/-- A closing parenthesis is no alias. -/
theorem not_masked_of_of? {s : String} {r : Reference} (h : of? s = .ok r) : ¬Masked s.toList := by
  rintro ⟨name, keyword, hwords, has⟩
  have halias : Text.aliased? s = some (String.ofList (name ++ ['(']), ")") :=
    aliased?_eq_some.mpr ⟨keyword, by simpa using hwords, has⟩
  simp only [of?, halias, Except.bind_eq_ok] at h
  obtain ⟨_, -, label, hlabel, -⟩ := h
  cases hlabel

/-- What is understood as a reference is spelled as it. -/
theorem spelled_of_of? {s : String} {r : Reference} (h : of? s = .ok r) : r.Spelled foldCase s.toList := by
  unfold of? at h
  split at h
  · rename_i base name halias
    simp only [Except.bind_eq_ok, Except.pure_eq_ok] at h
    obtain ⟨e, he, label, hlabel, rfl⟩ := h
    obtain ⟨keyword, hwords, has⟩ := aliased?_eq_some.mp halias
    obtain ⟨front, left, right, back, hfront, hleft, hsome, hright, hmore, hback, hsolid, hs⟩ :=
      wordsOf_eq_three.mp hwords
    have hbase : Solid base.toList := (hsolid _ List.mem_cons_self).1
    rw [← String.ofList_toList (s := base), ColumnExpr.of?_iff_solid hbase] at he
    rw [hs, ← Identifier.of?_eq_ok hlabel]
    exact .aliased hfront he hbase hleft hsome (beq_iff_eq.mp has) hright hmore hback
  · obtain ⟨e, he, rfl⟩ := Except.map_eq_ok.mp h
    obtain ⟨front, cs, back, hfront, hspelled, hback, hs⟩ := ColumnExpr.of?_iff_spelled.mp he
    rw [hs]
    exact .plain hfront hspelled hback

/-- The texts that are understood as a reference. -/
theorem of?_iff_spelled {s : String} {r : Reference} :
    of? s = .ok r ↔ r.Spelled foldCase s.toList ∧ ¬Masked s.toList := by
  refine ⟨fun h => ⟨spelled_of_of? h, not_masked_of_of? h⟩, ?_⟩
  rintro ⟨hspelled, hmasked⟩
  generalize htext : s.toList = text at hspelled hmasked
  cases hspelled with
  | @plain front cs back e hfront he hback =>
      have halias : Text.aliased? s = none := by
        cases halias : Text.aliased? s with
        | none => rfl
        | some found =>
            obtain ⟨keyword, hwords, has⟩ := aliased?_eq_some.mp halias
            rw [htext] at hwords
            exact absurd (he.masked hfront hback hwords has) hmasked
      have hexpr : ColumnExpr.of? s = .ok e :=
        ColumnExpr.of?_iff_spelled.mpr ⟨front, cs, back, hfront, he, hback, htext⟩
      simp only [of?, halias, hexpr]
      rfl
  | @aliased front cs left keyword right back e label hfront he hsolid hleft hsome has hright hmore hback =>
      have hkeyword : isAs keyword = true := beq_iff_eq.mpr has
      have hlabel : Path.of? label.chars = .ok (.column [label]) := Path.of?_name label
      have hwords : ∀ word ∈ [cs, keyword, label.chars], Solid word ∧ word ≠ [] := by
        simp only [List.forall_mem_cons]
        exact ⟨⟨hsolid, he.ne_nil⟩, ⟨solid_of_isAs hkeyword, ne_nil_of_isAs hkeyword⟩,
          ⟨Path.solid_of_of? hlabel, Path.ne_nil_of_of? hlabel⟩, by simp⟩
      have hthree : wordsOf s.toList = [cs, keyword, label.chars] := wordsOf_eq_three.mpr
        ⟨front, left, right, back, hfront, hleft, hsome, hright, hmore, hback, hwords, htext⟩
      have halias : Text.aliased? s = some (String.ofList cs, label.text) :=
        aliased?_eq_some.mpr ⟨keyword, by rw [hthree, String.toList_ofList]; rfl, hkeyword⟩
      have hexpr := (ColumnExpr.of?_iff_solid hsolid).mpr he
      simp only [of?, halias, hexpr, label.of?_text]
      rfl

end Reference

/-! ## Letters and quotes -/

namespace Reference

def Standard (r : Reference) : Prop :=
  r.expression.Standard

theorem Spelled.foldCase {r : Reference} {cs : List Char} (h : r.Spelled Char.toLower cs) :
    r.Spelled Text.foldCase cs := by
  cases h with
  | plain hfront he hback => exact .plain hfront he.foldCase hback
  | aliased hfront he hsolid hleft hsome has hright hmore hback =>
      have hkeyword := map_foldCase_of_map_toLower has (by decide)
      exact .aliased hfront he.foldCase hsolid hleft hsome hkeyword hright hmore hback

theorem Spelled.toLower {r : Reference} {cs : List Char} (h : r.Spelled Text.foldCase cs) (hs : '\u017f' ∉ cs) :
    r.Spelled Char.toLower cs := by
  cases h with
  | plain hfront he hback =>
      simp only [List.mem_append, not_or] at hs
      exact .plain hfront (he.toLower hs.2.1) hback
  | aliased hfront he hsolid hleft hsome has hright hmore hback =>
      simp only [List.mem_append, not_or] at hs
      have hkeyword := map_toLower_of_map_foldCase has hs.2.2.2.1 (by decide)
      exact .aliased hfront (he.toLower hs.2.1) hsolid hleft hsome hkeyword hright hmore hback

theorem Spelled.standard {r : Reference} {cs : List Char} (h : r.Spelled Char.toLower cs) : r.Standard := by
  cases h with
  | plain _ he => exact he.standard
  | aliased _ he => exact he.standard

theorem Spelled.notMem {r : Reference} {cs : List Char} (h : r.Spelled Char.toLower cs) : '\u017f' ∉ cs := by
  have hlong : isBlank '\u017f' = false := by decide
  cases h with
  | plain hfront he hback => simp [hfront.notMem hlong, he.notMem, hback.notMem hlong]
  | @aliased _ _ _ keyword _ _ _ label hfront he hsolid hleft hsome has hright hmore hback =>
      have hlabel : '\u017f' ∉ label.chars := Path.notMem_of_of? (Path.of?_name label) (by decide)
      have hkeyword : '\u017f' ∉ keyword := notMem_of_map_toLower has (by decide)
      simp [hfront.notMem hlong, he.notMem, hleft.notMem hlong, hkeyword, hright.notMem hlong, hlabel,
        hback.notMem hlong]

end Reference

/-- The text of a reference with its names quoted and no blank in it but those around `AS`. -/
def Reference.quoted (d : Dialect) : Reference → String
  | ⟨e, none⟩ => e.quoted d
  | ⟨e, some label⟩ => e.quoted d ++ " AS " ++ d.quoted label

theorem Reference.print_template (r : Reference) : r.template.print d = r.quoted d := by
  obtain ⟨e, label⟩ := r
  cases label with
  | none => exact e.printFrom_template d 1
  | some label =>
      simp only [template, print, printFrom_append, e.printFrom_template, quoted]
      simp [printFrom, String.append_assoc]

namespace Reference

/-- Every text that is spelled as a reference, in letters that pass for those of the grammar, is printed with its
names quoted, unless it is masked. So the grammar holds for a text if and only if no call in it is taken for an
alias, and no long s for a letter. -/
theorem quotes_iff (d : Dialect) (s : String) :
    (∀ out, (of? s).map (fun r => r.template.print d) = .ok out ↔
      ∃ r : Reference, r.Spelled foldCase s.toList ∧ ¬Masked s.toList ∧ out = r.quoted d) ∧
    ((∀ out, (of? s).map (fun r => r.template.print d) = .ok out ↔
      ∃ r : Reference, r.Spelled Char.toLower s.toList ∧ r.Standard ∧ out = r.quoted d) ↔
    ((∃ r : Reference, r.Spelled Char.toLower s.toList) → ¬Masked s.toList) ∧
      ((∃ r, of? s = .ok r) → '\u017f' ∉ s.toList)) := by
  have hquoted : ∀ out, (of? s).map (fun r => r.template.print d) = .ok out ↔
      ∃ r, of? s = .ok r ∧ out = r.quoted d := by
    intro out
    rw [Except.map_eq_ok]
    simp only [print_template, eq_comm (a := out)]
  refine ⟨fun out => by simp only [hquoted, of?_iff_spelled, and_assoc], ?_⟩
  simp only [hquoted]
  constructor
  · intro h
    refine ⟨?_, ?_⟩
    · rintro ⟨r, hr⟩
      obtain ⟨accepted, haccepted, -⟩ := (h (r.quoted d)).mpr ⟨r, hr, hr.standard, rfl⟩
      exact not_masked_of_of? haccepted
    · rintro ⟨r, hr⟩
      obtain ⟨spelled, hspelled, -⟩ := (h (r.quoted d)).mp ⟨r, hr, rfl⟩
      exact hspelled.notMem
  · rintro ⟨hmasked, hlong⟩ out
    constructor
    · rintro ⟨r, hr, hout⟩
      have hspelled := (spelled_of_of? hr).toLower (hlong ⟨r, hr⟩)
      exact ⟨r, hspelled, hspelled.standard, hout⟩
    · rintro ⟨r, hr, -, hout⟩
      exact ⟨r, of?_iff_spelled.mpr ⟨hr.foldCase, hmasked ⟨r, hr⟩⟩, hout⟩

/-- The count of a column with the name `as` is a call of the grammar, and is not understood with blanks around the
name. A sum is understood with a long s for its first letter, which is printed as it is. -/
theorem quotes_unlike_grammar :
    (∃ r : Reference, r.Spelled Char.toLower "count( as )".toList ∧ r.Standard ∧
      r.quoted .sqlite = "COUNT(\"as\")") ∧
    (of? "count( as )").isOk = false ∧
    (of? "\u017fum(x)").map (fun r => r.template.print .sqlite) = .ok "\u017fUM(\"x\")" ∧
    ¬∃ r : Reference, r.Spelled Char.toLower "\u017fum(x)".toList := by
  refine ⟨?_, by decide, by decide, ?_⟩
  · let p : Path := .column [⟨"as", by decide⟩]
    have hblank : Blanks [' '] := blanks_singleton (by decide)
    have hcall : ColumnExpr.Spelled Char.toLower (.call "COUNT" p) "count( as )".toList :=
      @ColumnExpr.Spelled.call Char.toLower "count".toList [] [' '] [' '] p ⟨"count", by decide⟩
        (by simp [p, Path.Named]) (by simp [p]) blanks_nil hblank hblank
    have hspelled : Reference.Spelled Char.toLower ⟨.call "COUNT" p, none⟩ "count( as )".toList := by
      simpa using @Spelled.plain _ [] _ [] _ blanks_nil hcall blanks_nil
    exact ⟨_, hspelled, hspelled.standard, by decide⟩
  · rintro ⟨r, hr⟩
    exact hr.notMem (by decide)

end Reference

end TableGate
