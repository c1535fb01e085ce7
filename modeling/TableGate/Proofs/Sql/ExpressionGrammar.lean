import TableGate.Proofs.Sql.Reference

/-! # The texts that are column expressions

What is understood as a column expression is looked for as a call and then as a path. The texts that are found
so are those that a grammar spells, where a long s passes for the letter s. -/

namespace TableGate

open Template Text

/-! ## Letters -/

namespace Text

/-- The names of the aggregate functions. -/
def functionWords : List String :=
  ["count", "sum", "avg", "min", "max"]

/-- The name of an aggregate function, where letters are compared as they are folded. -/
def IsFunction (fold : Char → Char) (name : List Char) : Prop :=
  ∃ word ∈ functionWords, name.map fold = word.toList

theorem isAggregate_iff {name : List Char} : isAggregate name = true ↔ IsFunction foldCase name := by
  simp [isAggregate, IsFunction, functionWords, or_assoc]

/-- A word that is compared with regard to ASCII case alone is the same without regard to case. -/
theorem map_foldCase_of_map_toLower {cs word : List Char} (h : cs.map Char.toLower = word)
    (hword : '\u017f' ∉ word ∧ '\u212a' ∉ word) : cs.map foldCase = word := by
  rw [← h]
  refine List.map_congr_left fun c hc => ?_
  have hmem : c.toLower ∈ word := h ▸ List.mem_map_of_mem hc
  unfold foldCase
  split
  · rename_i hs
    subst hs
    exact absurd hmem hword.1
  · split
    · rename_i hk
      subst hk
      exact absurd hmem hword.2
    · rfl

/-- Without the long s, and where there is no k, letters are ASCII letters. -/
theorem map_toLower_of_map_foldCase {cs word : List Char} (h : cs.map foldCase = word)
    (hs : '\u017f' ∉ cs) (hk : 'k' ∉ word) : cs.map Char.toLower = word := by
  rw [← h]
  refine List.map_congr_left fun c hc => ?_
  have hmem : foldCase c ∈ word := h ▸ List.mem_map_of_mem hc
  have hlong : c ≠ '\u017f' := by
    rintro rfl
    exact hs hc
  have hkelvin : c ≠ '\u212a' := by
    rintro rfl
    exact hk hmem
  rw [foldCase, if_neg hlong, if_neg hkelvin]

/-- There is no long s in a word whose ASCII letters alone have been folded. -/
theorem notMem_of_map_toLower {cs word : List Char} (h : cs.map Char.toLower = word) (hword : '\u017f' ∉ word) :
    '\u017f' ∉ cs := by
  intro hmem
  have hfold : Char.toLower '\u017f' ∈ cs.map Char.toLower := List.mem_map_of_mem hmem
  rw [h] at hfold
  exact hword hfold

theorem IsFunction.foldCase {name : List Char} (h : IsFunction Char.toLower name) :
    IsFunction Text.foldCase name := by
  have hplain : ∀ word ∈ functionWords, '\u017f' ∉ word.toList ∧ '\u212a' ∉ word.toList := by
    decide
  obtain ⟨word, hword, h⟩ := h
  exact ⟨word, hword, map_foldCase_of_map_toLower h (hplain word hword)⟩

theorem IsFunction.toLower {name : List Char} (h : IsFunction Text.foldCase name) (hs : '\u017f' ∉ name) :
    IsFunction Char.toLower name := by
  have hk : ∀ word ∈ functionWords, 'k' ∉ word.toList := by decide
  obtain ⟨word, hword, h⟩ := h
  exact ⟨word, hword, map_toLower_of_map_foldCase h hs (hk word hword)⟩

theorem IsFunction.notMem {name : List Char} (h : IsFunction Char.toLower name) : '\u017f' ∉ name := by
  have hplain : ∀ word ∈ functionWords, '\u017f' ∉ word.toList := by decide
  obtain ⟨word, hword, h⟩ := h
  exact notMem_of_map_toLower h (hplain word hword)

/-- In upper case, the name of a function is one of five. -/
theorem IsFunction.upper_mem {name : List Char} (h : IsFunction Char.toLower name) :
    upper (String.ofList name) ∈ ["COUNT", "SUM", "AVG", "MIN", "MAX"] := by
  have hwords : ∀ word ∈ functionWords,
      upper word ∈ ["COUNT", "SUM", "AVG", "MIN", "MAX"] := by decide
  obtain ⟨word, hword, h⟩ := h
  have hupper : upper (String.ofList name) = upper word := by
    rw [upper, upper, String.toList_ofList, ← h, List.map_map]
    exact congrArg String.ofList (List.map_congr_left fun c _ => (toUpper_toLower c).symm)
  rw [hupper]
  exact hwords word hword

theorem foldCase_of_isBlank {c : Char} (h : isBlank c = true) : foldCase c = c := by
  have hlong : c ≠ '\u017f' := by
    rintro rfl
    exact absurd h (by decide)
  have hkelvin : c ≠ '\u212a' := by
    rintro rfl
    exact absurd h (by decide)
  rw [foldCase, if_neg hlong, if_neg hkelvin]
  rcases Nat.lt_or_ge c.toNat 128 with hc | hc
  · have hall : ∀ n < 128, isBlank (Char.ofNat n) = true → (Char.ofNat n).toLower = Char.ofNat n := by decide
    simpa using hall c.toNat hc (by simpa using h)
  · exact toLower_of_le hc

/-- No blank passes for a letter. -/
theorem isBlank_of_isAlpha_foldCase {c : Char} (h : (foldCase c).isAlpha = true) : isBlank c = false := by
  by_contra hblank
  rw [Bool.not_eq_false] at hblank
  rw [foldCase_of_isBlank hblank] at h
  have hword : isWordChar c = true := by simp [isWordChar, Char.isAlphanum, h]
  rw [isBlank_of_isWordChar hword] at hblank
  cases hblank

/-- What passes for a word of letters is made of characters that pass for letters. -/
theorem isAlpha_foldCase_of_mem {cs word : List Char} (h : cs.map foldCase = word)
    (hword : word.all Char.isAlpha = true) {c : Char} (hc : c ∈ cs) : (foldCase c).isAlpha = true :=
  List.all_eq_true.mp hword _ (h ▸ List.mem_map_of_mem hc)

theorem solid_of_isAggregate {name : List Char} (h : isAggregate name = true) : Solid name := by
  have hletters : ∀ word ∈ functionWords, word.toList.all Char.isAlpha = true := by decide
  obtain ⟨word, hword, h⟩ := isAggregate_iff.mp h
  exact fun c hc => isBlank_of_isAlpha_foldCase (isAlpha_foldCase_of_mem h (hletters word hword) hc)

theorem ne_nil_of_isAggregate {name : List Char} (h : isAggregate name = true) : name ≠ [] := by
  rintro rfl
  cases h

end Text

/-! ## Paths -/

namespace Path

/-- The text of a path: its parts, with a dot between any two of them. -/
def chars (p : Path) : List Char :=
  ['.'].intercalate p.parts

/-- The path is a star, or it has a name. -/
def Named : Path → Prop
  | .all => True
  | .column names | .allOf names => names ≠ []

theorem dot_notMem_parts (p : Path) : ∀ part ∈ p.parts, '.' ∉ part := by
  intro part hpart hdot
  rcases isWordChar_of_mem_parts hpart hdot with h | h
  · exact absurd h (by decide)
  · exact absurd h (by decide)

theorem parts_ne_nil {p : Path} (hp : p.Named) : p.parts ≠ [] := by
  cases p with
  | all => simp [parts]
  | column names => simpa [parts, Named] using hp
  | allOf names => simp [parts]

/-- A text is understood as the path whose text it is. -/
theorem of?_iff_chars {cs : List Char} {p : Path} : of? cs = .ok p ↔ p.Named ∧ cs = p.chars := by
  rw [of?_eq_ok]
  constructor
  · rintro ⟨hp, hparts⟩
    refine ⟨?_, by rw [chars, ← hparts, intercalate_pieces]⟩
    cases p with
    | all => trivial
    | column names =>
        rintro rfl
        exact pieces_ne_nil _ cs hparts
    | allOf names =>
        rintro rfl
        exact hp rfl
  · rintro ⟨hp, rfl⟩
    refine ⟨?_, pieces_intercalate (parts_ne_nil hp) p.dot_notMem_parts⟩
    rintro rfl
    exact hp rfl

theorem of?_chars {p : Path} (hp : p.Named) : of? p.chars = .ok p :=
  of?_iff_chars.mpr ⟨hp, rfl⟩

theorem solid_chars {p : Path} (hp : p.Named) : Solid p.chars :=
  solid_of_of? (of?_chars hp)

theorem chars_ne_nil {p : Path} (hp : p.Named) : p.chars ≠ [] :=
  ne_nil_of_of? (of?_chars hp)

theorem pieces_chars {p : Path} (hp : p.Named) : pieces (· == '.') p.chars = p.parts :=
  (of?_eq_ok.mp (of?_chars hp)).2

theorem isWordChar_of_mem_chars {names : List Identifier} (hp : names ≠ []) {c : Char}
    (hc : c ∈ chars (.column names)) (hdot : c ≠ '.') : isWordChar c = true := by
  obtain ⟨part, hpart, hmem⟩ := mem_pieces (p := (· == '.')) hc (by simpa using hdot)
  rw [pieces_chars (p := .column names) hp] at hpart
  obtain ⟨n, -, rfl⟩ := List.mem_map.mp hpart
  exact n.isWordChar_of_mem hmem

/-- A dotted name opens as its first name does. -/
theorem exists_initial {names : List Identifier} (hp : names ≠ []) :
    ∃ c cs, chars (.column names) = c :: cs ∧ isInitial c = true := by
  obtain ⟨n, rest, rfl⟩ := List.exists_cons_of_ne_nil hp
  have hmore : ∃ more, chars (.column (n :: rest)) = n.chars ++ more := by
    cases rest with
    | nil => exact ⟨[], by simp [chars, parts, List.intercalate_singleton]⟩
    | cons second rest =>
        refine ⟨['.'] ++ chars (.column (second :: rest)), ?_⟩
        simp only [chars, parts, List.map_cons, List.intercalate_cons_cons, List.append_assoc]
  obtain ⟨more, hmore⟩ := hmore
  have hvalid := n.valid
  cases htext : n.text.toList with
  | nil =>
      rw [htext] at hvalid
      cases hvalid
  | cons c cs =>
      rw [htext, isIdentifier, Bool.and_eq_true] at hvalid
      exact ⟨c, cs ++ more, by rw [hmore, Identifier.chars, htext, List.cons_append], hvalid.1⟩

/-- A star and a dotted name can be the argument of a call. -/
theorem isAggregateArgument_chars {p : Path} (hp : p.Named) (hstar : ∀ names, p ≠ .allOf names) :
    isAggregateArgument p.chars = true := by
  cases p with
  | all => decide
  | allOf names => exact absurd rfl (hstar names)
  | column names =>
      obtain ⟨c, cs, hchars, hinitial⟩ := exists_initial hp
      have hrest : ∀ b ∈ cs, (isFoldedInitial b || b.isDigit || b == '.') = true := by
        intro b hb
        by_cases hdot : b = '.'
        · simp [hdot]
        · have hword := isWordChar_of_mem_chars hp (by simp [hchars, hb]) hdot
          simp only [isWordChar, Char.isAlphanum, Bool.or_eq_true] at hword
          rcases hword with (halpha | hdigit) | hunder
          · simp [isFoldedInitial, isInitial, halpha]
          · simp [hdigit]
          · simp [isFoldedInitial, isInitial, hunder]
      rw [hchars, isAggregateArgument, Bool.or_eq_true, Bool.and_eq_true (isFoldedInitial c), List.all_eq_true]
      exact .inr ⟨by simp [isFoldedInitial, hinitial], hrest⟩

/-- All columns of a table cannot. -/
theorem ne_allOf_of_isAggregateArgument {p : Path} (hp : p.Named) (h : isAggregateArgument p.chars = true) :
    ∀ names, p ≠ .allOf names := by
  rintro names rfl
  have hlast : ['*'] ∈ pieces (· == '.') (chars (.allOf names)) := by
    rw [pieces_chars hp]
    simp [parts]
  have hstar : '*' ∈ chars (.allOf names) := mem_of_mem_pieces hlast (List.mem_singleton_self _)
  cases hchars : chars (.allOf names) with
  | nil => exact absurd hchars (chars_ne_nil hp)
  | cons c cs =>
      rw [hchars] at h hstar
      simp only [isAggregateArgument, Bool.or_eq_true, Bool.and_eq_true, beq_iff_eq, List.isEmpty_iff,
        List.all_eq_true] at h
      rcases h with ⟨rfl, rfl⟩ | ⟨hc, hcs⟩
      · have hall := of?_chars hp
        rw [hchars] at hall
        cases hall
      · rcases List.mem_cons.mp hstar with rfl | hstar
        · exact absurd hc (by decide)
        · exact absurd (hcs _ hstar) (by decide)

end Path

/-! ## Calls -/

namespace Text

theorem isBlank_of_isFoldedInitial {c : Char} (h : isFoldedInitial c = true) : isBlank c = false := by
  simp only [isFoldedInitial, isInitial, Bool.or_eq_true, beq_iff_eq] at h
  rcases h with ((halpha | rfl) | rfl) | rfl
  · exact isBlank_of_isWordChar (by simp [isWordChar, Char.isAlphanum, halpha])
  · decide
  · decide
  · decide

theorem solid_of_isAggregateArgument {cs : List Char} (h : isAggregateArgument cs = true) : Solid cs := by
  cases cs with
  | nil => cases h
  | cons c cs =>
      simp only [isAggregateArgument, Bool.or_eq_true, Bool.and_eq_true, beq_iff_eq, List.isEmpty_iff,
        List.all_eq_true] at h
      rcases h with ⟨rfl, rfl⟩ | ⟨hc, hcs⟩
      · exact solid_singleton (by decide)
      · refine List.forall_mem_cons.mpr ⟨isBlank_of_isFoldedInitial hc, fun b hb => ?_⟩
        rcases hcs b hb with (hinitial | hdigit) | rfl
        · exact isBlank_of_isFoldedInitial hinitial
        · exact isBlank_of_isWordChar (isWordChar_of_isDigit hdigit)
        · decide

/-- The blanks around a text that opens with a word and has a closing parenthesis at its end. -/
theorem trimChars_closed {front word inner back : List Char} (hfront : Blanks front) (hword : Solid word)
    (hne : word ≠ []) (hback : Blanks back) :
    trimChars (front ++ (word ++ (inner ++ [')']) ++ back)) = word ++ (inner ++ [')']) := by
  rw [trimChars_blank_append hfront, trimChars_append_blank hback, trimChars_solid_append hne hword,
    List.rdropWhile_concat_neg _ _ _ (by decide)]

/-- A call is found where there is one, with the blanks that may stand in it and around it. -/
theorem aggregateCall?_iff {cs name argument : List Char} :
    aggregateCall? cs = some (name, argument) ↔
      isAggregate name = true ∧ isAggregateArgument argument = true ∧
        ∃ front before opening closing back, Blanks front ∧ Blanks before ∧ Blanks opening ∧ Blanks closing ∧
          Blanks back ∧
          cs = front ++ (name ++ (before ++ '(' :: (opening ++ (argument ++ (closing ++ [')'])))) ++ back) := by
  constructor
  · intro h
    obtain ⟨called, inner, htrim, -, hname, hargument, hfunction, hinner⟩ := aggregateCall?_eq_some h
    obtain ⟨front, back, hfront, hback, hcs⟩ := trimChars_split cs
    obtain ⟨more, before, hmore, hbefore, hcalled⟩ := trimChars_split called
    obtain ⟨opening, closing, hopening, hclosing, hinside⟩ := trimChars_split inner
    rw [← hname] at hcalled
    rw [← hargument] at hinside
    refine ⟨hfunction, hinner, front ++ more, before, opening, closing, back, Blanks.append hfront hmore,
      hbefore, hopening, hclosing, hback, ?_⟩
    rw [hcs, htrim, hcalled, hinside]
    simp
  · rintro ⟨hname, hargument, front, before, opening, closing, back, hfront, hbefore, hopening, hclosing, hback,
      rfl⟩
    have hsolid := solid_of_isAggregate hname
    have hinside : before ++ '(' :: (opening ++ (argument ++ (closing ++ [')']))) =
        (before ++ '(' :: (opening ++ (argument ++ closing))) ++ [')'] := by simp
    have hcalled : name ++ (before ++ '(' :: (opening ++ (argument ++ closing)) ++ [')']) =
        (name ++ before) ++ '(' :: (opening ++ (argument ++ closing) ++ [')']) := by simp
    have hopen : ∀ b ∈ name ++ before, (b == '(') = false := by
      refine beq_eq_false_of_notMem fun hmem => ?_
      rcases List.mem_append.mp hmem with hmem | hmem
      · exact notMem_of_isAggregate hname (by decide) hmem
      · exact hbefore.notMem (by decide) hmem
    have hfunction : trimChars (name ++ before) = name := by
      rw [trimChars_append_blank hbefore, trimChars_of_solid hsolid]
    have hinner : trimChars (opening ++ (argument ++ closing)) = argument := by
      rw [trimChars_blank_append hopening, trimChars_append_blank hclosing,
        trimChars_of_solid (solid_of_isAggregateArgument hargument)]
    rw [aggregateCall?, hinside, trimChars_closed hfront hsolid (ne_nil_of_isAggregate hname) hback, hcalled,
      cut?_append hopen (by decide)]
    simp [hfunction, hinner, hname, hargument]

end Text

namespace ColumnExpr

/-- The texts of an expression, without the blanks around it, where letters are compared as they are folded. -/
inductive Spelled (fold : Char → Char) : ColumnExpr → List Char → Prop where
  | path {p : Path} (hp : p.Named) : Spelled fold (.path p) p.chars
  | call {name before opening closing : List Char} {p : Path} (hname : IsFunction fold name) (hp : p.Named)
      (hstar : ∀ names, p ≠ .allOf names) (hbefore : Blanks before) (hopening : Blanks opening)
      (hclosing : Blanks closing) :
      Spelled fold (.call (upper (String.ofList name)) p)
        (name ++ (before ++ '(' :: (opening ++ (p.chars ++ (closing ++ [')'])))))

/-- The texts that are understood as an expression. -/
theorem of?_iff_spelled {s : String} {e : ColumnExpr} :
    of? s = .ok e ↔ ∃ front cs back, Blanks front ∧ e.Spelled foldCase cs ∧ Blanks back ∧
      s.toList = front ++ (cs ++ back) := by
  constructor
  · intro h
    cases e with
    | path p =>
        obtain ⟨hp, hchars⟩ := Path.of?_iff_chars.mp (of?_eq_path.mp h)
        obtain ⟨front, back, hfront, hback, hs⟩ := trimChars_split s.toList
        exact ⟨front, p.chars, back, hfront, .path hp, hback, by rw [← hchars, ← List.append_assoc, ← hs]⟩
    | call f p =>
        unfold of? at h
        split at h
        · rename_i name argument hcall
          obtain ⟨q, hq, heq⟩ := Except.map_eq_ok.mp h
          cases heq
          obtain ⟨hname, hargument, front, before, opening, closing, back, hfront, hbefore, hopening, hclosing,
            hback, hs⟩ := aggregateCall?_iff.mp hcall
          obtain ⟨hp, rfl⟩ := Path.of?_iff_chars.mp hq
          exact ⟨front, _, back, hfront, .call (isAggregate_iff.mp hname) hp
            (Path.ne_allOf_of_isAggregateArgument hp hargument) hbefore hopening hclosing, hback, hs⟩
        · obtain ⟨_, _, heq⟩ := Except.map_eq_ok.mp h
          cases heq
  · rintro ⟨front, cs, back, hfront, hspelled, hback, hs⟩
    cases hspelled with
    | path hp =>
        refine of?_eq_path.mpr ?_
        rw [hs, trimChars_blank_append hfront, trimChars_append_blank hback,
          trimChars_of_solid (Path.solid_chars hp), Path.of?_chars hp]
    | call hname hp hstar hbefore hopening hclosing =>
        have hcall := aggregateCall?_iff.mpr ⟨isAggregate_iff.mpr hname, Path.isAggregateArgument_chars hp hstar,
          front, _, _, _, back, hfront, hbefore, hopening, hclosing, hback, hs⟩
        simp only [of?, hcall, Path.of?_chars hp]
        rfl

theorem Spelled.ne_nil {e : ColumnExpr} {cs : List Char} (h : e.Spelled foldCase cs) : cs ≠ [] := by
  cases h with
  | path hp => exact Path.chars_ne_nil hp
  | call => simp

/-- In an expression without blanks there is nothing around it. -/
theorem of?_iff_solid {cs : List Char} {e : ColumnExpr} (hsolid : Solid cs) :
    of? (String.ofList cs) = .ok e ↔ e.Spelled foldCase cs := by
  have hnone {blanks : List Char} (hblanks : Blanks blanks) (hmem : ∀ b ∈ blanks, b ∈ cs) : blanks = [] := by
    refine List.eq_nil_iff_forall_not_mem.mpr fun b hb => ?_
    have hkept := hsolid b (hmem b hb)
    rw [hblanks b hb] at hkept
    cases hkept
  rw [of?_iff_spelled, String.toList_ofList]
  constructor
  · rintro ⟨front, inner, back, hfront, hspelled, hback, hcs⟩
    obtain rfl := hnone hfront (by simp +contextual [hcs])
    obtain rfl := hnone hback (by simp +contextual [hcs])
    rw [hcs]
    simpa using hspelled
  · exact fun h => ⟨[], cs, [], blanks_nil, h, blanks_nil, by simp⟩

end ColumnExpr

/-! ## Letters that are no ASCII letters -/

namespace Path

theorem notMem_chars {p : Path} (hp : p.Named) {c : Char}
    (hc : (isWordChar c || c == '*' || c == '.') = false) : c ∉ p.chars :=
  notMem_of_of? (of?_chars hp) hc

end Path

namespace ColumnExpr

/-- The function of the expression, if it has one, is one of the five in upper case. -/
def Standard : ColumnExpr → Prop
  | .path _ => True
  | .call function _ => function ∈ ["COUNT", "SUM", "AVG", "MIN", "MAX"]

theorem Spelled.foldCase {e : ColumnExpr} {cs : List Char} (h : e.Spelled Char.toLower cs) :
    e.Spelled Text.foldCase cs := by
  cases h with
  | path hp => exact .path hp
  | call hname hp hstar hbefore hopening hclosing =>
      exact .call hname.foldCase hp hstar hbefore hopening hclosing

theorem Spelled.toLower {e : ColumnExpr} {cs : List Char} (h : e.Spelled Text.foldCase cs) (hs : '\u017f' ∉ cs) :
    e.Spelled Char.toLower cs := by
  cases h with
  | path hp => exact .path hp
  | call hname hp hstar hbefore hopening hclosing =>
      have hplain := fun hmem => hs (List.mem_append_left _ hmem)
      exact .call (hname.toLower hplain) hp hstar hbefore hopening hclosing

theorem Spelled.standard {e : ColumnExpr} {cs : List Char} (h : e.Spelled Char.toLower cs) : e.Standard := by
  cases h with
  | path => trivial
  | call hname => exact hname.upper_mem

theorem Spelled.notMem {e : ColumnExpr} {cs : List Char} (h : e.Spelled Char.toLower cs) : '\u017f' ∉ cs := by
  cases h with
  | path hp => exact Path.notMem_chars hp (by decide)
  | call hname hp _ hbefore hopening hclosing =>
      have hlong : isBlank '\u017f' = false := by decide
      have hchars := Path.notMem_chars hp (c := '\u017f') (by decide)
      simp [hname.notMem, hbefore.notMem hlong, hopening.notMem hlong, hclosing.notMem hlong, hchars]

end ColumnExpr

/-! ## What is printed -/

/-- The text of a path with its names quoted. -/
def Path.quoted (d : Dialect) : Path → String
  | .all => "*"
  | .column names => ".".intercalate (names.map d.quoted)
  | .allOf names => ".".intercalate (names.map d.quoted ++ ["*"])

/-- The text of an expression with its names quoted and no blank in it. -/
def ColumnExpr.quoted (d : Dialect) : ColumnExpr → String
  | .path p => p.quoted d
  | .call function p => function ++ "(" ++ p.quoted d ++ ")"

section

variable (d : Dialect) (n : ℕ)

theorem Path.printEach_names (names : List Identifier) (rest : List Template) :
    printEach d n (nameTemplates names ++ rest) = names.map d.quoted ++ printEach d n rest := by
  induction names with
  | nil => rfl
  | cons name names ih =>
      have hcons : nameTemplates (name :: names) ++ rest = [.name name] :: (nameTemplates names ++ rest) := rfl
      rw [hcons, printEach]
      simp [printFrom, params, ih]

theorem Path.printFrom_template (p : Path) : printFrom d n p.template = p.quoted d := by
  cases p with
  | all => simp [template, printFrom, quoted]
  | column names =>
      have hnames := printEach_names d n names []
      rw [List.append_nil, printEach, List.append_nil] at hnames
      rw [template, printFrom_joined, hnames, quoted]
  | allOf names =>
      rw [template, printFrom_joined, printEach_names, quoted]
      simp [printEach, printFrom]

theorem ColumnExpr.printFrom_template (e : ColumnExpr) : printFrom d n e.template = e.quoted d := by
  cases e with
  | path p => exact p.printFrom_template d n
  | call function p =>
      rw [template, List.cons_append, printFrom, printFrom_append, p.printFrom_template, quoted]
      simp [printFrom, String.append_assoc]

end

end TableGate
