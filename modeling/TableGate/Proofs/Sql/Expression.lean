import TableGate.Proofs.Sql.Path

/-! # Column expressions

A column expression is a path or a call; a text without parentheses is never the second, and nothing
follows the closing parenthesis of a call. -/

namespace TableGate

namespace Path

theorem isWordChar_of_mem_parts {p : Path} {part : List Char} (hpart : part ∈ p.parts) {c : Char}
    (hc : c ∈ part) : Text.isWordChar c = true ∨ c = '*' := by
  have hname {names : List Identifier} (h : part ∈ names.map Identifier.chars) :
      Text.isWordChar c = true := by
    obtain ⟨n, -, rfl⟩ := List.mem_map.mp h
    exact n.isWordChar_of_mem hc
  cases p with
  | all => simp_all [parts]
  | column names => exact .inl (hname hpart)
  | allOf names =>
      rcases List.mem_append.mp hpart with hpart | hpart
      · exact .inl (hname hpart)
      · simp_all

/-- The characters that a path is made of. -/
theorem char_of_of? {cs : List Char} {p : Path} (h : of? cs = .ok p) {c : Char} (hc : c ∈ cs) :
    Text.isWordChar c = true ∨ c = '*' ∨ c = '.' := by
  by_cases hdot : c = '.'
  · exact .inr (.inr hdot)
  · obtain ⟨part, hpart, hmem⟩ := Text.mem_pieces (p := (· == '.')) hc (by simpa using hdot)
    rw [(of?_eq_ok.mp h).2] at hpart
    rcases isWordChar_of_mem_parts hpart hmem with hword | hstar
    · exact .inl hword
    · exact .inr (.inl hstar)

theorem solid_of_of? {cs : List Char} {p : Path} (h : of? cs = .ok p) : Text.Solid cs := by
  intro c hc
  rcases char_of_of? h hc with hword | rfl | rfl
  · exact Text.isBlank_of_isWordChar hword
  · decide
  · decide

theorem notMem_of_of? {cs : List Char} {p : Path} (h : of? cs = .ok p) {c : Char}
    (hc : (Text.isWordChar c || c == '*' || c == '.') = false) : c ∉ cs := by
  intro hmem
  have hchar := char_of_of? h hmem
  simp only [Bool.or_eq_false_iff, beq_eq_false_iff_ne] at hc
  simp_all

theorem ne_nil_of_of? {cs : List Char} {p : Path} (h : of? cs = .ok p) : cs ≠ [] := by
  rintro rfl
  exact absurd h (by rintro ⟨⟩)

theorem of?_name (n : Identifier) : of? n.chars = .ok (.column [n]) := by
  have hdot : ∀ c ∈ n.chars, (c == '.') = false := by
    intro c hc
    have hword := n.isWordChar_of_mem hc
    rw [beq_eq_false_iff_ne]
    rintro rfl
    exact absurd hword (by decide)
  exact of?_eq_ok.mpr ⟨by simp [WellFormed], Text.pieces_of_forall_not hdot⟩

/-- In front of a dot stand names only. -/
theorem star_last {p : Path} {front rest : List (List Char)} (h : p.parts = front ++ ['*'] :: rest) :
    rest = [] := by
  have hname {names : List Identifier} {back : List (List Char)}
      (h : names.map Identifier.chars = front ++ ['*'] :: back) : False := by
    have hmem : ['*'] ∈ names.map Identifier.chars := by simp [h]
    obtain ⟨n, -, hn⟩ := List.mem_map.mp hmem
    exact n.chars_ne_star hn
  cases p with
  | all =>
      have hlength := congrArg List.length h
      simp only [parts, List.length_append, List.length_cons, List.length_nil] at hlength
      exact List.length_eq_zero_iff.mp (by omega)
  | column names => exact (hname h).elim
  | allOf names =>
      rcases List.eq_nil_or_concat rest with hrest | ⟨init, last, rfl⟩
      · exact hrest
      · rw [parts, List.concat_eq_append, ← List.cons_append, ← List.append_assoc] at h
        exact (hname (List.append_inj' h rfl).1).elim

end Path

namespace Text

/-- The name of an aggregate function is made of letters. -/
theorem notMem_of_isAggregate {cs : List Char} (h : isAggregate cs = true) {c : Char}
    (hc : (foldCase c).isAlpha = false) : c ∉ cs := by
  intro hmem
  have hname : cs.map foldCase ∈ [['c', 'o', 'u', 'n', 't'], ['s', 'u', 'm'], ['a', 'v', 'g'],
      ['m', 'i', 'n'], ['m', 'a', 'x']] := by
    simpa [isAggregate, or_assoc] using h
  have hletters : [['c', 'o', 'u', 'n', 't'], ['s', 'u', 'm'], ['a', 'v', 'g'], ['m', 'i', 'n'],
      ['m', 'a', 'x']].all (fun name => name.all Char.isAlpha) = true := by decide
  have halpha := List.all_eq_true.mp (List.all_eq_true.mp hletters _ hname) (foldCase c)
    (List.mem_map_of_mem hmem)
  simp [hc] at halpha

theorem closing_notMem_of_isAggregateArgument {cs : List Char} (h : isAggregateArgument cs = true) :
    ')' ∉ cs := by
  intro hmem
  cases cs with
  | nil => simp at hmem
  | cons c cs =>
      simp only [isAggregateArgument, Bool.or_eq_true, Bool.and_eq_true, beq_iff_eq, List.isEmpty_iff,
        List.all_eq_true] at h
      rcases h with ⟨rfl, rfl⟩ | ⟨hc, hcs⟩
      · simp at hmem
      · rcases List.mem_cons.mp hmem with rfl | hmem
        · exact absurd hc (by decide)
        · exact absurd (hcs _ hmem) (by decide)

theorem notMem_of_trimChars {cs : List Char} {c : Char} (hc : isBlank c = false)
    (h : c ∉ trimChars cs) : c ∉ cs :=
  fun hmem => h (mem_trimChars hmem hc)

end Text

namespace ColumnExpr

/-- A text is a path if it is one without the blanks around it. -/
theorem of?_eq_path {s : String} {p : Path} :
    of? s = .ok (.path p) ↔ Path.of? (Text.trimChars s.toList) = .ok p := by
  constructor
  · intro h
    unfold of? at h
    split at h
    · obtain ⟨_, _, hp⟩ := Except.map_eq_ok.mp h
      cases hp
    · obtain ⟨_, hp, heq⟩ := Except.map_eq_ok.mp h
      cases heq
      exact hp
  · intro h
    have hcall : Text.aggregateCall? s.toList = none := by
      cases hcall : Text.aggregateCall? s.toList with
      | none => rfl
      | some call =>
          obtain ⟨before, inner, htrim, -⟩ := Text.aggregateCall?_eq_some hcall
          exact absurd (by simp [htrim]) (Path.notMem_of_of? h (c := '(') (by decide))
    unfold of?
    rw [hcall]
    simp [h]

theorem closing_of_call {s f : String} {p : Path} (h : of? s = .ok (.call f p)) :
    ∃ inner, Text.trimChars s.toList = inner ++ [')'] := by
  unfold of? at h
  split at h
  · rename_i hcall
    obtain ⟨before, inner, htrim, -⟩ := Text.aggregateCall?_eq_some hcall
    exact ⟨before ++ '(' :: inner, by simp [htrim]⟩
  · obtain ⟨_, _, hp⟩ := Except.map_eq_ok.mp h
    cases hp

/-- Behind a closing parenthesis there are only blanks. -/
theorem blank_of_closing {s : String} {e : ColumnExpr} (h : of? s = .ok e) {front back : List Char}
    (hs : s.toList = front ++ ')' :: back) : ∀ c ∈ back, Text.isBlank c = true := by
  have hclosing : Text.isBlank ')' = false := by decide
  have hmem : ')' ∈ Text.trimChars s.toList := Text.mem_trimChars (by simp [hs]) hclosing
  unfold of? at h
  split at h
  · rename_i f a hcall
    obtain ⟨before, inner, htrim, -, hf, ha, hname, hargument⟩ := Text.aggregateCall?_eq_some hcall
    subst hf ha
    have hbefore : ')' ∉ before :=
      Text.notMem_of_trimChars hclosing (Text.notMem_of_isAggregate hname (by decide))
    have hinner : ')' ∉ inner :=
      Text.notMem_of_trimChars hclosing (Text.closing_notMem_of_isAggregateArgument hargument)
    obtain ⟨left, right, hleft, hright, hsplit⟩ := Text.trimChars_split s.toList
    have hnotMem {blanks : List Char} (hblanks : ∀ b ∈ blanks, Text.isBlank b = true) :
        ')' ∉ blanks := fun hb => by simp [hblanks _ hb] at hclosing
    rw [htrim, hs] at hsplit
    have hparts : (left ++ before ++ '(' :: inner) ++ ')' :: right = front ++ ')' :: back := by
      simpa using hsplit.symm
    have hfront : ')' ∉ left ++ before ++ '(' :: inner := by
      simp [hnotMem hleft, hbefore, hinner]
    obtain ⟨-, -, rfl⟩ := (List.append_cons_inj_of_notMem hfront (hnotMem hright)).mp hparts
    exact hright
  · obtain ⟨p, hp, -⟩ := Except.map_eq_ok.mp h
    exact absurd hmem (Path.notMem_of_of? hp (by decide))

/-- A path, a dot and a column are the column below the names of the path. -/
theorem of?_under {own : List Char} {p : Path} (hown : Path.of? own = .ok p) {column : List Char}
    {e : ColumnExpr} (h : of? (String.ofList (own ++ '.' :: column)) = .ok e) :
    ∃ names q, p = .column names ∧ of? (String.ofList column) = .ok (.path q) ∧
      e = .path (q.under names) := by
  have hsolid : Text.Solid (own ++ ['.']) := by
    intro c hc
    rcases List.mem_append.mp hc with hc | hc
    · exact Path.solid_of_of? hown c hc
    · rw [List.mem_singleton.mp hc]
      decide
  have htrim := Text.trimChars_solid_append (by simp) hsolid column
  have hsplit : column = column.rdropWhile Text.isBlank ++ column.rtakeWhile Text.isBlank :=
    List.rdropWhile_append_rtakeWhile.symm
  generalize column.rdropWhile Text.isBlank = kept at htrim hsplit
  rw [List.append_assoc, List.append_assoc, List.singleton_append, List.singleton_append] at htrim
  unfold of? at h
  rw [String.toList_ofList] at h
  split at h
  · rename_i f a hcall
    obtain ⟨before, inner, hparts, -, rfl, -, hname, -⟩ := Text.aggregateCall?_eq_some hcall
    have hdot : '.' ∉ before :=
      Text.notMem_of_trimChars (by decide) (Text.notMem_of_isAggregate hname (by decide))
    have hopening : '(' ∉ own := Path.notMem_of_of? hown (by decide)
    rw [htrim] at hparts
    rcases List.append_eq_append_iff.mp hparts with ⟨more, rfl, hrest⟩ | ⟨more, rfl, hrest⟩
    · cases more with
      | nil => simp at hrest
      | cons c more =>
          rw [List.cons_append, List.cons.injEq] at hrest
          exact absurd (by simp [← hrest.1]) hdot
    · cases more with
      | nil => simp at hrest
      | cons c more =>
          rw [List.cons_append, List.cons.injEq] at hrest
          exact absurd (by simp [← hrest.1]) hopening
  · obtain ⟨under, hunder, rfl⟩ := Except.map_eq_ok.mp h
    rw [htrim] at hunder
    have hpieces := (Path.of?_eq_ok.mp hunder).2
    rw [Text.pieces_append_cons (by decide), (Path.of?_eq_ok.mp hown).2] at hpieces
    obtain ⟨first, rest, hkept⟩ := Text.exists_pieces (· == '.') kept
    cases p with
    | all =>
        rw [hkept] at hpieces
        have hstar : under.parts = [] ++ ['*'] :: first :: rest := hpieces.symm
        exact absurd (Path.star_last hstar) (by simp)
    | allOf names =>
        rw [hkept, Path.parts, List.append_assoc] at hpieces
        exact absurd (Path.star_last hpieces.symm) (by simp)
    | column names =>
        have hnames : names ≠ [] := by
          rintro rfl
          exact Text.pieces_ne_nil _ own (Path.of?_eq_ok.mp hown).2
        obtain ⟨q, hq, hparts, rfl⟩ := Path.eq_under hnames (Text.pieces_ne_nil _ kept) hpieces
        have hpath : Path.of? kept = .ok q := Path.of?_eq_ok.mpr ⟨hq, hparts⟩
        refine ⟨names, q, rfl, of?_eq_path.mpr ?_, rfl⟩
        rw [String.toList_ofList, hsplit, Text.trimChars_append_blank, Text.trimChars_of_solid, hpath]
        · exact Path.solid_of_of? hpath
        · exact fun b hb => List.mem_rtakeWhile_imp hb

/-- An identifier is understood as the column of this name. -/
theorem of?_name (n : Identifier) : of? n.text = .ok (ofName n) := by
  have hsolid : Text.Solid n.text.toList := fun c hc =>
    Text.isBlank_of_isWordChar (n.isWordChar_of_mem hc)
  refine of?_eq_path.mpr ?_
  rw [Text.trimChars_of_solid hsolid]
  exact Path.of?_name n

end ColumnExpr

/-! ## What an expression is about -/

/-- The column that a path ends in. -/
def Path.column? : Path → Option String
  | .column names => names.getLast?.map (·.text)
  | .all | .allOf _ => none

/-- The column that an expression is about, alone or as the argument of a call. -/
def ColumnExpr.column? : ColumnExpr → Option String
  | .path p | .call _ p => p.column?

theorem ColumnExpr.column?_ofName (n : Identifier) : (ofName n).column? = some n.text :=
  rfl

end TableGate
