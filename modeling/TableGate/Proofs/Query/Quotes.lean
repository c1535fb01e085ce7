import TableGate.Proofs.Query.Vetted

/-! # Quotation marks in a statement

In a statement without raw fragments the quotation marks pair up: the quotes of the dialect around names, and
single quotes around a blank or a path into a JSON column. No text of the caller's could close either. -/

namespace TableGate

/-! ## Reading quoted text -/

namespace Text

/-- The texts between the marks, which open and close in turn. Outside of marks the state is `none`; inside
it holds, in reverse, what was read since the opening mark. -/
def quotedFrom (mark : Char) : Option (List Char) → List Char → Option (List (List Char))
  | none, [] => some []
  | some _, [] => none
  | none, c :: cs => if c = mark then quotedFrom mark (some []) cs else quotedFrom mark none cs
  | some inside, c :: cs =>
    if c = mark then (quotedFrom mark none cs).map (inside.reverse :: ·)
    else quotedFrom mark (some (c :: inside)) cs

/-- The texts between pairs of marks, if the marks pair up. -/
def quoted? (mark : Char) (cs : List Char) : Option (List (List Char)) :=
  quotedFrom mark none cs

variable {mark : Char} {xs : List Char}

theorem quoted?_append_of_notMem (h : mark ∉ xs) (cs : List Char) :
    quoted? mark (xs ++ cs) = quoted? mark cs := by
  unfold quoted?
  induction xs with
  | nil => rfl
  | cons x xs ih =>
      obtain ⟨hx, hxs⟩ := List.ne_and_not_mem_of_not_mem_cons h
      rw [List.cons_append, quotedFrom, if_neg (Ne.symm hx), ih hxs]

theorem quotedFrom_closing (h : mark ∉ xs) (inside cs : List Char) :
    quotedFrom mark (some inside) (xs ++ mark :: cs) =
      (quotedFrom mark none cs).map ((inside.reverse ++ xs) :: ·) := by
  induction xs generalizing inside with
  | nil => simp [quotedFrom]
  | cons x xs ih =>
      obtain ⟨hx, hxs⟩ := List.ne_and_not_mem_of_not_mem_cons h
      rw [List.cons_append, quotedFrom, if_neg (Ne.symm hx), ih hxs]
      simp

/-- A pair of marks around text that does not hold the mark. -/
theorem quoted?_pair (h : mark ∉ xs) (cs : List Char) :
    quoted? mark (mark :: (xs ++ mark :: cs)) = (quoted? mark cs).map (xs :: ·) := by
  rw [quoted?, quotedFrom, if_pos rfl, quotedFrom_closing h]
  rfl

end Text

/-! ## Names and literals in a template -/

namespace Template

/-- The names in a template, from left to right. -/
def names : Template → List (List Char)
  | [] => []
  | .name n :: rest => n.text.toList :: names rest
  | _ :: rest => names rest

/-- The contents of the literals in a template, from left to right. -/
def literals : Template → List (List Char)
  | [] => []
  | .literal s :: rest => s.toList :: literals rest
  | _ :: rest => literals rest

variable {d : Dialect} {t : Template}

theorem isIdentifier_of_mem_names {n : List Char} (h : n ∈ names t) : Text.isIdentifier n = true := by
  induction t with
  | nil => cases h
  | cons p t ih =>
      cases p with
      | name i =>
          rcases List.mem_cons.mp h with rfl | h
          · exact i.valid
          · exact ih h
      | text | raw | literal | param => exact ih h

theorem mem_literals_of_plain (ht : Plain t) {l : List Char} (h : l ∈ literals t) :
    l = [' '] ∨ JsonStep.IsPathText (String.ofList l) := by
  induction t with
  | nil => cases h
  | cons p t ih =>
      obtain ⟨hp, hrest⟩ := plain_cons.mp ht
      cases p with
      | literal s =>
          rcases List.mem_cons.mp h with rfl | h
          · refine hp.imp (fun hs => by rw [hs]; rfl) fun hpath => ?_
            rwa [String.ofList_toList]
          · exact ih hrest h
      | text | name | raw | param => exact ih hrest h

/-- The content of a literal holds no quotation mark. -/
theorem notMem_literal {s : String} (h : s = " " ∨ JsonStep.IsPathText s) {c : Char}
    (hc : c ≠ ' ' ∧ JsonStep.isPathChar c = false) : c ∉ s.toList := by
  rcases h with rfl | hpath
  · simpa using hc.1
  · intro hmem
    simp [hpath.isPathChar c hmem] at hc

theorem notMem_plain {cs : List Char} (h : Text.Plain cs) {c : Char} (hc : c ∈ ['\'', '"', '\x60', '/']) :
    c ∉ cs :=
  fun hmem => h.2.1 c hmem hc

/-- The quotes of the dialect stand around the names of a plain template and nowhere else. -/
theorem Plain.quoted?_names (h : Plain t) (n : ℕ) :
    Text.quoted? d.quote (printFrom d n t).toList = some (names t) := by
  have hquote : d.quote ∈ ['\'', '"', '\x60', '/'] := by cases d <;> decide
  induction t generalizing n with
  | nil => rfl
  | cons p t ih =>
      obtain ⟨hp, hrest⟩ := plain_cons.mp h
      cases p with
      | raw x => exact hp.elim
      | text x =>
          rw [printFrom, String.toList_append, Text.quoted?_append_of_notMem (notMem_plain hp hquote)]
          exact ih hrest n
      | param v =>
          have hmark := notMem_plain (d.plain_placeholder n) hquote
          rw [printFrom, String.toList_append, Text.quoted?_append_of_notMem hmark]
          exact ih hrest (n + 1)
      | name i =>
          rw [printFrom, String.toList_append, d.toList_quoted, List.cons_append, List.append_assoc,
            List.singleton_append, Text.quoted?_pair (d.quote_notMem i), ih hrest]
          rfl
      | literal s =>
          have hcontent : d.quote ∉ ("'" ++ s ++ "'").toList := by
            have hs := notMem_literal hp (c := d.quote) (by cases d <;> decide)
            have hmark : d.quote ∉ "'".toList := by cases d <;> decide
            simp only [String.toList_append, List.mem_append, not_or]
            exact ⟨⟨hmark, hs⟩, hmark⟩
          rw [printFrom, String.toList_append, Text.quoted?_append_of_notMem hcontent]
          exact ih hrest n

/-- Single quotes stand around the literals of a plain template and nowhere else. -/
theorem Plain.quoted?_literals (h : Plain t) (n : ℕ) :
    Text.quoted? '\'' (printFrom d n t).toList = some (literals t) := by
  induction t generalizing n with
  | nil => rfl
  | cons p t ih =>
      obtain ⟨hp, hrest⟩ := plain_cons.mp h
      cases p with
      | raw x => exact hp.elim
      | text x =>
          rw [printFrom, String.toList_append,
            Text.quoted?_append_of_notMem (notMem_plain hp (by decide))]
          exact ih hrest n
      | param v =>
          have hmark := notMem_plain (d.plain_placeholder n) (c := '\'') (by decide)
          rw [printFrom, String.toList_append, Text.quoted?_append_of_notMem hmark]
          exact ih hrest (n + 1)
      | name i =>
          have hname : '\'' ∉ (d.quoted i).toList := by
            have hword : '\'' ∉ i.text.toList := fun hmem => absurd (i.isWordChar_of_mem hmem) (by decide)
            have hmark : '\'' ≠ d.quote := by cases d <;> decide
            simp [d.toList_quoted, hword, hmark]
          rw [printFrom, String.toList_append, Text.quoted?_append_of_notMem hname]
          exact ih hrest n
      | literal s =>
          have hcontent := notMem_literal hp (c := '\'') (by decide)
          rw [printFrom, String.toList_append, toList_literal, List.cons_append, List.append_assoc,
            List.singleton_append, Text.quoted?_pair hcontent, ih hrest, literals]
          rfl

/-- Without fragments all pieces are plain. -/
theorem Vetted.plain (h : Vetted (fun _ => False) t) : Plain t := by
  induction t with
  | nil => exact plain_nil
  | cons p t ih =>
      cases p with
      | raw x => exact h.1.elim
      | text | name | literal | param => exact plain_cons.mpr ⟨h.1, ih h.2⟩

end Template

namespace Compiler

/-- In a statement without raw fragments the quotes of the dialect pair up around identifiers, and single
quotes pair up around a blank or a path into a JSON column. -/
theorem selectScoped_quotes {k : Compiler} {scope : Scope} {table : String} {q : QuerySpec} {s : Statement}
    (hraw : q.rawFragments = []) (h : k.selectScoped table q scope = .ok s) :
    (∃ names, Text.quoted? k.dialect.quote s.sql.toList = some names ∧
      ∀ n ∈ names, Text.isIdentifier n = true) ∧
    ∃ literals, Text.quoted? '\'' s.sql.toList = some literals ∧
      ∀ l ∈ literals, l = [' '] ∨
        JsonStep.IsPathText (String.ofList l) ∧ ∀ c ∈ l, JsonStep.isPathChar c = true := by
  obtain ⟨select, hselect, rfl⟩ := Compiler.selectScoped_eq_ok.mp h
  have hvetted : Template.Vetted (fun _ => False) (select.template k.dialect) :=
    QuerySpec.vetted q scope table select hselect (by simp [hraw])
  have hplain := hvetted.plain
  refine ⟨⟨_, hplain.quoted?_names 1, fun n hn => Template.isIdentifier_of_mem_names hn⟩, _,
    hplain.quoted?_literals 1, fun l hl => ?_⟩
  refine (Template.mem_literals_of_plain hplain hl).imp_right fun hpath => ⟨hpath, fun c hc => ?_⟩
  exact hpath.isPathChar c (by simpa using hc)

/-- A value inside a JSON column, a window function, and a search in two columns at once. -/
theorem selectScoped_quotes_search :
    let k : Compiler := ⟨.postgres, .trusted⟩
    let q := ((QuerySpec.empty.jsonPath ⟨"p.data", "$.tags[0]", none⟩).window
      ⟨"rank", [], ["p.kind"], [], "place"⟩).fullText ⟨["title", "body"], "it's", .naturalLanguage⟩
    q.rawFragments = [] ∧
      ∃ s, k.selectScoped "posts AS p" q (fun _ => some "deleted_at") = .ok s ∧
        (∃ names, Text.quoted? '"' s.sql.toList = some names ∧ ∀ n ∈ names, Text.isIdentifier n = true) ∧
        ∃ literals, Text.quoted? '\'' s.sql.toList = some literals ∧
          ∀ l ∈ literals, l = [' '] ∨
            JsonStep.IsPathText (String.ofList l) ∧ ∀ c ∈ l, JsonStep.isPathChar c = true := by
  intro k q
  have hraw : q.rawFragments = [] := rfl
  obtain ⟨s, hs⟩ : ∃ s, k.selectScoped "posts AS p" q (fun _ => some "deleted_at") = .ok s :=
    Except.exists_of_isOk (by decide)
  exact ⟨hraw, s, hs, selectScoped_quotes hraw hs⟩

end Compiler

end TableGate
