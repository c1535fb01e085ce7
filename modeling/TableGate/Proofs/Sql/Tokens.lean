import TableGate.Proofs.Sql.Plain

/-! # Tokens of SQL

A text of SQL is read as words, quoted texts and symbols. Where a word cannot run on, two texts one after the
other are read as the tokens of the one and the tokens of the other; so the tokens of a template are found
piece by piece. -/

namespace TableGate

/-- A word, a text between a pair of quotation marks, or a symbol. -/
inductive Token where
  | word (cs : List Char)
  | quoted (mark : Char) (cs : List Char)
  | symbol (c : Char)
  deriving DecidableEq

namespace Text

/-- A character of a word: an ASCII letter or digit, the underscore, or any character beyond ASCII. -/
def isPart (c : Char) : Bool :=
  isWordChar c || decide (128 ≤ c.toNat)

def isMark (c : Char) : Bool :=
  ['\'', '"', '\x60'].contains c

/-- What precedes the characters does not run on as a word. -/
def Breaks (cs : List Char) : Prop :=
  ∀ c ∈ cs.head?, isPart c = false

end Text

open Text

/-- The place of a scan: between tokens, in a word, or behind an opening mark, with what was read since. -/
inductive Scan where
  | between
  | word (cs : List Char)
  | within (mark : Char) (cs : List Char)
  deriving DecidableEq

namespace Scan

/-- The token that ends with a character where none is open, and the place behind it. -/
def opened (c : Char) : List Token × Scan :=
  if isMark c then ([], .within c [])
  else if isPart c then ([], .word [c])
  else if c.isWhitespace then ([], .between)
  else ([.symbol c], .between)

/-- The tokens that end with a character, and the place behind it. -/
def step : Scan → Char → List Token × Scan
  | .between, c => opened c
  | .word cs, c =>
    if isPart c then ([], .word (cs ++ [c])) else (.word cs :: (opened c).1, (opened c).2)
  | .within mark cs, c =>
    if c = mark then ([.quoted mark cs], .between) else ([], .within mark (cs ++ [c]))

/-- The token that is still open at the end of a text. -/
def rest : Scan → List Token
  | .between => []
  | .word cs => [.word cs]
  | .within mark cs => [.quoted mark cs]

/-- No quotation is open at the place. -/
def isOutside : Scan → Bool
  | .within _ _ => false
  | _ => true

/-- The tokens of a text that is scanned from a place. -/
def tokens : Scan → List Char → List Token
  | s, [] => s.rest
  | s, c :: cs => (s.step c).1 ++ tokens (s.step c).2 cs

/-- The place behind a text. -/
def after : Scan → List Char → Scan
  | s, [] => s
  | s, c :: cs => after (s.step c).2 cs

end Scan

/-- The tokens of a text. -/
def Text.tokens (cs : List Char) : List Token :=
  Scan.between.tokens cs

/-! ## Texts one after the other -/

namespace Scan

/-- What is open at a place ends before the characters. -/
def EndsBefore (s : Scan) (cs : List Char) : Prop :=
  s.tokens cs = s.rest ++ Text.tokens cs

theorem endsBefore_between (cs : List Char) : between.EndsBefore cs :=
  rfl

theorem endsBefore_word (w : List Char) {cs : List Char} (h : Breaks cs) : (word w).EndsBefore cs := by
  cases cs with
  | nil => rfl
  | cons c cs =>
      have hc : isPart c = false := h c rfl
      simp [EndsBefore, tokens, step, rest, Text.tokens, hc]

theorem tokens_append {s : Scan} {cs ds : List Char} (h : (s.after cs).EndsBefore ds) :
    s.tokens (cs ++ ds) = s.tokens cs ++ Text.tokens ds := by
  induction cs generalizing s with
  | nil => exact h
  | cons c cs ih => rw [List.cons_append, tokens, tokens, ih h, List.append_assoc]

end Scan

namespace Text

/-- At the end of the text nothing is open. -/
def EndsBetween (cs : List Char) : Prop :=
  Scan.between.after cs = .between

/-- At the end of the text no quotation is open. -/
def EndsOutside (cs : List Char) : Prop :=
  (Scan.between.after cs).isOutside = true

instance (cs : List Char) : Decidable (EndsBetween cs) :=
  inferInstanceAs (Decidable (_ = _))

instance (cs : List Char) : Decidable (EndsOutside cs) :=
  inferInstanceAs (Decidable (_ = _))

theorem tokens_append_of_between {cs : List Char} (h : EndsBetween cs) (ds : List Char) :
    tokens (cs ++ ds) = tokens cs ++ tokens ds := by
  refine Scan.tokens_append ?_
  rw [h]
  exact Scan.endsBefore_between ds

theorem tokens_append {cs ds : List Char} (h : EndsOutside cs) (hds : Breaks ds) :
    tokens (cs ++ ds) = tokens cs ++ tokens ds := by
  refine Scan.tokens_append ?_
  rw [EndsOutside] at h
  cases hafter : Scan.between.after cs with
  | between => exact Scan.endsBefore_between ds
  | word w => exact Scan.endsBefore_word w hds
  | within mark inside => simp [hafter, Scan.isOutside] at h

theorem after_word {cs : List Char} (h : ∀ c ∈ cs, isPart c = true) (w : List Char) :
    (Scan.word w).after cs = .word (w ++ cs) := by
  induction cs generalizing w with
  | nil => simp [Scan.after]
  | cons c cs ih =>
      obtain ⟨hc, hcs⟩ := List.forall_mem_cons.mp h
      rw [Scan.after, Scan.step, if_pos hc, ih hcs, List.append_assoc, List.singleton_append]

theorem tokens_word {cs : List Char} (h : ∀ c ∈ cs, isPart c = true) (w : List Char) :
    (Scan.word w).tokens cs = [.word (w ++ cs)] := by
  induction cs generalizing w with
  | nil => simp [Scan.tokens, Scan.rest]
  | cons c cs ih =>
      obtain ⟨hc, hcs⟩ := List.forall_mem_cons.mp h
      rw [Scan.tokens, Scan.step, if_pos hc, List.nil_append, ih hcs, List.append_assoc,
        List.singleton_append]

theorem isMark_of_isPart {c : Char} (h : isPart c = true) : isMark c = false := by
  have hmark : c ∉ ['\'', '"', '\x60'] := notMem_of_all (by decide) h
  simpa [isMark] using hmark

/-- Characters of a word, where a word can end behind them. -/
theorem tokens_word_append {cs : List Char} (hne : cs ≠ []) (h : ∀ c ∈ cs, isPart c = true)
    {ds : List Char} (hds : Breaks ds) : tokens (cs ++ ds) = .word cs :: tokens ds := by
  cases cs with
  | nil => exact absurd rfl hne
  | cons c cs =>
      obtain ⟨hc, hcs⟩ := List.forall_mem_cons.mp h
      have hopened : Scan.opened c = ([], .word [c]) := by
        simp [Scan.opened, isMark_of_isPart hc, hc]
      have hafter : Scan.between.after (c :: cs) = .word (c :: cs) := by
        rw [Scan.after, Scan.step, hopened]
        exact after_word hcs [c]
      have htokens : tokens (c :: cs) = [.word (c :: cs)] := by
        rw [tokens, Scan.tokens, Scan.step, hopened]
        exact tokens_word hcs [c]
      have happend : tokens ((c :: cs) ++ ds) = tokens (c :: cs) ++ tokens ds := by
        refine tokens_append ?_ hds
        rw [EndsOutside, hafter]
        rfl
      rw [happend, htokens, List.singleton_append]

theorem tokens_within {mark : Char} {cs : List Char} (h : mark ∉ cs) (inside ds : List Char) :
    (Scan.within mark inside).tokens (cs ++ mark :: ds) = .quoted mark (inside ++ cs) :: tokens ds := by
  induction cs generalizing inside with
  | nil => simp [Scan.tokens, Scan.step, tokens]
  | cons c cs ih =>
      obtain ⟨hc, hcs⟩ := List.ne_and_not_mem_of_not_mem_cons h
      rw [List.cons_append, Scan.tokens, Scan.step, if_neg (Ne.symm hc), List.nil_append, ih hcs,
        List.append_assoc, List.singleton_append]

/-- A text between marks that does not hold the mark. -/
theorem tokens_quoted {mark : Char} (hmark : isMark mark = true) {cs : List Char} (h : mark ∉ cs)
    (ds : List Char) : tokens (mark :: (cs ++ [mark]) ++ ds) = .quoted mark cs :: tokens ds := by
  rw [List.cons_append, List.append_assoc, List.singleton_append, tokens, Scan.tokens, Scan.step,
    Scan.opened, if_pos hmark, List.nil_append, tokens_within h]
  rfl

theorem tokens_symbol {c : Char} (hmark : isMark c = false) (hpart : isPart c = false)
    (hblank : c.isWhitespace = false) (ds : List Char) : tokens (c :: ds) = .symbol c :: tokens ds := by
  rw [tokens, Scan.tokens, Scan.step, Scan.opened, hmark, hpart, hblank]
  rfl

end Text

/-! ## Tokens of templates -/

/-- The tokens of the mark for the parameter at a position. -/
def Dialect.placeholderTokens (d : Dialect) (position : ℕ) : List Token :=
  match d with
  | .postgres => [.symbol '$', .word (Text.digits position)]
  | .mysql => [.symbol '?']
  | .sqlite => [.symbol '?']

theorem Dialect.tokens_placeholder_append (d : Dialect) (n : ℕ) {cs : List Char} (h : Breaks cs) :
    Text.tokens ((d.placeholder n).toList ++ cs) = d.placeholderTokens n ++ Text.tokens cs := by
  have hquestion : Text.tokens ("?".toList ++ cs) = [.symbol '?'] ++ Text.tokens cs :=
    Text.tokens_append_of_between (by decide) cs
  cases d with
  | mysql | sqlite => exact hquestion
  | postgres =>
      have hdigits : ∀ c ∈ Text.digits n, isPart c = true := by
        intro c hc
        simp [isPart, isWordChar_of_isDigit (Text.isDigit_of_mem_digits hc)]
      have hchars : (Dialect.postgres.placeholder n).toList = '$' :: Text.digits n := by
        simp [placeholder, Text.ofNat]
      rw [hchars, List.cons_append, Text.tokens_symbol (by decide) (by decide) (by decide),
        Text.tokens_word_append (Text.digits_ne_nil n) hdigits h]
      rfl

namespace Template

/-- The template, whose first parameter has the given position, is printed as text with the given tokens,
where a word can end behind it. -/
def Reads (d : Dialect) (n : ℕ) (t : Template) (ts : List Token) : Prop :=
  ∀ cs, Breaks cs → Text.tokens ((printFrom d n t).toList ++ cs) = ts ++ Text.tokens cs

/-- A word ends before the template, unless the template is empty and one runs on behind it. -/
def Apart (d : Dialect) (t : Template) : Prop :=
  ∀ n cs, Breaks cs → Breaks ((printFrom d n t).toList ++ cs)

variable {d : Dialect} {n : ℕ} {s t : Template} {ss ts : List Token}

theorem Reads.tokens_printFrom (h : Reads d n t ts) : Text.tokens (printFrom d n t).toList = ts := by
  have htokens := h [] (by simp [Breaks])
  simpa [Text.tokens, Scan.tokens, Scan.rest] using htokens

theorem apart_nil : Apart d [] := by
  intro n cs h
  simpa [printFrom] using h

theorem breaks_append {cs : List Char} (hne : cs ≠ []) (h : Breaks cs) (ds : List Char) :
    Breaks (cs ++ ds) := by
  cases cs with
  | nil => exact absurd rfl hne
  | cons c cs => exact h

theorem apart_text {x : String} (h : x.toList.head?.any (fun c => !isPart c) = true) :
    Apart d (.text x :: t) := by
  intro n cs _
  cases hx : x.toList with
  | nil => simp [hx] at h
  | cons c rest => simpa [Breaks, printFrom, hx] using h

theorem reads_nil : Reads d n [] [] := by
  intro cs _
  simp [printFrom]

theorem Reads.append (hs : Reads d n s ss) (ht : Reads d (n + (params s).length) t ts) (ha : Apart d t) :
    Reads d n (s ++ t) (ss ++ ts) := by
  intro cs h
  rw [printFrom_append, String.toList_append, List.append_assoc, hs _ (ha _ cs h), ht cs h,
    List.append_assoc]

/-- Fixed text in front of a template that it is set apart from. -/
theorem Reads.text {x : String} (hx : EndsOutside x.toList) (ht : Reads d n t ts) (ha : Apart d t) :
    Reads d n (.text x :: t) (Text.tokens x.toList ++ ts) := by
  intro cs h
  rw [printFrom, String.toList_append, List.append_assoc, Text.tokens_append hx (ha n cs h), ht cs h,
    List.append_assoc]

/-- Fixed text with nothing open at its end, in front of any template. -/
theorem Reads.text_between {x : String} (hx : EndsBetween x.toList) (ht : Reads d n t ts) :
    Reads d n (.text x :: t) (Text.tokens x.toList ++ ts) := by
  intro cs h
  rw [printFrom, String.toList_append, List.append_assoc, Text.tokens_append_of_between hx, ht cs h,
    List.append_assoc]

theorem reads_text {x : String} (hx : EndsOutside x.toList) :
    Reads d n [.text x] (Text.tokens x.toList) := by
  have h := reads_nil.text (d := d) (n := n) hx apart_nil
  rwa [List.append_nil] at h

theorem Reads.name {i : Identifier} (ht : Reads d n t ts) :
    Reads d n (.name i :: t) (.quoted d.quote i.text.toList :: ts) := by
  intro cs h
  have hmark : isMark d.quote = true := by cases d <;> decide
  rw [printFrom, String.toList_append, List.append_assoc, d.toList_quoted,
    Text.tokens_quoted hmark (d.quote_notMem i), ht cs h, List.cons_append]

theorem Reads.literal {x : String} (hx : '\'' ∉ x.toList) (ht : Reads d n t ts) :
    Reads d n (.literal x :: t) (.quoted '\'' x.toList :: ts) := by
  intro cs h
  have hprint : ("'" ++ x ++ "'").toList = '\'' :: (x.toList ++ ['\'']) := by simp
  rw [printFrom, String.toList_append, List.append_assoc, hprint, Text.tokens_quoted (by decide) hx,
    ht cs h, List.cons_append]

theorem Reads.param {v : Value} (ht : Reads d (n + 1) t ts) (ha : Apart d t) :
    Reads d n (.param v :: t) (d.placeholderTokens n ++ ts) := by
  intro cs h
  rw [printFrom, String.toList_append, List.append_assoc, d.tokens_placeholder_append n (ha _ cs h),
    ht cs h, List.append_assoc]

end Template

end TableGate
