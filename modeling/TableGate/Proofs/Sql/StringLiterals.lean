import TableGate.Proofs.Sql.Plain
import TableGate.Sql.Literal

/-! # String literals as the databases read them

A database reads a statement character by character: outside of quotes, inside a name, or inside a string
literal. A quotation mark that is written twice stands for itself. MySQL, in its default mode, also reads a
backslash together with the character after it, and takes double quotes for those of a literal. What is
written with doubled quotation marks is read back, unless MySQL finds a backslash that it does not keep. -/

namespace TableGate

namespace Literal

/-- What MySQL reads for a backslash and the character after it. Only before the two wildcards of a pattern
is the backslash kept. -/
def unescaped : Char → List Char
  | '0' => ['\x00']
  | 'b' => ['\x08']
  | 'n' => ['\n']
  | 'r' => ['\r']
  | 't' => ['\t']
  | 'Z' => ['\x1a']
  | '%' => ['\\', '%']
  | '_' => ['\\', '_']
  | c => [c]

/-- Where a reader stands in a statement. What was read of a literal is in reverse. -/
inductive Scan where
  | outside
  | named
  | inside (mark : Char) (read : List Char)
  | escaped (mark : Char) (read : List Char)
  /-- Behind a mark that ends the literal, unless the same mark follows. -/
  | closed (mark : Char) (read : List Char)

namespace Scan

/-- Where a character leads that is in no quotes. -/
def enter (d : Dialect) (c : Char) : Scan :=
  if c = '\'' ∨ d = .mysql ∧ c = '"' then .inside c []
  else if c = d.quote then .named
  else .outside

def next (d : Dialect) : Scan → Char → Scan
  | .outside, c => enter d c
  | .named, c => if c = d.quote then .outside else .named
  | .inside mark read, c =>
    if c = mark then .closed mark read
    else if d = .mysql ∧ c = '\\' then .escaped mark read
    else .inside mark (c :: read)
  | .escaped mark read, c => .inside mark ((unescaped c).reverse ++ read)
  | .closed mark read, c => if c = mark then .inside mark (c :: read) else enter d c

/-- The literal that is complete once a character follows, or once nothing follows. -/
def complete : Scan → Option Char → List (List Char)
  | .closed mark read, c => if c = some mark then [] else [read.reverse]
  | _, _ => []

/-- Whether a statement may end here. -/
def mayEnd : Scan → Bool
  | .outside | .closed _ _ => true
  | .named | .inside _ _ | .escaped _ _ => false

/-- The values of the literals that are read from here on, if all quotes are closed. -/
def literals? (d : Dialect) : Scan → List Char → Option (List (List Char))
  | s, [] => if s.mayEnd then some (s.complete none) else none
  | s, c :: cs => (literals? d (s.next d c) cs).map (s.complete (some c) ++ ·)

end Scan

/-- The values of the string literals in a statement, as the database of a dialect reads it. -/
def readAll? (d : Dialect) (sql : List Char) : Option (List (List Char)) :=
  Scan.literals? d .outside sql

/-- Every backslash stands before a wildcard of a pattern. -/
def keepsBackslashes : List Char → Bool
  | [] => true
  | [c] => c != '\\'
  | c :: e :: cs => if c = '\\' then (e = '%' || e = '_') && keepsBackslashes cs else keepsBackslashes (e :: cs)

/-- The text is what the database of a dialect reads in the literal for it. -/
def Kept (d : Dialect) (cs : List Char) : Prop :=
  d = .mysql → keepsBackslashes cs = true

instance (d : Dialect) (cs : List Char) : Decidable (Kept d cs) :=
  inferInstanceAs (Decidable (_ → _))

namespace Scan

variable {d : Dialect} {cs : List Char}

@[simp] theorem literals?_cons (s : Scan) (c : Char) (cs : List Char) :
    literals? d s (c :: cs) = (literals? d (s.next d c) cs).map (s.complete (some c) ++ ·) :=
  rfl

/-! ## Text without quotation marks, and names -/

/-- No kind of quotation mark is in the text. -/
def Unquoted (cs : List Char) : Prop :=
  ∀ c ∈ cs, c ∉ ['\'', '"', '\x60']

instance (cs : List Char) : Decidable (Unquoted cs) :=
  List.decidableBAll _ cs

theorem enter_of_unquoted {c : Char} (h : c ∉ ['\'', '"', '\x60']) : enter d c = .outside := by
  simp only [List.mem_cons, List.not_mem_nil, or_false, not_or] at h
  have hquote : c ≠ d.quote := by cases d <;> simp [Dialect.quote, h]
  simp [enter, h, hquote]

theorem literals?_unquoted {xs : List Char} (h : Unquoted xs) (cs : List Char) :
    literals? d .outside (xs ++ cs) = literals? d .outside cs := by
  induction xs with
  | nil => rfl
  | cons x xs ih =>
      obtain ⟨hx, hxs⟩ := List.forall_mem_cons.mp h
      rw [List.cons_append, literals?_cons, next, enter_of_unquoted hx, ih hxs]
      simp [complete]

theorem literals?_named {xs : List Char} (h : d.quote ∉ xs) (cs : List Char) :
    literals? d .named (xs ++ d.quote :: cs) = literals? d .outside cs := by
  induction xs with
  | nil => simp [next, complete]
  | cons x xs ih =>
      obtain ⟨hx, hxs⟩ := List.ne_and_not_mem_of_not_mem_cons h
      rw [List.cons_append, literals?_cons, next, if_neg (Ne.symm hx), ih hxs]
      simp [complete]

theorem literals?_quoted (n : Identifier) (cs : List Char) :
    literals? d .outside ((d.quoted n).toList ++ cs) = literals? d .outside cs := by
  have henter : enter d d.quote = .named := by cases d <;> rfl
  rw [d.toList_quoted, List.cons_append, List.append_assoc, List.singleton_append, literals?_cons, next,
    henter, literals?_named (d.quote_notMem n)]
  simp [complete]

/-! ## Inside a literal -/

/-- What was read of the literal in which the reader stands. -/
def content? : Scan → Option (List Char)
  | .inside _ read | .escaped _ read | .closed _ read => some read.reverse
  | .outside | .named => none

/-- A character adds to the literal in which the reader stands, or completes it. -/
theorem content?_next {s : Scan} {v : List Char} (hv : s.content? = some v) (c : Char) :
    (∃ w, (s.next d c).content? = some (v ++ w) ∧ s.complete (some c) = []) ∨
      s.complete (some c) = [v] := by
  cases s with
  | outside | named => cases hv
  | escaped mark read =>
      cases hv
      exact .inl ⟨unescaped c, by simp [next, content?], rfl⟩
  | inside mark read =>
      cases hv
      refine .inl ?_
      by_cases hc : c = mark
      · exact ⟨[], by simp [next, hc, content?], rfl⟩
      · by_cases hescape : d = .mysql ∧ c = '\\'
        · exact ⟨[], by rw [next, if_neg hc, if_pos hescape]; simp [content?], rfl⟩
        · exact ⟨[c], by simp [next, hc, hescape, content?], rfl⟩
  | closed mark read =>
      cases hv
      by_cases hc : c = mark
      · exact .inl ⟨[c], by simp [next, hc, content?], by simp [complete, hc]⟩
      · exact .inr (by simp [complete, hc])

/-- The first literal that is completed begins with what was read of it. -/
theorem prefix_of_literals? {s : Scan} {v : List Char} (hv : s.content? = some v)
    {ls : List (List Char)} (h : literals? d s cs = some ls) : ∃ w ts, ls = (v ++ w) :: ts := by
  induction cs generalizing s v ls with
  | nil =>
      cases s with
      | closed mark read =>
          cases hv
          simp only [literals?, mayEnd, if_true, complete, Option.some.injEq] at h
          exact ⟨[], [], by simp [← h]⟩
      | outside | named => cases hv
      | inside | escaped => simp [literals?, mayEnd] at h
  | cons c cs ih =>
      simp only [literals?_cons, Option.map_eq_some_iff] at h
      obtain ⟨rest, hrest, rfl⟩ := h
      rcases content?_next (d := d) hv c with ⟨w, hnext, hnone⟩ | hdone
      · obtain ⟨w', ts, rfl⟩ := ih hnext hrest
        exact ⟨w ++ w', ts, by simp [hnone]⟩
      · exact ⟨[], rest, by simp [hdone]⟩

/-- What was read last is where it has to be in the value. -/
theorem eq_of_literals?_inside {mark c c' : Char} {read x : List Char} {ts : List (List Char)}
    (h : literals? d (.inside mark (c :: read)) cs = some ((read.reverse ++ c' :: x) :: ts)) : c = c' := by
  obtain ⟨w, ts', heq⟩ := prefix_of_literals? (s := .inside mark (c :: read)) rfl h
  have hvalue : read.reverse ++ c' :: x = read.reverse ++ c :: w := by
    simpa using (List.cons.inj heq).1
  exact (List.cons.inj (List.append_cancel_left hvalue)).1.symm

/-- A character of a text, written as it is in a literal, is read as itself. -/
theorem literals?_doubled_cons {c : Char} (hc : d = .mysql → c ≠ '\\') (read t cs : List Char) :
    literals? d (.inside '\'' read) (doubled (c :: t) ++ cs) =
      literals? d (.inside '\'' (c :: read)) (doubled t ++ cs) := by
  by_cases hmark : c = '\''
  · simp [doubled, hmark, next, complete]
  · have hplain : ¬(d = .mysql ∧ c = '\\') := fun h => hc h.1 h.2
    simp [doubled, hmark, next, complete, hplain]

/-- A backslash takes the first character of what follows with it, even half of a doubled mark. -/
theorem literals?_backslash {e : Char} (read cs : List Char) :
    literals? .mysql (.inside '\'' read) ('\\' :: e :: cs) =
      literals? .mysql (.inside '\'' ((unescaped e).reverse ++ read)) cs := by
  simp [next, complete]

/-- A doubled character that is not a quotation mark is itself. -/
theorem doubled_cons {c : Char} (hc : c ≠ '\'') (t : List Char) : doubled (c :: t) = c :: doubled t := by
  simp [doubled, hc]

theorem unescaped_wildcard {e : Char} (h : e = '%' ∨ e = '_') : unescaped e = ['\\', e] := by
  rcases h with rfl | rfl <;> rfl

theorem unescaped_of_notMem {e : Char} (h : e ∉ ['\\', '%', '_']) :
    ∃ x, unescaped e = [x] ∧ x ≠ '\\' := by
  simp only [List.mem_cons, List.not_mem_nil, or_false, not_or] at h
  unfold unescaped
  split
  all_goals first
    | exact ⟨_, rfl, by decide⟩
    | exact absurd rfl h.2.1
    | exact absurd rfl h.2.2
    | exact ⟨_, rfl, h.1⟩

/-- Behind its closing mark a literal is complete, unless the mark follows once more. -/
theorem literals?_closed {mark : Char} (hcs : cs.head? ≠ some mark) (read : List Char) :
    literals? d (.closed mark read) cs = (literals? d .outside cs).map (read.reverse :: ·) := by
  cases cs with
  | nil => simp [literals?, mayEnd, complete]
  | cons c cs =>
      have hc : c ≠ mark := fun h => hcs (by rw [h]; rfl)
      simp only [literals?_cons, next, if_neg hc, Option.map_map]
      refine Option.map_congr fun ls _ => ?_
      simp [complete, hc]

theorem literals?_inside_mark (read cs : List Char) :
    literals? d (.inside '\'' read) ('\'' :: cs) = literals? d (.closed '\'' read) cs := by
  simp [next, complete]

/-- A text that is kept is read from its literal, up to the mark that closes the literal. -/
theorem literals?_doubled {t : List Char} (h : Kept d t) (read cs : List Char) :
    literals? d (.inside '\'' read) (doubled t ++ '\'' :: cs) =
      literals? d (.closed '\'' (t.reverse ++ read)) cs := by
  induction t using keepsBackslashes.induct generalizing read with
  | case1 => exact literals?_inside_mark read cs
  | case2 c =>
      have hc : d = .mysql → c ≠ '\\' := fun hd => by simpa [keepsBackslashes] using h hd
      rw [literals?_doubled_cons hc]
      exact literals?_inside_mark (c :: read) cs
  | case3 e t ih =>
      by_cases hd : d = .mysql
      · subst hd
        obtain ⟨hwild, hkept⟩ : (e = '%' ∨ e = '_') ∧ keepsBackslashes t = true := by
          simpa [keepsBackslashes] using h rfl
        have hmark : e ≠ '\'' := by rcases hwild with rfl | rfl <;> decide
        rw [doubled_cons (by decide), doubled_cons hmark, List.cons_append, List.cons_append,
          literals?_backslash, unescaped_wildcard hwild, ih fun _ => hkept]
        simp
      · rw [literals?_doubled_cons fun h => absurd h hd, literals?_doubled_cons fun h => absurd h hd,
          ih fun h => absurd h hd]
        simp
  | case4 c e t hc ih =>
      have hkept : Kept d (e :: t) := fun hd => by simpa [keepsBackslashes, hc] using h hd
      rw [literals?_doubled_cons fun _ => hc, ih hkept]
      simp

/-- Behind a backslash that is read as itself stands one of the characters before which this can be. -/
theorem mem_of_literals?_backslash {e : Char} {r t x : List Char} {ts : List (List Char)}
    (h : literals? .mysql (.inside '\'' r) ('\\' :: (doubled (e :: t) ++ cs)) =
      some ((r.reverse ++ '\\' :: x) :: ts)) : e ∈ ['\\', '%', '_'] := by
  by_contra he
  obtain ⟨y, hy, hne⟩ := unescaped_of_notMem he
  obtain ⟨tail, htail⟩ : ∃ tail, doubled (e :: t) = e :: tail := by
    unfold doubled
    split
    · rename_i hmark
      exact ⟨'\'' :: doubled t, by rw [hmark]⟩
    · exact ⟨_, rfl⟩
  rw [htail, List.cons_append, literals?_backslash, hy] at h
  exact hne (eq_of_literals?_inside h)

theorem replicate_append_cons (n : ℕ) (t : List Char) :
    List.replicate n '\\' ++ '\\' :: t = '\\' :: (List.replicate n '\\' ++ t) := by
  rw [List.append_cons, ← List.replicate_succ', List.replicate_succ, List.cons_append]

/-- A text that MySQL reads as itself, behind any number of backslashes, keeps its backslashes, and there are
none in front of it. -/
theorem kept_of_literals? {t : List Char} (hcs : cs.head? ≠ some '\'') {r : List Char} {n : ℕ}
    {ts : List (List Char)}
    (h : literals? .mysql (.inside '\'' r) (doubled t ++ '\'' :: cs) =
      some ((r.reverse ++ (List.replicate n '\\' ++ t)) :: ts)) :
    n = 0 ∧ keepsBackslashes t = true := by
  -- a value with another character in the place of the first backslash is not the one looked for
  have hfirst {c : Char} {r rest x : List Char} (hc : c ≠ '\\')
      (h : literals? .mysql (.inside '\'' (c :: r)) rest = some ((r.reverse ++ '\\' :: x) :: ts)) : False :=
    hc (eq_of_literals?_inside h)
  induction t using keepsBackslashes.induct generalizing r n with
  | case1 =>
      rw [doubled, List.nil_append, literals?_inside_mark, literals?_closed hcs] at h
      obtain ⟨ls, -, hls⟩ := Option.map_eq_some_iff.mp h
      have hnone : List.replicate n '\\' ++ [] = [] :=
        List.self_eq_append_right.mp (List.cons.inj hls).1
      simpa [keepsBackslashes] using hnone
  | case2 c =>
      by_cases hc : c = '\\'
      · subst hc
        rw [replicate_append_cons, doubled_cons (by decide), doubled, List.cons_append, List.nil_append,
          literals?_backslash] at h
        exact (hfirst (c := '\'') (by decide) h).elim
      · rw [literals?_doubled_cons fun _ => hc] at h
        cases n with
        | zero => exact ⟨rfl, by simpa [keepsBackslashes] using hc⟩
        | succ n => exact (hfirst hc h).elim
  | case3 e t ih =>
      rw [replicate_append_cons, doubled_cons (by decide)] at h
      have he := mem_of_literals?_backslash h
      have hmark : e ≠ '\'' := by
        rintro rfl
        exact absurd he (by decide)
      rw [doubled_cons hmark, List.cons_append, List.cons_append, literals?_backslash] at h
      by_cases hbackslash : e = '\\'
      · subst hbackslash
        -- the second backslash is read, and is one too many before the rest
        have hmore := ih (r := '\\' :: r) (n := n + 1)
          (by simpa [unescaped, replicate_append_cons, List.replicate_succ] using h)
        exact absurd hmore.1 (Nat.succ_ne_zero n)
      · have hwild : e = '%' ∨ e = '_' := by simpa [hbackslash] using he
        rw [unescaped_wildcard hwild] at h
        cases n with
        | zero =>
            obtain ⟨-, hkept⟩ := ih (r := e :: '\\' :: r) (n := 0) (by simpa using h)
            exact ⟨rfl, by simpa [keepsBackslashes, hkept] using hwild⟩
        | succ n =>
            exact (hfirst (r := '\\' :: r) hbackslash (by simpa [List.replicate_succ] using h)).elim
  | case4 c e t hc ih =>
      rw [literals?_doubled_cons fun _ => hc] at h
      cases n with
      | zero =>
          obtain ⟨-, hkept⟩ := ih (r := c :: r) (n := 0) (by simpa using h)
          exact ⟨rfl, by simpa [keepsBackslashes, hc] using hkept⟩
      | succ n => exact (hfirst hc h).elim

theorem literals?_ofText (t : String) (cs : List Char) : literals? d .outside ((ofText t).toList ++ cs) =
    literals? d (.inside '\'' []) (doubled t.toList ++ '\'' :: cs) := by
  simp [ofText, next, enter, complete]

/-- Where a literal begins, one is read if all quotes are closed. -/
theorem exists_cons_of_ofText {t : String} {ls : List (List Char)}
    (h : literals? d .outside ((ofText t).toList ++ cs) = some ls) : ∃ v ts, ls = v :: ts := by
  rw [literals?_ofText] at h
  obtain ⟨v, ts, rfl⟩ := prefix_of_literals? (s := .inside '\'' []) rfl h
  exact ⟨_, _, rfl⟩

/-- The literal for a text, before anything but another quotation mark, is read as one literal with that text
as its value if and only if the text is kept; what follows is then read as if it stood alone. -/
theorem literals?_ofText_iff {t : String} (hcs : cs.head? ≠ some '\'') {ts : List (List Char)} :
    literals? d .outside ((ofText t).toList ++ cs) = some (t.toList :: ts) ↔
      Kept d t.toList ∧ literals? d .outside cs = some ts := by
  have hread (h : Kept d t.toList) : literals? d (.inside '\'' []) (doubled t.toList ++ '\'' :: cs) =
      (literals? d .outside cs).map (t.toList :: ·) := by
    rw [literals?_doubled h, literals?_closed hcs]
    simp
  rw [literals?_ofText]
  constructor
  · intro h
    have hkept : Kept d t.toList := by
      rintro rfl
      exact (kept_of_literals? (r := []) (n := 0) hcs (by simpa using h)).2
    rw [hread hkept] at h
    obtain ⟨ls, hls, heq⟩ := Option.map_eq_some_iff.mp h
    exact ⟨hkept, hls.trans (congrArg some (List.cons.inj heq).2)⟩
  · rintro ⟨hkept, hts⟩
    rw [hread hkept, hts]
    rfl

end Scan

end Literal

/-! ## Statements with literals -/

/-- The values fall, in their order, to the items of a list, each item being related to its own values. -/
inductive SplitOver {α β : Type} (R : α → List β → Prop) : List α → List β → Prop
  | nil : SplitOver R [] []
  | cons {x : α} {xs : List α} {ts us : List β} (h : R x ts) (hrest : SplitOver R xs us) :
      SplitOver R (x :: xs) (ts ++ us)

namespace SplitOver

variable {α β : Type} {R : α → List β → Prop} {xs ys : List α} {ts us : List β}

theorem append (h : SplitOver R xs ts) (h' : SplitOver R ys us) : SplitOver R (xs ++ ys) (ts ++ us) := by
  induction h with
  | nil => exact h'
  | cons hx _ ih => exact List.append_assoc .. ▸ .cons hx ih

theorem singleton {x : α} (h : R x ts) : SplitOver R [x] ts :=
  List.append_nil ts ▸ .cons h .nil

/-- The first item has no values. -/
theorem cons_nil {x : α} (h : R x []) (hrest : SplitOver R xs us) : SplitOver R (x :: xs) us :=
  .cons h hrest

/-- The first items have no values. -/
theorem nil_append (h : SplitOver R xs []) (h' : SplitOver R ys us) : SplitOver R (xs ++ ys) us :=
  h.append h'

/-- Only the first item has values. -/
theorem cons_of_nil {x : α} (h : R x ts) (hrest : SplitOver R xs []) : SplitOver R (x :: xs) ts :=
  List.append_nil ts ▸ .cons h hrest

theorem of_forall (h : ∀ x ∈ xs, R x []) : SplitOver R xs [] := by
  induction xs with
  | nil => exact .nil
  | cons x xs ih =>
      obtain ⟨hx, hxs⟩ := List.forall_mem_cons.mp h
      exact .cons_nil hx (ih hxs)

end SplitOver

/-- Two lists part: they have different items in one place, and the same items before it. -/
inductive Parts {α : Type} : List α → List α → Prop
  | head {x y : α} {xs ys : List α} (h : x ≠ y) : Parts (x :: xs) (y :: ys)
  | cons {xs ys : List α} (x : α) (h : Parts xs ys) : Parts (x :: xs) (x :: ys)

theorem Parts.append_ne {α : Type} {xs ys : List α} (h : Parts xs ys) (us vs : List α) :
    xs ++ us ≠ ys ++ vs := by
  induction h with
  | head h => exact fun heq => h (List.cons.inj heq).1
  | cons x _ ih => exact fun heq => ih (List.cons.inj heq).2

namespace Literal

/-- The text consists of text without quotation marks, names in quotes, and the literals for texts. -/
inductive Holds (d : Dialect) : List Char → List String → Prop
  | nil : Holds d [] []
  | code {xs cs : List Char} {ts : List String} (hxs : Scan.Unquoted xs) (h : Holds d cs ts) :
      Holds d (xs ++ cs) ts
  | name {cs : List Char} {ts : List String} (n : Identifier) (h : Holds d cs ts) :
      Holds d ((d.quoted n).toList ++ cs) ts
  | literal {cs : List Char} {ts : List String} (t : String) (hcs : cs.head? ≠ some '\'')
      (h : Holds d cs ts) : Holds d ((ofText t).toList ++ cs) (t :: ts)

namespace Holds

variable {d : Dialect} {cs cs' : List Char} {ts ts' : List String}

/-- The literals of a text are read as the texts that they are for, all of which are kept, or another value is
read first in the place of one of them. -/
theorem readAll? (h : Holds d cs ts) {ls : List (List Char)} (hls : Literal.readAll? d cs = some ls) :
    (ls = ts.map String.toList ∧ ∀ t ∈ ts, Kept d t.toList) ∨ Parts ls (ts.map String.toList) := by
  unfold Literal.readAll? at hls
  induction h generalizing ls with
  | nil =>
      simp only [Scan.literals?, Scan.mayEnd, Scan.complete, if_true, Option.some.injEq] at hls
      exact .inl ⟨by simp [← hls], by simp⟩
  | code hxs _ ih => exact ih (by rwa [Scan.literals?_unquoted hxs] at hls)
  | name n _ ih => exact ih (by rwa [Scan.literals?_quoted] at hls)
  | @literal cs ts t hcs _ ih =>
      obtain ⟨v, ls, rfl⟩ := Scan.exists_cons_of_ofText hls
      by_cases hv : v = t.toList
      · obtain ⟨hkept, hrest⟩ := (Scan.literals?_ofText_iff hcs).mp (hv ▸ hls)
        rcases ih hrest with ⟨rfl, hall⟩ | hparts
        · exact .inl ⟨by simp [hv], List.forall_mem_cons.mpr ⟨hkept, hall⟩⟩
        · exact .inr (hv ▸ hparts.cons _)
      · exact .inr (.head hv)

theorem readAll?_of_kept (h : Holds d cs ts) (hkept : ∀ t ∈ ts, Kept d t.toList) :
    Literal.readAll? d cs = some (ts.map String.toList) := by
  unfold Literal.readAll?
  induction h with
  | nil => simp [Scan.literals?, Scan.mayEnd, Scan.complete]
  | code hxs _ ih => rw [Scan.literals?_unquoted hxs, ih hkept]
  | name n _ ih => rw [Scan.literals?_quoted, ih hkept]
  | literal t hcs _ ih =>
      obtain ⟨hfirst, hrest⟩ := List.forall_mem_cons.mp hkept
      exact (Scan.literals?_ofText_iff hcs).mpr ⟨hfirst, ih hrest⟩

theorem append (h : Holds d cs ts) (h' : Holds d cs' ts') (hhead : cs'.head? ≠ some '\'') :
    Holds d (cs ++ cs') (ts ++ ts') := by
  induction h with
  | nil => exact h'
  | code hxs _ ih =>
      rw [List.append_assoc]
      exact .code hxs ih
  | name n _ ih =>
      rw [List.append_assoc]
      exact .name n ih
  | @literal cs ts t hcs _ ih =>
      rw [List.append_assoc]
      refine .literal t ?_ ih
      cases cs with
      | nil => exact hhead
      | cons c cs => exact hcs

theorem of_unquoted {xs : List Char} (hxs : Scan.Unquoted xs) : Holds d xs [] :=
  List.append_nil xs ▸ .code hxs .nil

theorem quoted (n : Identifier) : Holds d (d.quoted n).toList [] :=
  List.append_nil (d.quoted n).toList ▸ .name n .nil

theorem ofText (t : String) : Holds d (ofText t).toList [t] :=
  List.append_nil (Literal.ofText t).toList ▸ .literal t (by simp) .nil

/-- Behind a literal text may stand that has no quotation mark. -/
theorem append_code (h : Holds d cs ts) {xs : List Char} (hxs : Scan.Unquoted xs) :
    Holds d (cs ++ xs) ts := by
  have hhead : xs.head? ≠ some '\'' := fun hsome =>
    absurd (hxs _ (List.mem_of_head? hsome)) (by decide)
  exact List.append_nil ts ▸ h.append (of_unquoted hxs) hhead

/-- Text without quotation marks may stand between two texts. -/
theorem between (h : Holds d cs ts) {xs : List Char} (hxs : Scan.Unquoted xs) (hne : xs ≠ [])
    (h' : Holds d cs' ts') : Holds d (cs ++ (xs ++ cs')) (ts ++ ts') := by
  refine h.append (.code hxs h') fun hhead => ?_
  obtain ⟨x, xs, rfl⟩ := List.exists_cons_of_ne_nil hne
  obtain rfl := Option.some.inj hhead
  exact absurd (hxs _ List.mem_cons_self) (by decide)

theorem intercalate {parts : List String}
    (h : SplitOver (fun part ts => Holds d part.toList ts) parts ts) :
    Holds d (String.intercalate ", " parts).toList ts := by
  induction h with
  | nil => exact .nil
  | @cons part parts ts us hpart hparts ih =>
      cases hparts with
      | nil => simpa using hpart
      | cons hnext hrest =>
          rw [String.intercalate_cons_cons, String.toList_append, String.toList_append, List.append_assoc]
          exact hpart.between (by decide) (by decide) ih

end Holds

end Literal

end TableGate
