import TableGate.Proofs.Query.Truth
import TableGate.Proofs.Sql.Tokens

/-! # Formulas in text

The condition of a clause is a formula: predicates joined by AND and OR, with parentheses around some of
them. A reader finds the formula in the tokens of a text, parentheses first. To it a predicate is no more
than a row of tokens; the AND of a BETWEEN and the parentheses of a call are its own. Of what it finds AND
binds before OR. -/

namespace TableGate

/-- A predicate, or a row of formulas in parentheses, each with the connector before it; the first connector
does not count. -/
inductive Formula (α : Type) where
  | atom (a : α)
  | group (links : List (Connector × Formula α))

namespace Formula

variable {α β : Type}

mutual

/-- The predicates of a formula, from left to right. -/
def leaves : Formula α → List α
  | .atom a => [a]
  | .group links => leavesOf links

/-- The predicates of formulas in a row, from left to right. -/
def leavesOf : List (Connector × Formula α) → List α
  | [] => []
  | (_, f) :: rest => leaves f ++ leavesOf rest

end

mutual

/-- The truth of a formula whose predicates, numbered from the given number, have the given truth. -/
def truth (v : ℕ → Truth) (n : ℕ) : Formula α → Truth
  | .atom _ => v n
  | .group links => .chain (linksFrom v n links)

/-- The truth of each of the formulas in a row. -/
def linksFrom (v : ℕ → Truth) (n : ℕ) : List (Connector × Formula α) → List (Connector × Truth)
  | [] => []
  | (c, f) :: rest => (c, truth v n f) :: linksFrom v (n + (leaves f).length) rest

end

/-- The truth of formulas in a row. -/
def truthOf (v : ℕ → Truth) (links : List (Connector × Formula α)) : Truth :=
  .chain (linksFrom v 0 links)

end Formula

/-! ## Tokens of a predicate -/

namespace Token

/-- The token is a keyword, in any case. -/
def isKeyword (keyword : String) : Token → Bool
  | .word cs => Text.upper (String.ofList cs) == keyword
  | _ => false

def connector? (t : Token) : Option Connector :=
  if t.isKeyword "AND" then some .and else if t.isKeyword "OR" then some .or else none

/-- Inside of a predicate: how many parentheses are open, and whether a BETWEEN waits for its AND. Only what
belongs to the predicate leads on from there. -/
def shift (t : Token) : ℕ × Bool → Option (ℕ × Bool)
  | (depth, waiting) =>
    if t = .symbol '(' then some (depth + 1, waiting)
    else
      match depth with
      | depth + 1 => if t = .symbol ')' then some (depth, waiting) else some (depth + 1, waiting)
      | 0 =>
        if t = .symbol ')' then none
        else
          match t.connector? with
          | some .and => if waiting then some (0, false) else none
          | some .or => none
          | none => some (0, waiting || t.isKeyword "BETWEEN")

/-- The same for tokens in a row. -/
def shifts : List Token → ℕ × Bool → Option (ℕ × Bool)
  | [], s => some s
  | t :: ts, s => (t.shift s).bind (shifts ts)

theorem shifts_append (ts us : List Token) (s : ℕ × Bool) :
    shifts (ts ++ us) s = (shifts ts s).bind (shifts us) := by
  induction ts generalizing s with
  | nil => rfl
  | cons t ts ih =>
      simp only [List.cons_append, shifts, Option.bind_assoc]
      exact congrArg _ (funext fun s' => ih s')

theorem shifts_trans {ts us : List Token} {a b c : ℕ × Bool} (hts : shifts ts a = some b)
    (hus : shifts us b = some c) : shifts (ts ++ us) a = some c := by
  rw [shifts_append, hts, Option.bind_some, hus]

/-- The tokens leave the place inside of a predicate as it is. -/
def Neutral (ts : List Token) : Prop :=
  ∀ s, shifts ts s = some s

/-- The tokens are those of one predicate: they do not open with a parenthesis, and at their end no
parenthesis is open and no BETWEEN waits. -/
def Atomic (ts : List Token) : Prop :=
  ts.head?.any (fun t => t != .symbol '(') = true ∧ shifts ts (0, false) = some (0, false)

/-- The token has no meaning of its own in a formula. -/
def isPlain (t : Token) : Bool :=
  t != .symbol '(' && t != .symbol ')' && t.connector?.isNone && !t.isKeyword "BETWEEN"

theorem shift_of_isPlain {t : Token} (h : t.isPlain = true) (s : ℕ × Bool) : t.shift s = some s := by
  obtain ⟨depth, waiting⟩ := s
  simp only [isPlain, Bool.and_eq_true, bne_iff_ne, ne_eq, Option.isNone_iff_eq_none,
    Bool.not_eq_true'] at h
  obtain ⟨⟨⟨hopening, hclosing⟩, hconnector⟩, hbetween⟩ := h
  cases depth <;> simp [shift, hopening, hclosing, hconnector, hbetween]

theorem neutral_nil : Neutral [] :=
  fun _ => rfl

theorem Neutral.append {ts us : List Token} (hts : Neutral ts) (hus : Neutral us) : Neutral (ts ++ us) :=
  fun s => shifts_trans (hts s) (hus s)

theorem neutral_of_forall {ts : List Token} (h : ∀ t ∈ ts, t.isPlain = true) : Neutral ts := by
  induction ts with
  | nil => exact neutral_nil
  | cons t ts ih =>
      obtain ⟨ht, hts⟩ := List.forall_mem_cons.mp h
      intro s
      rw [shifts, shift_of_isPlain ht, Option.bind_some, ih hts s]

/-- Parentheses around tokens of a predicate. -/
theorem Neutral.parenthesized {ts : List Token} (h : Neutral ts) :
    Neutral (.symbol '(' :: (ts ++ [.symbol ')'])) := by
  rintro ⟨depth, waiting⟩
  have hopening : (symbol '(').shift (depth, waiting) = some (depth + 1, waiting) := by simp [shift]
  have hclosing : (symbol ')').shift (depth + 1, waiting) = some (depth, waiting) := by simp [shift]
  rw [shifts, hopening, Option.bind_some, shifts_append, h, Option.bind_some, shifts, hclosing]
  rfl

theorem Neutral.atomic {t : Token} {ts : List Token} (ht : t.isPlain = true) (hts : Neutral ts) :
    Atomic (t :: ts) := by
  refine ⟨?_, ?_⟩
  · simp only [isPlain, Bool.and_eq_true] at ht
    exact ht.1.1.1
  · rw [shifts, shift_of_isPlain ht, Option.bind_some, hts]

end Token

/-! ## The reader -/

/-- Formulas in a row as they are read. -/
abbrev Links := List (Connector × Formula (List Token))

/-- Where the reader is inside the innermost parentheses: in front of a formula, in a predicate of which the
given tokens were read, or behind parentheses. -/
inductive Reader.Place where
  | opening
  | within (tokens : List Token) (depth : ℕ) (waiting : Bool)
  | closed (f : Formula (List Token))

/-- A reader: for each of the parentheses that are open, the formulas in front of it and the connector before
it; the formulas in the innermost ones; the connector behind these; and the place. -/
structure Reader where
  outer : List (Links × Connector)
  links : Links
  next : Connector
  place : Reader.Place

namespace Reader

namespace Place

/-- The formula that ends at the place. -/
def formula? : Reader.Place → Option (Formula (List Token))
  | .within tokens 0 false => some (.atom tokens)
  | .closed f => some f
  | _ => none

end Place

def start : Reader :=
  ⟨[], [], .and, .opening⟩

/-- The formulas in the innermost parentheses, if one ends at the place. -/
def links? (r : Reader) : Option Links :=
  r.place.formula?.map fun f => r.links ++ [(r.next, f)]

/-- What a token does behind a formula: it closes parentheses, or joins what follows. -/
def leave (r : Reader) (t : Token) : Option Reader :=
  r.links?.bind fun links =>
    if t = .symbol ')' then
      match r.outer with
      | [] => none
      | (before, next) :: outer => some ⟨outer, before, next, .closed (.group links)⟩
    else
      t.connector?.map fun c => ⟨r.outer, links, c, .opening⟩

def step (r : Reader) (t : Token) : Option Reader :=
  match r.place with
  | .opening =>
    if t = .symbol '(' then some ⟨(r.links, r.next) :: r.outer, [], .and, .opening⟩
    else (t.shift (0, false)).map fun s => { r with place := .within [t] s.1 s.2 }
  | .within tokens depth waiting =>
    match t.shift (depth, waiting) with
    | some s => some { r with place := .within (tokens ++ [t]) s.1 s.2 }
    | none => r.leave t
  | .closed _ => r.leave t

def run : Reader → List Token → Option Reader
  | r, [] => some r
  | r, t :: ts => (r.step t).bind fun r => run r ts

theorem run_append (r : Reader) (ts us : List Token) :
    r.run (ts ++ us) = (r.run ts).bind fun r => r.run us := by
  induction ts generalizing r with
  | nil => rfl
  | cons t ts ih =>
      simp only [List.cons_append, run, Option.bind_assoc]
      exact congrArg _ (funext fun r' => ih r')

end Reader

/-- The formulas that tokens are read as, if all parentheses are closed at their end. -/
def Formula.read? (ts : List Token) : Option Links :=
  (Reader.start.run ts).bind fun r => if r.outer.isEmpty then r.links? else none

/-! ## What is read piece by piece -/

/-- The links with another connector in front, where it does not count. -/
def headed {α : Type} (c : Connector) : List (Connector × α) → List (Connector × α)
  | [] => []
  | (_, x) :: rest => (c, x) :: rest

namespace Formula

variable {α : Type}

theorem leavesOf_headed (c : Connector) (links : List (Connector × Formula α)) :
    leavesOf (headed c links) = leavesOf links := by
  cases links <;> rfl

theorem chain_headed (v : ℕ → Truth) (n : ℕ) (c : Connector) (links : List (Connector × Formula α)) :
    Truth.chain (linksFrom v n (headed c links)) = Truth.chain (linksFrom v n links) := by
  cases links <;> rfl

end Formula

namespace Reader

open Token

variable {ts us : List Token} {f : Formula (List Token)} {row more : Links}

/-- In front of a formula the tokens are read as the formula. -/
def Parses (ts : List Token) (f : Formula (List Token)) : Prop :=
  ∀ outer links next, ∃ place, run ⟨outer, links, next, .opening⟩ ts = some ⟨outer, links, next, place⟩ ∧
    place.formula? = some f

/-- In front of a formula the tokens are read as formulas in a row. -/
def ParsesRow (ts : List Token) (row : Links) : Prop :=
  ∀ outer links next, ∃ r, run ⟨outer, links, next, .opening⟩ ts = some r ∧ r.outer = outer ∧
    r.links? = some (links ++ headed next row)

/-- Behind a formula the tokens are read as further formulas. -/
def ParsesMore (ts : List Token) (more : Links) : Prop :=
  ∀ (r : Reader) (links : Links), r.links? = some links →
    ∃ r', r.run ts = some r' ∧ r'.outer = r.outer ∧ r'.links? = some (links ++ more)

/-- Tokens of a predicate keep the reader inside of it. -/
theorem run_of_shifts {outer : List (Links × Connector)} {links : Links} {next : Connector}
    {tokens : List Token} {depth depth' : ℕ} {waiting waiting' : Bool}
    (h : shifts ts (depth, waiting) = some (depth', waiting')) :
    run ⟨outer, links, next, .within tokens depth waiting⟩ ts =
      some ⟨outer, links, next, .within (tokens ++ ts) depth' waiting'⟩ := by
  induction ts generalizing tokens depth waiting with
  | nil =>
      cases h
      simp [run]
  | cons t ts ih =>
      obtain ⟨⟨d, w⟩, ht, hts⟩ := Option.bind_eq_some_iff.mp h
      have hstep : step ⟨outer, links, next, .within tokens depth waiting⟩ t =
          some ⟨outer, links, next, .within (tokens ++ [t]) d w⟩ := by simp [step, ht]
      rw [run, hstep, Option.bind_some, ih hts, List.append_assoc, List.singleton_append]

theorem parses_atom (h : Atomic ts) : Parses ts (.atom ts) := by
  intro outer links next
  obtain ⟨hfirst, hshifts⟩ := h
  cases ts with
  | nil => simp at hfirst
  | cons t ts =>
      obtain ⟨⟨d, w⟩, ht, hts⟩ := Option.bind_eq_some_iff.mp hshifts
      have hopening : t ≠ .symbol '(' := by simpa using hfirst
      have hstep : step ⟨outer, links, next, .opening⟩ t =
          some ⟨outer, links, next, .within [t] d w⟩ := by simp [step, hopening, ht]
      refine ⟨.within (t :: ts) 0 false, ?_, rfl⟩
      rw [run, hstep, Option.bind_some, run_of_shifts hts, List.singleton_append]

/-- A token that does not belong to a predicate leaves it at its end. -/
theorem step_of_formula {r : Reader} (hf : r.place.formula? = some f) {t : Token}
    (ht : t.shift (0, false) = none) : r.step t = r.leave t := by
  obtain ⟨outer, links, next, place⟩ := r
  match place with
  | .opening => simp [Place.formula?] at hf
  | .closed g => rfl
  | .within tokens (depth + 1) waiting => simp [Place.formula?] at hf
  | .within tokens 0 true => simp [Place.formula?] at hf
  | .within tokens 0 false => simp [step, ht]

theorem step_connector {r : Reader} {links : Links} (h : r.links? = some links) {t : Token}
    {c : Connector} (ht : t.connector? = some c) : r.step t = some ⟨r.outer, links, c, .opening⟩ := by
  obtain ⟨f, hf, -⟩ := Option.map_eq_some_iff.mp h
  have hopening : t ≠ .symbol '(' := by
    rintro rfl
    cases ht
  have hclosing : t ≠ .symbol ')' := by
    rintro rfl
    cases ht
  have hshift : t.shift (0, false) = none := by
    cases c <;> simp [shift, hopening, hclosing, ht]
  rw [step_of_formula hf hshift, leave, h, Option.bind_some, if_neg hclosing, ht]
  rfl

theorem step_closing {r : Reader} {before links : Links} {next : Connector}
    {outer : List (Links × Connector)} (h : r.links? = some links)
    (houter : r.outer = (before, next) :: outer) :
    r.step (.symbol ')') = some ⟨outer, before, next, .closed (.group links)⟩ := by
  obtain ⟨f, hf, -⟩ := Option.map_eq_some_iff.mp h
  have hshift : (symbol ')').shift (0, false) = none := by simp [shift]
  rw [step_of_formula hf hshift, leave, h, Option.bind_some, if_pos rfl, houter]

theorem parsesMore_nil : ParsesMore [] [] := by
  intro r links h
  exact ⟨r, rfl, rfl, by rw [List.append_nil, h]⟩

theorem ParsesMore.cons {t : Token} {c : Connector} (ht : t.connector? = some c) (hus : Parses us f)
    (hts : ParsesMore ts more) : ParsesMore (t :: (us ++ ts)) ((c, f) :: more) := by
  intro r links h
  obtain ⟨place, hrun, hplace⟩ := hus r.outer links c
  have hlinks : (Reader.mk r.outer links c place).links? = some (links ++ [(c, f)]) := by
    simp [links?, hplace]
  obtain ⟨r', hrun', houter, hmore⟩ := hts _ _ hlinks
  refine ⟨r', ?_, houter, ?_⟩
  · rw [run, step_connector h ht, Option.bind_some, run_append, hrun, Option.bind_some, hrun']
  · rw [hmore, List.append_assoc, List.singleton_append]

theorem Parses.toRow (hus : Parses us f) (hts : ParsesMore ts more) (c : Connector) :
    ParsesRow (us ++ ts) ((c, f) :: more) := by
  intro outer links next
  obtain ⟨place, hrun, hplace⟩ := hus outer links next
  have hlinks : (Reader.mk outer links next place).links? = some (links ++ [(next, f)]) := by
    simp [links?, hplace]
  obtain ⟨r, hrun', houter, hmore⟩ := hts _ _ hlinks
  refine ⟨r, ?_, houter, ?_⟩
  · rw [run_append, hrun, Option.bind_some, hrun']
  · rw [hmore, List.append_assoc]
    rfl

/-- Parentheses around formulas in a row. -/
theorem ParsesRow.group (h : ParsesRow ts row) :
    Parses (.symbol '(' :: (ts ++ [.symbol ')'])) (.group (headed .and row)) := by
  intro outer links next
  obtain ⟨r, hrun, houter, hlinks⟩ := h ((links, next) :: outer) [] .and
  rw [List.nil_append] at hlinks
  refine ⟨.closed (.group (headed .and row)), ?_, rfl⟩
  have hopening : step ⟨outer, links, next, .opening⟩ (.symbol '(') =
      some ⟨(links, next) :: outer, [], .and, .opening⟩ := by simp [step]
  rw [run, hopening, Option.bind_some, run_append, hrun, Option.bind_some, run, step_closing hlinks houter]
  rfl

/-- Tokens that are formulas in a row are read as these. -/
theorem ParsesRow.read? (h : ParsesRow ts row) : Formula.read? ts = some (headed .and row) := by
  obtain ⟨r, hrun, houter, hlinks⟩ := h [] [] .and
  rw [Formula.read?, start, hrun, Option.bind_some, houter, hlinks]
  rfl

example : Formula.read? (Text.tokens "x BETWEEN ? AND ? OR (y = f(?) AND z)".toList) = some
    [(.and, .atom [word ['x'], word "BETWEEN".toList, symbol '?', word "AND".toList, symbol '?']),
      (.or, .group [(.and, .atom [word ['y'], symbol '=', word ['f'], symbol '(', symbol '?', symbol ')']),
        (.and, .atom [word ['z']])])] := by
  rfl

end Reader

end TableGate
