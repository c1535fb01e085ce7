import TableGate.Proofs.Query.AtomTokens

/-! # Chains are read as they are meant

The text of a chain is read as a formula with the predicates of the chain, each with its own text, and with
the truth of the chain whatever the truth of these. So are conditions, of which chains are made. -/

namespace TableGate

open Template Formula

/-! ## Conditions and chains as formulas -/

namespace Condition

mutual

/-- A condition as a formula. -/
def formula : Condition → Formula ConditionNode
  | .node n => .atom n
  | .group items _ => .group (formulas items)

/-- Conditions as formulas in a row, each with its own connector. -/
def formulas : List Condition → List (Connector × Formula ConditionNode)
  | [] => []
  | c :: cs => (c.boolean, formula c) :: formulas cs

end

end Condition

namespace Predicate

mutual

/-- A predicate as a formula. -/
def formula : Predicate → Formula Atom
  | .atom a => .atom a
  | .group chain => .group (formulas chain)

/-- A chain as formulas in a row. -/
def formulas : List (Connector × Predicate) → List (Connector × Formula Atom)
  | [] => []
  | (c, p) :: rest => (c, formula p) :: formulas rest

end

mutual

theorem leaves_formula : ∀ p : Predicate, p.formula.leaves = p.atoms
  | .atom _ => rfl
  | .group chain => by rw [formula, leaves, atoms, leavesOf_formulas chain]

theorem leavesOf_formulas : ∀ chain : Chain, leavesOf (formulas chain) = atomsOf chain
  | [] => rfl
  | (c, p) :: rest => by rw [formulas, leavesOf, atomsOf, leaves_formula p, leavesOf_formulas rest]

end

mutual

/-- The parameters of a predicate are those of its atoms, in order. -/
theorem params_template : ∀ p : Predicate, params p.template = p.atoms.flatMap fun a => params a.template
  | .atom a => by simp [template, atoms]
  | .group chain => by
      have hchain := params_chainTemplate chain
      simp [template, atoms, params, params_append, hchain]

theorem params_chainTemplate : ∀ chain : Chain,
    params (chainTemplate chain) = (atomsOf chain).flatMap fun a => params a.template
  | [] => rfl
  | (c, p) :: rest => by
      rw [chainTemplate, params_append, atomsOf, List.flatMap_append, params_template p,
        params_restTemplate rest]

theorem params_restTemplate : ∀ chain : Chain,
    params (restTemplate chain) = (atomsOf chain).flatMap fun a => params a.template
  | [] => rfl
  | (c, p) :: rest => by
      have hlink : params (restTemplate ((c, p) :: rest)) = params (p.template ++ restTemplate rest) := rfl
      rw [hlink, params_append, atomsOf, List.flatMap_append, params_template p, params_restTemplate rest]

end

mutual

/-- No parentheses in the predicate are empty. -/
def Filled : Predicate → Prop
  | .atom _ => True
  | .group chain => chain ≠ [] ∧ FilledAll chain

/-- No parentheses in the chain are empty. -/
def FilledAll : List (Connector × Predicate) → Prop
  | [] => True
  | (_, p) :: rest => Filled p ∧ FilledAll rest

end

end Predicate

namespace Condition

variable {mode : ValueMode}

mutual

theorem agrees_predicate : ∀ (c : Condition) (p : Predicate), c.predicate? mode = .ok p →
    p.Filled ∧ p.formula.leaves.length = c.formula.leaves.length ∧
      ∀ v n, p.formula.truth v n = c.formula.truth v n
  | .node n => by
      intro p h
      rw [predicate?] at h
      obtain ⟨a, -, rfl⟩ := Except.map_eq_ok.mp h
      exact ⟨trivial, rfl, fun _ _ => rfl⟩
  | .group items boolean => by
      intro p h
      cases items with
      | nil =>
          rw [predicate?] at h
          cases h
      | cons item items =>
          rw [predicate?] at h
          · obtain ⟨chain, hchain, rfl⟩ := Except.map_eq_ok.mp h
            obtain ⟨hfilled, hlength, hlinks⟩ := agrees_chain (item :: items) chain hchain
            have hne : chain ≠ [] := by
              rintro rfl
              simp only [chain?, Except.bind_eq_ok, Except.pure_eq_ok] at hchain
              obtain ⟨_, _, _, _, hnil⟩ := hchain
              cases hnil
            refine ⟨⟨hne, hfilled⟩, hlength, fun v n => ?_⟩
            rw [Predicate.formula, formula, Formula.truth, Formula.truth, hlinks]
          · simp

/-- A chain that conditions are understood as has as many predicates as these, and the same truth. -/
theorem agrees_chain : ∀ (cs : List Condition) (chain : Chain), chain? mode cs = .ok chain →
    Predicate.FilledAll chain ∧
      (leavesOf (Predicate.formulas chain)).length = (leavesOf (formulas cs)).length ∧
      ∀ v n, linksFrom v n (Predicate.formulas chain) = linksFrom v n (formulas cs)
  | [] => by
      intro chain h
      rw [chain?] at h
      cases h
      exact ⟨trivial, rfl, fun _ _ => rfl⟩
  | c :: cs => by
      intro chain h
      simp only [chain?, Except.bind_eq_ok, Except.pure_eq_ok] at h
      obtain ⟨first, hfirst, rest, hrest, rfl⟩ := h
      obtain ⟨hfilled, hlength, htruth⟩ := agrees_predicate c first hfirst
      obtain ⟨hfilledAll, hlengths, hlinks⟩ := agrees_chain cs rest hrest
      refine ⟨⟨hfilled, hfilledAll⟩, ?_, fun v n => ?_⟩
      · rw [Predicate.formulas, formulas, leavesOf, leavesOf, List.length_append, List.length_append,
          hlength, hlengths]
      · rw [Predicate.formulas, formulas, linksFrom, linksFrom, htruth, hlength, hlinks]

end

end Condition

/-! ## Formulas that were read -/

/-- The texts of atoms in a row, of which the first parameter has the given position. -/
def Atom.readings (d : Dialect) (n : ℕ) : List Atom → List (List Token)
  | [] => []
  | a :: rest =>
    Text.tokens (printFrom d n a.template).toList :: readings d (n + (params a.template).length) rest

variable {d : Dialect} {n : ℕ} {f : Formula (List Token)} {row : Links}

theorem Atom.length_readings (d : Dialect) (n : ℕ) (atoms : List Atom) :
    (readings d n atoms).length = atoms.length := by
  induction atoms generalizing n with
  | nil => rfl
  | cons a atoms ih => rw [readings, List.length_cons, List.length_cons, ih]

theorem Atom.readings_append (d : Dialect) (n : ℕ) (xs ys : List Atom) :
    readings d n (xs ++ ys) =
      readings d n xs ++ readings d (n + (xs.flatMap fun a => params a.template).length) ys := by
  induction xs generalizing n with
  | nil => rfl
  | cons x xs ih =>
      rw [List.cons_append, readings, readings, ih, List.flatMap_cons, List.length_append, List.cons_append,
        Nat.add_assoc]

/-- A predicate that was read has the predicates of the one that was meant, each with its own text, and its
truth. -/
structure Predicate.ReadBack (d : Dialect) (n : ℕ) (p : Predicate) (f : Formula (List Token)) : Prop where
  leaves : f.leaves = Atom.readings d n p.atoms
  truth : ∀ v m, f.truth v m = p.formula.truth v m

/-- The same for a chain. -/
structure Chain.ReadBack (d : Dialect) (n : ℕ) (chain : Chain) (row : Links) : Prop where
  leaves : leavesOf row = Atom.readings d n (Predicate.atomsOf chain)
  links : ∀ v m, linksFrom v m row = linksFrom v m (Predicate.formulas chain)

theorem Chain.readBack_nil : Chain.ReadBack d n [] [] :=
  ⟨rfl, fun _ _ => rfl⟩

theorem Predicate.ReadBack.cons {p : Predicate} {rest : Chain} (hp : p.ReadBack d n f)
    (hrest : Chain.ReadBack d (n + (params p.template).length) rest row) (c : Connector) :
    Chain.ReadBack d n ((c, p) :: rest) ((c, f) :: row) := by
  refine ⟨?_, fun v m => ?_⟩
  · rw [leavesOf, atomsOf, Atom.readings_append, hp.leaves, hrest.leaves, params_template]
  · have hlength : f.leaves.length = p.formula.leaves.length := by
      rw [hp.leaves, Atom.length_readings, leaves_formula]
    rw [linksFrom, formulas, linksFrom, hp.truth, hlength, hrest.links]

theorem Chain.ReadBack.group {chain : Chain} (h : Chain.ReadBack d n chain row) :
    (Predicate.group chain).ReadBack d n (.group (headed .and row)) := by
  refine ⟨?_, fun v m => ?_⟩
  · rw [Formula.leaves, leavesOf_headed, h.leaves, Predicate.atoms]
  · rw [Formula.truth, chain_headed, h.links, Predicate.formula, Formula.truth]

/-! ## Texts of chains -/

namespace Predicate

open Reader

theorem apart_restTemplate (d : Dialect) (chain : Chain) : Apart d (restTemplate chain) := by
  cases chain with
  | nil => exact apart_nil
  | cons link rest =>
      obtain ⟨c, p⟩ := link
      have hopens : (" " ++ c.sql ++ " ").toList.head?.any (fun c => !Text.isPart c) = true := by
        cases c <;> decide
      exact apart_text hopens

theorem connector_tokens (c : Connector) : ∃ t : Token,
    Text.tokens (" " ++ c.sql ++ " ").toList = [t] ∧ t.connector? = some c := by
  cases c with
  | and => exact ⟨.word ['A', 'N', 'D'], by decide, by decide⟩
  | or => exact ⟨.word ['O', 'R'], by decide, by decide⟩

mutual

theorem reads : ∀ p : Predicate, p.Filled → (∀ a ∈ p.atoms, a.Regular) → ∀ n,
    ∃ ts f, Reads d n p.template ts ∧ Parses ts f ∧ p.ReadBack d n f
  | .atom a => by
      intro _ hregular n
      obtain ⟨ts, hts, hatomic⟩ := Atom.readsAs (d := d) (hregular a (by simp [atoms])) n
      refine ⟨ts, .atom ts, hts, parses_atom hatomic, ?_, fun _ _ => rfl⟩
      rw [atoms, Atom.readings, Atom.readings, hts.tokens_printFrom, Formula.leaves]
  | .group chain => by
      rintro ⟨hne, hfilled⟩ hregular n
      obtain ⟨ts, row, hts, hparses, hback⟩ :=
        reads_chain chain hne hfilled (by simpa [atoms] using hregular) n
      have hclosed : Reads d n (.text "(" :: (chainTemplate chain ++ [.text ")"]))
          (.symbol '(' :: (ts ++ [.symbol ')'])) :=
        (hts.append (reads_text (by decide)) (apart_text (by decide))).text_between (by decide)
      exact ⟨_, _, hclosed, hparses.group, hback.group⟩

/-- A chain that opens a text is read back from it. -/
theorem reads_chain : ∀ chain : Chain, chain ≠ [] → FilledAll chain →
    (∀ a ∈ atomsOf chain, a.Regular) → ∀ n,
      ∃ ts row, Reads d n (chainTemplate chain) ts ∧ ParsesRow ts row ∧ Chain.ReadBack d n chain row
  | [] => fun hne => absurd rfl hne
  | (c, p) :: rest => by
      rintro - ⟨hfilled, hfilledAll⟩ hregular n
      rw [atomsOf, List.forall_mem_append] at hregular
      obtain ⟨us, f, hus, hparses, hback⟩ := reads p hfilled hregular.1 n
      obtain ⟨ts, row, hts, hmore, hbackAll⟩ := reads_rest rest hfilledAll hregular.2 _
      exact ⟨_, _, hus.append hts (apart_restTemplate d rest), hparses.toRow hmore c,
        hback.cons hbackAll c⟩

/-- So is one that follows a predicate. -/
theorem reads_rest : ∀ chain : Chain, FilledAll chain → (∀ a ∈ atomsOf chain, a.Regular) → ∀ n,
    ∃ ts row, Reads d n (restTemplate chain) ts ∧ ParsesMore ts row ∧ Chain.ReadBack d n chain row
  | [] => fun _ _ n => ⟨[], [], reads_nil, parsesMore_nil, Chain.readBack_nil⟩
  | (c, p) :: rest => by
      rintro ⟨hfilled, hfilledAll⟩ hregular n
      rw [atomsOf, List.forall_mem_append] at hregular
      obtain ⟨us, f, hus, hparses, hback⟩ := reads p hfilled hregular.1 n
      obtain ⟨ts, row, hts, hmore, hbackAll⟩ := reads_rest rest hfilledAll hregular.2 _
      obtain ⟨t, htokens, hconnector⟩ := connector_tokens c
      have hbetween : Text.EndsBetween (" " ++ c.sql ++ " ").toList := by cases c <;> decide
      have hall := (hus.append hts (apart_restTemplate d rest)).text_between hbetween
      rw [htokens, List.singleton_append] at hall
      exact ⟨_, _, hall, hmore.cons hconnector hparses, hback.cons hbackAll c⟩

end

end Predicate

end TableGate
