import TableGate.Proofs.Query.DeletionTests
import TableGate.Proofs.Query.SelectText

/-! # The condition of a join is read as it is meant

Behind ON a formula is read: what is compared, the filters, and the test for soft-deleted rows. The filters
stand in parentheses if there are several, but what is compared does so only beside filters. Where there are
none, an OR among several comparisons leads around the test. -/

namespace TableGate

open Template Formula

/-! ## Runs of links -/

namespace Truth

/-- Where all links hold, so does the run. -/
theorem runOf_yes {links : List (Connector × Truth)} (h : ∀ link ∈ links, link.2 = .yes) :
    runOf .yes links = .yes := by
  induction links with
  | nil => rfl
  | cons link links ih =>
      obtain ⟨c, t⟩ := link
      obtain ⟨rfl, hrest⟩ := List.forall_mem_cons.mp h
      cases c with
      | and => exact ih hrest
      | or => rfl

theorem chain_yes {links : List (Connector × Truth)} (h : ∀ link ∈ links, link.2 = .yes) :
    chain links = .yes := by
  cases links with
  | nil => rfl
  | cons link links =>
      obtain ⟨c, t⟩ := link
      obtain ⟨rfl, hrest⟩ := List.forall_mem_cons.mp h
      exact runOf_yes hrest

theorem all_append (ts us : List Truth) : all (ts ++ us) = (all ts).and (all us) := by
  induction ts with
  | nil => exact (yes_and _).symm
  | cons t ts ih => exact (congrArg t.and ih).trans (and_assoc t (all ts) (all us)).symm

/-- Links without an OR, behind the first, and what follows them by AND hold together. -/
theorem chain_append {links : List (Connector × Truth)} (h : ∀ link ∈ links.tail, link.1 = .and)
    (ts : List Truth) :
    chain (links ++ ts.map fun t => (Connector.and, t)) = (chain links).and (all ts) := by
  cases links with
  | nil =>
      rw [List.nil_append, chain, yes_and]
      cases ts with
      | nil => rfl
      | cons t ts => exact runOf_and t ts
  | cons link links =>
      obtain ⟨c, t⟩ := link
      have hlinks : links = (links.map (·.2)).map fun u => (Connector.and, u) := by
        rw [List.map_map]
        exact (List.map_id' links).symm.trans
          (List.map_congr_left fun link hlink => Prod.ext (h link hlink) rfl)
      rw [hlinks, List.cons_append, ← List.map_append, chain, chain, runOf_and, runOf_and, all_append,
        and_assoc]

/-- Behind an OR a further link counts for the last alternative only. -/
theorem runOf_append_of_or {links : List (Connector × Truth)} (h : ∀ link ∈ links, link.2 = .yes)
    (hor : ∃ link ∈ links, link.1 = .or) (more : List (Connector × Truth)) :
    runOf .yes (links ++ more) = .yes := by
  induction links with
  | nil =>
      obtain ⟨_, hmem, -⟩ := hor
      cases hmem
  | cons link links ih =>
      obtain ⟨c, t⟩ := link
      obtain ⟨rfl, hrest⟩ := List.forall_mem_cons.mp h
      cases c with
      | or => rfl
      | and =>
          have hlater : ∃ link ∈ links, link.1 = .or := by simpa using hor
          exact ih hrest hlater

end Truth

namespace Formula

variable {α : Type}

mutual

/-- A formula holds if all its predicates do. -/
theorem truth_yes {v : ℕ → Truth} {n : ℕ} : ∀ f : Formula α,
    (∀ i, n ≤ i → i < n + f.leaves.length → v i = .yes) → f.truth v n = .yes
  | .atom _ => fun h => h n le_rfl (by simp [leaves])
  | .group links => fun h => Truth.chain_yes (linksFrom_yes links h)

theorem linksFrom_yes {v : ℕ → Truth} {n : ℕ} : ∀ links : List (Connector × Formula α),
    (∀ i, n ≤ i → i < n + (leavesOf links).length → v i = .yes) →
      ∀ link ∈ linksFrom v n links, link.2 = .yes
  | [] => fun _ => List.forall_mem_nil _
  | (c, f) :: rest => by
      intro h
      rw [leavesOf, List.length_append] at h
      refine List.forall_mem_cons.mpr ⟨truth_yes f fun i hfrom hto => h i hfrom (by omega), ?_⟩
      exact linksFrom_yes rest fun i hfrom hto => h i (by omega) (by omega)

end

end Formula

namespace Predicate

/-- Chains in a row: the predicates of the second are numbered behind those of the first. -/
theorem linksFrom_append (v : ℕ → Truth) (n : ℕ) (xs ys : Chain) :
    linksFrom v n (formulas (xs ++ ys)) =
      linksFrom v n (formulas xs) ++ linksFrom v (n + (atomsOf xs).length) (formulas ys) := by
  induction xs generalizing n with
  | nil => rfl
  | cons link xs ih =>
      obtain ⟨c, p⟩ := link
      rw [List.cons_append, formulas, formulas, linksFrom, linksFrom, ih, atomsOf, List.length_append,
        ← leaves_formula, Nat.add_assoc, List.cons_append]

/-- The links of a chain have its connectors. -/
theorem connectors_linksFrom (v : ℕ → Truth) (n : ℕ) (chain : Chain) :
    (linksFrom v n (formulas chain)).map (·.1) = chain.map (·.1) := by
  induction chain generalizing n with
  | nil => rfl
  | cons link chain ih =>
      obtain ⟨c, p⟩ := link
      rw [formulas, linksFrom, List.map_cons, ih, List.map_cons]

end Predicate

namespace Chain

variable {chain : Chain}

/-- Parentheses around a chain do not change its truth. -/
theorem chain_wrap (chain : Chain) (wrapped : Bool) (v : ℕ → Truth) (n : ℕ) :
    Truth.chain (linksFrom v n (Predicate.formulas (chain.wrap wrapped))) =
      .chain (linksFrom v n (Predicate.formulas chain)) := by
  unfold wrap
  split <;> rfl

/-- What follows by AND, in parentheses where it is needed, counts as a whole. -/
theorem linksFrom_headed_wrap (chain : Chain) (v : ℕ → Truth) (n : ℕ) :
    ∃ ts : List Truth, linksFrom v n (Predicate.formulas (headed .and (chain.wrap true))) =
        (ts.map fun t => (Connector.and, t)) ∧
      .all ts = Truth.chain (linksFrom v n (Predicate.formulas chain)) := by
  have htruth := chain.chain_wrap true v n
  match hwrap : chain.wrap true, chain.length_wrap with
  | [], _ =>
      rw [hwrap] at htruth
      exact ⟨[], rfl, htruth⟩
  | [(c, p)], _ =>
      rw [hwrap] at htruth
      exact ⟨[p.formula.truth v n], rfl, (Truth.and_yes _).trans htruth⟩

theorem atomsOf_wrap (chain : Chain) (wrapped : Bool) :
    Predicate.atomsOf (chain.wrap wrapped) = Predicate.atomsOf chain := by
  unfold wrap
  split
  · simp [Predicate.atomsOf, Predicate.atoms]
  · rfl

theorem filledAll_wrap (h : Predicate.FilledAll chain) (wrapped : Bool) :
    Predicate.FilledAll (chain.wrap wrapped) := by
  unfold wrap
  split
  · rename_i hseveral
    refine ⟨⟨?_, h⟩, trivial⟩
    rintro rfl
    simp at hseveral
  · exact h

theorem atomsOf_headed (c : Connector) (chain : Chain) :
    Predicate.atomsOf (headed c chain) = Predicate.atomsOf chain := by
  cases chain <;> rfl

theorem filledAll_headed (h : Predicate.FilledAll chain) (c : Connector) :
    Predicate.FilledAll (headed c chain) := by
  cases chain with
  | nil => trivial
  | cons link rest => exact h

/-- The chain is a conjunction exactly if none of its connectors but the first is an OR. -/
theorem conjoined_iff : chain.Conjoined ↔ ∀ c ∈ (chain.map (·.1)).tail, c = .and := by
  rw [← List.map_tail, List.forall_mem_map]
  rfl

theorem conjoined_iff_links (v : ℕ → Truth) (n : ℕ) : chain.Conjoined ↔
    ∀ link ∈ (linksFrom v n (Predicate.formulas chain)).tail, link.1 = .and := by
  rw [conjoined_iff, ← Predicate.connectors_linksFrom v n, ← List.map_tail, List.forall_mem_map]

end Chain

/-! ## The condition of a join -/

namespace JoinClause

variable {compared filters : Chain} {test : Option Atom}

theorem atomsOf_chain : Predicate.atomsOf (chain compared filters test) =
    Predicate.atomsOf compared ++ Predicate.atomsOf filters ++ test.toList := by
  rw [chain, Predicate.atomsOf_append, Predicate.atomsOf_append, Chain.atomsOf_wrap, Chain.atomsOf_headed,
    Chain.atomsOf_wrap, Chain.atomsOf_ofAtoms, List.append_assoc]

theorem chain_ne_nil (h : compared ≠ [] ∨ filters ≠ []) : chain compared filters test ≠ [] := by
  intro hnil
  obtain ⟨hcompared, hrest⟩ := List.append_eq_nil_iff.mp hnil
  have hheaded : filters.wrap true = [] := by
    have hnone := (List.append_eq_nil_iff.mp hrest).1
    cases hwrap : filters.wrap true with
    | nil => rfl
    | cons link links =>
        rw [hwrap] at hnone
        cases hnone
  exact h.elim (· (Chain.wrap_eq_nil.mp hcompared)) (· (Chain.wrap_eq_nil.mp hheaded))

theorem filledAll_chain (hcompared : Predicate.FilledAll compared) (hfilters : Predicate.FilledAll filters) :
    Predicate.FilledAll (chain compared filters test) :=
  Predicate.filledAll_append (Chain.filledAll_wrap hcompared _)
    (Predicate.filledAll_append (Chain.filledAll_headed (Chain.filledAll_wrap hfilters true) .and)
      (Chain.filled_ofAtoms _))

/-- The truth of what is demanded in the condition of a join: of what is compared, of the filters, and of the
test. -/
def demanded (v : ℕ → Truth) (compared filters : Chain) (test : Option Atom) : Truth :=
  ((truthOf v (Predicate.formulas compared)).and
    (.chain (linksFrom v (Predicate.atomsOf compared).length (Predicate.formulas filters)))).and
    (.all ((List.range' ((Predicate.atomsOf compared).length + (Predicate.atomsOf filters).length)
      test.toList.length).map v))

/-- Where what is compared counts as one predicate, or nothing follows it, the condition is as true as what is
demanded. -/
theorem truthOf_chain (h : (compared.wrap (!filters.isEmpty)).Conjoined ∨ filters = [] ∧ test = none)
    (v : ℕ → Truth) : truthOf v (Predicate.formulas (chain compared filters test)) =
      demanded v compared filters test := by
  obtain ⟨ts, hfilters, htruth⟩ := filters.linksFrom_headed_wrap v (Predicate.atomsOf compared).length
  rw [truthOf, chain, Predicate.linksFrom_append, Predicate.linksFrom_append, Chain.linksFrom_ofAtoms,
    Chain.atomsOf_wrap, Chain.atomsOf_headed, Chain.atomsOf_wrap, Nat.zero_add, hfilters, ← List.map_append]
  rcases h with hconjoined | ⟨rfl, rfl⟩
  · rw [Truth.chain_append ((Chain.conjoined_iff_links v 0).mp hconjoined), Chain.chain_wrap, Truth.all_append, htruth,
      ← Truth.and_assoc]
    rfl
  · -- nothing follows what is compared
    have hnone : ts = [] := by simpa [Chain.wrap, headed, Predicate.formulas, linksFrom] using hfilters.symm
    rw [hnone, demanded]
    simp [Chain.wrap, truthOf, Predicate.formulas, linksFrom, Truth.chain, Truth.all]

/-- Where an OR is among what is compared, and no filter follows, the condition holds for what the test is to
leave out. -/
theorem exists_escape {a : Atom} (h : ¬ compared.Conjoined) :
    ∃ v : ℕ → Truth, v (Predicate.atomsOf compared).length = .no ∧
      truthOf v (Predicate.formulas (chain compared [] (some a))) = .yes := by
  let v : ℕ → Truth := fun i => if i < (Predicate.atomsOf compared).length then .yes else .no
  refine ⟨v, if_neg (lt_irrefl _), ?_⟩
  have hchain : chain compared [] (some a) = compared ++ Chain.ofAtoms [a] := by
    simp [chain, Chain.wrap, headed]
  have hyes : ∀ link ∈ linksFrom v 0 (Predicate.formulas compared), link.2 = .yes :=
    linksFrom_yes _ fun i _ hi => if_pos (by rwa [Predicate.leavesOf_formulas, Nat.zero_add] at hi)
  rw [Chain.conjoined_iff_links v 0] at h
  push Not at h
  rw [truthOf, hchain, Predicate.linksFrom_append]
  cases hlinks : linksFrom v 0 (Predicate.formulas compared) with
  | nil =>
      obtain ⟨link, hlink, -⟩ := h
      rw [hlinks] at hlink
      cases hlink
  | cons link rest =>
      obtain ⟨c, t⟩ := link
      rw [hlinks] at h hyes
      obtain ⟨rfl, hrest⟩ := List.forall_mem_cons.mp hyes
      obtain ⟨⟨c', t'⟩, hmem, hne⟩ := h
      have hor : c' = .or := by
        cases c' with
        | and => exact absurd rfl hne
        | or => rfl
      exact Truth.runOf_append_of_or hrest ⟨_, hmem, hor⟩ _

end JoinClause

/-! ## Joins that were understood -/

theorem Condition.connectors_of_chain {mode : ValueMode} {cs : List Condition} {chain : Chain}
    (h : Condition.chain? mode cs = .ok chain) : chain.map (·.1) = cs.map Condition.boolean := by
  induction cs generalizing chain with
  | nil =>
      rw [chain?] at h
      cases h
      rfl
  | cons c cs ih =>
      simp only [chain?, Except.bind_eq_ok, Except.pure_eq_ok] at h
      obtain ⟨first, -, rest, hrest, rfl⟩ := h
      rw [List.map_cons, List.map_cons, ih hrest]

namespace JoinSpec

/-- The comparisons of what a join compares. -/
def comparedAtoms? : Option JoinOn → Except Fault (List Atom)
  | none => .ok []
  | some (.pair left right) => do
    let left ← ColumnExpr.of? left
    let right ← ColumnExpr.of? right
    return [.compare left .eq (.column right)]
  | some (.conditions items) => (Condition.nodesOf items).mapM (ConditionNode.atom? .column)

/-- The truth of what a join compares, if anything. -/
def comparedTruth (v : ℕ → Truth) : Option JoinOn → Truth
  | none => .yes
  | some (.pair _ _) => v 0
  | some (.conditions items) => truthOf v (Condition.formulas items)

/-- What the condition of a join demands: what is compared, the filters, and the test for the table. -/
structure Demands (j : JoinSpec) (scope : Scope) (compared filters : List Atom) (test : Option Atom) :
    Prop where
  compared : comparedAtoms? j.on = .ok compared
  filters : (Condition.nodesOf j.filters).mapM (ConditionNode.atom? .parameter) = .ok filters
  test : scope.joinTest? j.table = .ok test

/-- The truth of all that is demanded together, by the truth of the comparisons, of the filters' and of the
test. -/
def demandedTruth (j : JoinSpec) (v : ℕ → Truth) (compared filters tests : ℕ) : Truth :=
  ((comparedTruth v j.on).and (.chain (linksFrom v compared (Condition.formulas j.filters)))).and
    (.all ((List.range' (compared + filters) tests).map v))

/-- An OR among several comparisons has no parentheses around it, although the test for the table follows. -/
def Escapes (j : JoinSpec) (scope : Scope) : Prop :=
  ¬ scope.Passes j.table ∧ j.filters = [] ∧
    ∃ items, j.on = some (.conditions items) ∧ ∃ c ∈ items.tail, c.boolean = .or

variable {scope : Scope} {j : JoinSpec} {on : Option JoinOn} {compared : Chain}

theorem filledAll_compared (h : comparedChain? on = .ok compared) : Predicate.FilledAll compared := by
  match on with
  | none =>
      cases h
      trivial
  | some (.pair left right) =>
      simp only [comparedChain?, Except.bind_eq_ok, Except.pure_eq_ok] at h
      obtain ⟨l, -, r, -, rfl⟩ := h
      exact ⟨trivial, trivial⟩
  | some (.conditions items) => exact (Condition.agrees_chain items compared h).1

theorem comparedAtoms?_eq (h : comparedChain? on = .ok compared) :
    comparedAtoms? on = .ok (Predicate.atomsOf compared) := by
  match on with
  | none =>
      cases h
      rfl
  | some (.pair left right) =>
      simp only [comparedChain?, Except.bind_eq_ok, Except.pure_eq_ok] at h
      obtain ⟨l, hl, r, hr, rfl⟩ := h
      simp [comparedAtoms?, hl, hr, Predicate.atomsOf, Predicate.atoms]
  | some (.conditions items) =>
      exact Except.mapM_eq_ok.mpr (Condition.atoms_of_chain items compared h)

theorem comparedTruth_eq (h : comparedChain? on = .ok compared) (v : ℕ → Truth) :
    truthOf v (Predicate.formulas compared) = comparedTruth v on := by
  match on with
  | none =>
      cases h
      rfl
  | some (.pair left right) =>
      simp only [comparedChain?, Except.bind_eq_ok, Except.pure_eq_ok] at h
      obtain ⟨l, -, r, -, rfl⟩ := h
      rfl
  | some (.conditions items) =>
      rw [truthOf, (Condition.agrees_chain items compared h).2.2]
      rfl

/-- Only a list of conditions has an OR behind its first. -/
theorem not_conjoined_iff (h : comparedChain? on = .ok compared) : ¬ compared.Conjoined ↔
    ∃ items, on = some (.conditions items) ∧ ∃ c ∈ items.tail, c.boolean = .or := by
  match on with
  | none =>
      cases h
      simp [Chain.Conjoined]
  | some (.pair left right) =>
      simp only [comparedChain?, Except.bind_eq_ok, Except.pure_eq_ok] at h
      obtain ⟨l, -, r, -, rfl⟩ := h
      simp [Chain.Conjoined]
  | some (.conditions items) =>
      have hor (c : Connector) : ¬ c = .and ↔ c = .or := by cases c <;> simp
      rw [Chain.conjoined_iff, Condition.connectors_of_chain h, ← List.map_tail, List.forall_mem_map]
      simp [hor]

/-- The clause of a join with a condition. -/
theorem clause?_eq_ok {clause : JoinClause} {left : Option Atom} (hcross : j.joinType ≠ .cross)
    (h : j.clause? scope = .ok (clause, left)) :
    ∃ test r compared filters, scope.joinTest? j.table = .ok test ∧ Reference.of? j.table = .ok r ∧
      comparedChain? j.on = .ok compared ∧ Condition.chain? .parameter j.filters = .ok filters ∧
      (compared ≠ [] ∨ filters ≠ []) ∧ clause = .on j.joinType r compared filters test ∧ left = none := by
  simp only [clause?, Except.bind_eq_ok] at h
  obtain ⟨test, htest, r, hr, h⟩ := h
  rw [if_neg hcross] at h
  simp only [Except.bind_eq_ok] at h
  obtain ⟨compared, hcompared, filters, hfilters, h⟩ := h
  split at h
  · cases h
  · rename_i hsome
    cases h
    refine ⟨test, r, compared, filters, htest, hr, hcompared, hfilters, ?_, rfl, rfl⟩
    simpa [imp_iff_not_or] using hsome

/-- Whether what is compared counts as one predicate, or nothing follows it, is read off the join. -/
theorem not_escapes_iff {test : Option Atom} {filters : Chain} (hcompared : comparedChain? j.on = .ok compared)
    (hfilters : Condition.chain? .parameter j.filters = .ok filters)
    (htest : scope.joinTest? j.table = .ok test) :
    ¬ j.Escapes scope ↔ (compared.wrap (!filters.isEmpty)).Conjoined ∨ filters = [] ∧ test = none := by
  rw [Escapes, ← not_conjoined_iff hcompared, ← Scope.joinTest?_eq_none htest,
    ← Condition.chain_eq_nil hfilters]
  by_cases hnone : filters = []
  · have hbare : compared.wrap (!filters.isEmpty) = compared := by simp [Chain.wrap, hnone]
    rw [hbare]
    tauto
  · have hone : (compared.wrap (!filters.isEmpty)).Conjoined := by
      have hfollowed : (!filters.isEmpty) = true := by simpa using hnone
      rw [hfollowed, ← List.append_nil (compared.wrap true)]
      exact Chain.conjoined_append compared.length_wrap (List.forall_mem_nil _)
    tauto

/-- Behind the ON of a join a formula is read, of what is compared, of the filters and of the test for
soft-deleted rows. Whatever the truth of each predicate, the formula is as true as all of these together,
unless an OR among the comparisons escapes; then it may be true of what the test is to leave out. -/
theorem on_reads {clause : JoinClause} {left : Option Atom} (hcross : j.joinType ≠ .cross)
    (h : j.clause? scope = .ok (clause, left)) (d : Dialect) (n : ℕ) :
    ∃ compared filters test, j.Demands scope compared filters test ∧
      ∃ r text links, Reference.of? j.table = .ok r ∧
        printFrom d n clause.template =
          j.joinType.sql ++ " " ++ printFrom d n r.template ++ " ON " ++ text ∧
        Formula.read? (Text.tokens text.toList) = some links ∧
        leavesOf links = Atom.readings d n (compared ++ filters ++ test.toList) ∧
        (¬ j.Escapes scope → ∀ v, truthOf v links =
          j.demandedTruth v compared.length filters.length test.toList.length) ∧
        (j.Escapes scope → ∃ v, v (compared.length + filters.length) = .no ∧ truthOf v links = .yes) := by
  obtain ⟨test, r, compared, filters, htest, hr, hcompared, hfilters, hsome, rfl, -⟩ := clause?_eq_ok hcross h
  obtain ⟨hfilled, -, hlinks⟩ := Condition.agrees_chain j.filters filters hfilters
  have hregular : ∀ a ∈ Predicate.atomsOf (JoinClause.chain compared filters test), a.Regular := by
    rw [JoinClause.atomsOf_chain, List.forall_mem_append, List.forall_mem_append]
    exact ⟨⟨regular_of_comparedChain? hcompared, Condition.regular_of_chain? hfilters⟩,
      fun a ha => Scope.regular_of_joinTest? htest a (Option.mem_toList.mp ha)⟩
  obtain ⟨ts, row, hts, hparses, hback⟩ := Predicate.reads_chain (d := d) _ (JoinClause.chain_ne_nil hsome)
    (JoinClause.filledAll_chain (filledAll_compared hcompared) hfilled) hregular n
  have htruth (v : ℕ → Truth) : truthOf v (headed .and row) =
      truthOf v (Predicate.formulas (JoinClause.chain compared filters test)) := by
    rw [truthOf, chain_headed, hback.links, truthOf]
  have hdemands : j.Demands scope (Predicate.atomsOf compared) (Predicate.atomsOf filters) test :=
    ⟨comparedAtoms?_eq hcompared, Except.mapM_eq_ok.mpr (Condition.atoms_of_chain _ _ hfilters), htest⟩
  refine ⟨_, _, test, hdemands, r, printFrom d n (Predicate.chainTemplate
    (JoinClause.chain compared filters test)), headed .and row, hr, ?_, ?_, ?_, fun hkept v => ?_, fun hescapes => ?_⟩
  · have hbare : params r.template = [] := (Reference.carries (d := d) hr).params_eq
    rw [JoinClause.printFrom_on hbare, JoinClause.condition_eq hsome, printFrom_eq_print hbare]
  · rw [hts.tokens_printFrom, hparses.read?]
  · rw [leavesOf_headed, hback.leaves, JoinClause.atomsOf_chain]
  · rw [htruth, JoinClause.truthOf_chain ((not_escapes_iff hcompared hfilters htest).mp hkept) v,
      JoinClause.demanded, comparedTruth_eq hcompared, hlinks]
    rfl
  · obtain ⟨hscope, hbare, hor⟩ := hescapes
    obtain rfl := (Condition.chain_eq_nil hfilters).mpr hbare
    obtain ⟨a, rfl⟩ := Option.ne_none_iff_exists'.mp (mt (Scope.joinTest?_eq_none htest).mp hscope)
    obtain ⟨v, hno, hyes⟩ := JoinClause.exists_escape (a := a) ((not_conjoined_iff hcompared).mpr hor)
    exact ⟨v, hno, (htruth v).trans hyes⟩

/-- Beside a filter an OR among the comparisons stands in parentheses. -/
theorem on_reads_filtered :
    let scope : Scope := fun table => if table = "orders" then some "gone" else none
    let j : JoinSpec := ⟨"orders AS o", .left, some (.conditions [.compare "users.id" "=" (.text "o.user"),
      (Condition.compare "users.mail" "=" (.text "o.mail")).or]), [.eq "o.kind" (.text "gift")]⟩
    let sql := "LEFT JOIN \"orders\" AS \"o\" ON (\"users\".\"id\" = \"o\".\"user\" OR \"users\".\"mail\" = " ++
      "\"o\".\"mail\") AND \"o\".\"kind\" = $3 AND \"o\".\"gone\" IS NULL"
    j.joinType ≠ .cross ∧ ¬ j.Escapes scope ∧
      ∃ clause left, j.clause? scope = .ok (clause, left) ∧ printFrom .postgres 3 clause.template = sql ∧
        ∃ compared filters test, j.Demands scope compared filters test ∧
          ∃ r text links, Reference.of? j.table = .ok r ∧
            sql = j.joinType.sql ++ " " ++ printFrom .postgres 3 r.template ++ " ON " ++ text ∧
            Formula.read? (Text.tokens text.toList) = some links ∧
            leavesOf links = Atom.readings .postgres 3 (compared ++ filters ++ test.toList) ∧
            ∀ v, truthOf v links = j.demandedTruth v compared.length filters.length test.toList.length := by
  intro scope j sql
  have hcross : j.joinType ≠ .cross := by decide
  have hkept : ¬ j.Escapes scope := fun h => List.cons_ne_nil _ _ h.2.1
  obtain ⟨⟨clause, left⟩, hclause, hprint⟩ := Except.exists_of_any
    (show (j.clause? scope).toOption.any (fun part => printFrom .postgres 3 part.1.template = sql) = true by
      decide +kernel)
  have hsql : printFrom .postgres 3 clause.template = sql := of_decide_eq_true hprint
  obtain ⟨compared, filters, test, hdemands, r, text, links, hr, htext, hread, hleaves, htruth, -⟩ :=
    on_reads hcross hclause .postgres 3
  exact ⟨hcross, hkept, clause, left, hclause, hsql, compared, filters, test, hdemands, r, text, links, hr,
    hsql ▸ htext, hread, hleaves, htruth hkept⟩

/-- Without a filter the test for soft-deleted rows counts for the second comparison only. -/
theorem on_reads_escaped :
    let scope : Scope := fun _ => some "deleted_at"
    let j : JoinSpec := ⟨"orders", .inner, some (.conditions [.compare "users.id" "=" (.text "orders.user_id"),
      (Condition.compare "users.email" "=" (.text "orders.email")).or]), []⟩
    let sql := "\"users\".\"id\" = \"orders\".\"user_id\" OR \"users\".\"email\" = \"orders\".\"email\"" ++
      " AND \"orders\".\"deleted_at\" IS NULL"
    let v : ℕ → Truth := fun i => if i = 2 then .no else .yes
    (j.clause? scope).toOption.map (fun part => printFrom .sqlite 1 part.1.template) =
        some ("INNER JOIN \"orders\" ON " ++ sql) ∧
      (Formula.read? (Text.tokens sql.toList)).map (truthOf v) = some .yes ∧
      j.demandedTruth v 2 0 1 = .no := by
  decide +kernel

end JoinSpec

end TableGate
