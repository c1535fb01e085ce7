import TableGate.Proofs.Query.ChainReading
import TableGate.Proofs.Query.Vetted

/-! # The condition of a SELECT is read as it is meant

The text behind WHERE is read as the conjunction of the conditions, of the full-text search and of the tests
for soft-deleted rows. An OR in the conditions leads around none of the others. -/

namespace TableGate

open Template Formula

/-! ## Conjunctions -/

namespace Truth

/-- The truth of all of some predicates together. -/
def all (ts : List Truth) : Truth :=
  ts.foldr Truth.and .yes

@[simp]
theorem and_yes (t : Truth) : t.and .yes = t := by
  cases t <;> rfl

@[simp]
theorem yes_and (t : Truth) : Truth.yes.and t = t := by
  cases t <;> rfl

theorem and_assoc (s t u : Truth) : (s.and t).and u = s.and (t.and u) := by
  cases s <;> cases t <;> cases u <;> rfl

/-- What is joined by AND only holds if all of it does. -/
theorem runOf_and (t : Truth) (ts : List Truth) :
    runOf t (ts.map fun u => (Connector.and, u)) = t.and (all ts) := by
  induction ts generalizing t with
  | nil => rw [List.map_nil, runOf, all, List.foldr_nil, and_yes]
  | cons u ts ih => rw [List.map_cons, runOf, ih, and_assoc, all, all, List.foldr_cons]

end Truth

namespace Predicate

theorem atomsOf_append (xs ys : Chain) : atomsOf (xs ++ ys) = atomsOf xs ++ atomsOf ys := by
  induction xs with
  | nil => rfl
  | cons link xs ih =>
      obtain ⟨c, p⟩ := link
      rw [List.cons_append, atomsOf, atomsOf, ih, List.append_assoc]

theorem filledAll_append {xs ys : Chain} (hxs : FilledAll xs) (hys : FilledAll ys) :
    FilledAll (xs ++ ys) := by
  induction xs with
  | nil => exact hys
  | cons link xs ih => exact ⟨hxs.1, ih hxs.2⟩

theorem restTemplate_append (xs ys : Chain) :
    restTemplate (xs ++ ys) = restTemplate xs ++ restTemplate ys := by
  induction xs with
  | nil => rfl
  | cons link xs ih =>
      obtain ⟨c, p⟩ := link
      rw [List.cons_append, restTemplate, restTemplate, ih, List.append_assoc]

theorem chainTemplate_append {xs : Chain} (h : xs ≠ []) (ys : Chain) :
    chainTemplate (xs ++ ys) = chainTemplate xs ++ restTemplate ys := by
  cases xs with
  | nil => exact absurd rfl h
  | cons link xs =>
      obtain ⟨c, p⟩ := link
      rw [List.cons_append, chainTemplate, chainTemplate, restTemplate_append, List.append_assoc]

end Predicate

/-- Atoms that follow one another by AND. -/
def Chain.ofAtoms (atoms : List Atom) : Chain :=
  atoms.map fun a => (.and, .atom a)

namespace Chain

theorem filled_ofAtoms (atoms : List Atom) : Predicate.FilledAll (ofAtoms atoms) := by
  induction atoms with
  | nil => trivial
  | cons a atoms ih => exact ⟨trivial, ih⟩

theorem atomsOf_ofAtoms (atoms : List Atom) : Predicate.atomsOf (ofAtoms atoms) = atoms := by
  induction atoms with
  | nil => rfl
  | cons a atoms ih => exact congrArg (a :: ·) ih

theorem linksFrom_ofAtoms (v : ℕ → Truth) (n : ℕ) (atoms : List Atom) :
    linksFrom v n (Predicate.formulas (ofAtoms atoms)) =
      ((List.range' n atoms.length).map v).map fun t => (Connector.and, t) := by
  induction atoms generalizing n with
  | nil => rfl
  | cons a atoms ih => exact congrArg ((Connector.and, v n) :: ·) (ih (n + 1))

theorem joined_atoms (t : Template) (atoms : List Atom) :
    joined " AND " (t :: atoms.map Atom.template) = t ++ Predicate.restTemplate (ofAtoms atoms) := by
  induction atoms generalizing t with
  | nil => exact (List.append_nil t).symm
  | cons a atoms ih => exact congrArg (fun u => t ++ .text " AND " :: u) (ih a.template)

end Chain

/-! ## The filter as a chain -/

namespace Filter

/-- The conditions of the filter, in parentheses if there are several and something follows them. -/
def head (f : Filter) : Chain :=
  if !f.also.isEmpty && 1 < f.given.length then [(.and, .group f.given)] else f.given

/-- The filter as a single chain. -/
def chain (f : Filter) : Chain :=
  f.head ++ Chain.ofAtoms f.also

variable {f : Filter}

theorem given_ne_nil_of_wrapped (h : (!f.also.isEmpty && 1 < f.given.length) = true) : f.given ≠ [] := by
  rw [Bool.and_eq_true, decide_eq_true_eq] at h
  have hpos : 0 < f.given.length := by omega
  exact List.ne_nil_of_length_pos hpos

theorem head_eq_nil : f.head = [] ↔ f.given = [] := by
  unfold head
  split
  · rename_i hwrapped
    simp [given_ne_nil_of_wrapped hwrapped]
  · rfl

theorem chain_eq_nil : f.chain = [] ↔ f.given = [] ∧ f.also = [] := by
  rw [chain, List.append_eq_nil_iff, head_eq_nil, Chain.ofAtoms, List.map_eq_nil_iff]

theorem chainTemplate_head : Predicate.chainTemplate f.head = Chain.enclosed f.given (!f.also.isEmpty) := by
  unfold head Chain.enclosed
  split
  · simp [Predicate.chainTemplate, Predicate.restTemplate, Predicate.template, parenthesized]
  · rfl

/-- The text of the filter is that of the chain. -/
theorem template_eq (h : f.chain ≠ []) :
    f.template = .text " WHERE " :: Predicate.chainTemplate f.chain := by
  have hjoined : f.parts ≠ [] ∧ joined " AND " f.parts = Predicate.chainTemplate f.chain := by
    by_cases hgiven : f.given = []
    · have hhead : f.head = [] := head_eq_nil.mpr hgiven
      rw [parts, chain, hgiven, hhead]
      cases halso : f.also with
      | nil => exact absurd (chain_eq_nil.mpr ⟨hgiven, halso⟩) h
      | cons a rest => exact ⟨List.cons_ne_nil _ _, Chain.joined_atoms a.template rest⟩
    · have hparts : f.parts = Chain.enclosed f.given (!f.also.isEmpty) :: f.also.map Atom.template := by
        simp [parts, hgiven]
      rw [hparts, chain, Predicate.chainTemplate_append (mt head_eq_nil.mp hgiven), chainTemplate_head]
      exact ⟨List.cons_ne_nil _ _, Chain.joined_atoms _ f.also⟩
  unfold template
  split
  · rename_i hparts
    exact absurd hparts hjoined.1
  · rw [hjoined.2]

theorem printFrom_eq_empty (d : Dialect) (n : ℕ) : printFrom d n f.template = "" ↔ f.chain = [] := by
  constructor
  · intro hprint
    by_contra hne
    rw [template_eq hne, printFrom] at hprint
    have hchars := congrArg String.toList hprint
    simp at hchars
  · intro hnil
    obtain ⟨hgiven, halso⟩ := chain_eq_nil.mp hnil
    simp [template, parts, hgiven, halso, printFrom]

theorem atomsOf_chain : Predicate.atomsOf f.chain = Predicate.atomsOf f.given ++ f.also := by
  have hhead : Predicate.atomsOf f.head = Predicate.atomsOf f.given := by
    unfold head
    split
    · simp [Predicate.atomsOf, Predicate.atoms]
    · rfl
  rw [chain, Predicate.atomsOf_append, hhead, Chain.atomsOf_ofAtoms]

theorem filledAll_chain (h : Predicate.FilledAll f.given) : Predicate.FilledAll f.chain := by
  refine Predicate.filledAll_append ?_ (Chain.filled_ofAtoms f.also)
  unfold head
  split
  · rename_i hwrapped
    exact ⟨⟨given_ne_nil_of_wrapped hwrapped, h⟩, trivial⟩
  · exact h

/-- A predicate before atoms that follow it by AND. -/
theorem truthOf_link (v : ℕ → Truth) (c : Connector) (p : Predicate) (atoms : List Atom) :
    truthOf v (Predicate.formulas ((c, p) :: Chain.ofAtoms atoms)) =
      (p.formula.truth v 0).and (.all ((List.range' p.atoms.length atoms.length).map v)) := by
  rw [truthOf, Predicate.formulas, linksFrom, Chain.linksFrom_ofAtoms, Predicate.leaves_formula,
    Nat.zero_add]
  exact Truth.runOf_and _ _

/-- The conditions count as one predicate beside the atoms, whatever connectors are among them. -/
theorem truthOf_chain (f : Filter) (v : ℕ → Truth) :
    truthOf v (Predicate.formulas f.chain) =
      (truthOf v (Predicate.formulas f.given)).and
        (.all ((List.range' (Predicate.atomsOf f.given).length f.also.length).map v)) := by
  obtain ⟨given, also⟩ := f
  match given, also with
  | given, [] =>
      have hchain : (Filter.mk given []).chain = given := by simp [chain, head, Chain.ofAtoms]
      rw [hchain]
      exact (Truth.and_yes _).symm
  | [], a :: rest =>
      have hchain : (Filter.mk [] (a :: rest)).chain = (.and, .atom a) :: Chain.ofAtoms rest := by
        simp [chain, head, Chain.ofAtoms]
      rw [hchain, truthOf_link]
      exact (Truth.yes_and _).symm
  | [(c, p)], a :: rest =>
      have hchain : (Filter.mk [(c, p)] (a :: rest)).chain = (c, p) :: Chain.ofAtoms (a :: rest) := by
        simp [chain, head]
      rw [hchain, truthOf_link, Predicate.atomsOf, Predicate.atomsOf, List.append_nil]
      rfl
  | x :: y :: zs, a :: rest =>
      have hchain : (Filter.mk (x :: y :: zs) (a :: rest)).chain =
          (.and, .group (x :: y :: zs)) :: Chain.ofAtoms (a :: rest) := by simp [chain, head]
      rw [hchain, truthOf_link]
      rfl

/-- The filter is read back from its text. -/
theorem reads {d : Dialect} (hfilled : Predicate.FilledAll f.given) (hgiven : Chain.Regular f.given)
    (halso : ∀ a ∈ f.also, a.Regular) (hne : f.chain ≠ []) (n : ℕ) :
    ∃ text links, printFrom d n f.template = " WHERE " ++ text ∧
      Formula.read? (Text.tokens text.toList) = some links ∧
      leavesOf links = Atom.readings d n (Predicate.atomsOf f.given ++ f.also) ∧
      ∀ v, truthOf v links = truthOf v (Predicate.formulas f.chain) := by
  have hregular : ∀ a ∈ Predicate.atomsOf f.chain, a.Regular := by
    rw [atomsOf_chain, List.forall_mem_append]
    exact ⟨hgiven, halso⟩
  obtain ⟨ts, row, hts, hparses, hback⟩ :=
    Predicate.reads_chain (d := d) f.chain hne (filledAll_chain hfilled) hregular n
  refine ⟨printFrom d n (Predicate.chainTemplate f.chain), headed .and row, ?_, ?_, ?_, fun v => ?_⟩
  · rw [template_eq hne, printFrom]
  · rw [hts.tokens_printFrom, hparses.read?]
  · rw [leavesOf_headed, hback.leaves, atomsOf_chain]
  · rw [truthOf, chain_headed, hback.links, truthOf]

end Filter

/-! ## What a SELECT demands -/

/-- What the rows of a SELECT have to satisfy: the comparisons of its conditions, and besides them the search
and the tests for soft-deleted rows of the first table and of the tables in cross joins. -/
structure SelectClauses.Demands (c : SelectClauses) (k : Compiler) (scope : Scope) (table : String)
    (given also : List Atom) : Prop where
  given : (Condition.nodesOf c.conditions).mapM (ConditionNode.atom? .parameter) = .ok given
  also : ∃ search test crossed, c.search? k.dialect = .ok search ∧
    scope.sourceTest? table (!c.joins.isEmpty) = .ok test ∧
    (c.joins.filter fun j => j.joinType = .cross).mapM (fun j => scope.joinTest? j.table) = .ok crossed ∧
    also = search.toList ++ test.toList ++ crossed.filterMap id

/-- The table keeps no soft-deleted rows in the scope. -/
def Scope.Passes (scope : Scope) (table : String) : Prop :=
  scope (Text.splitAlias table).1 = Option.none

variable {scope : Scope}

theorem Scope.sourceTest?_eq_none {table : String} {joined : Bool} {test : Option Atom}
    (h : scope.sourceTest? table joined = .ok test) : test = Option.none ↔ scope.Passes table := by
  unfold Scope.sourceTest? at h
  unfold Scope.Passes
  split at h
  · rename_i column hcolumn
    split at h
    · obtain ⟨a, -, rfl⟩ := Except.map_eq_ok.mp h
      simp [hcolumn]
    · obtain ⟨a, -, rfl⟩ := Except.map_eq_ok.mp h
      simp [hcolumn]
  · rename_i hcolumn
    cases h
    simp [hcolumn]

theorem Scope.joinTest?_eq_none {table : String} {test : Option Atom}
    (h : scope.joinTest? table = .ok test) : test = Option.none ↔ scope.Passes table := by
  unfold Scope.joinTest? at h
  unfold Scope.Passes
  split at h
  · rename_i column hcolumn
    obtain ⟨a, -, rfl⟩ := Except.map_eq_ok.mp h
    simp [hcolumn]
  · rename_i hcolumn
    cases h
    simp [hcolumn]

theorem SelectClauses.search?_eq_none {c : SelectClauses} {d : Dialect} {search : Option Atom}
    (h : c.search? d = .ok search) : search = none ↔ c.fullText = none := by
  unfold SelectClauses.search? at h
  split at h
  · rename_i f hf
    obtain ⟨a, -, rfl⟩ := Except.map_eq_ok.mp h
    simp [hf]
  · rename_i hf
    cases h
    simp [hf]

theorem Condition.chain_eq_nil {mode : ValueMode} {cs : List Condition} {chain : Chain}
    (h : Condition.chain? mode cs = .ok chain) : chain = [] ↔ cs = [] := by
  cases cs with
  | nil =>
      rw [chain?] at h
      cases h
      simp
  | cons c cs =>
      simp only [chain?, Except.bind_eq_ok, Except.pure_eq_ok] at h
      obtain ⟨first, -, rest, -, rfl⟩ := h
      simp

/-- A cross join hands on the test of its table, any other join nothing. -/
theorem JoinSpec.test_of_clause? {j : JoinSpec} {clause : JoinClause} {left : Option Atom}
    (h : j.clause? scope = .ok (clause, left)) :
    if j.joinType = .cross then scope.joinTest? j.table = .ok left else left = none := by
  simp only [JoinSpec.clause?, Except.bind_eq_ok] at h
  obtain ⟨test, htest, table, -, h⟩ := h
  by_cases hcross : j.joinType = .cross
  · rw [if_pos hcross] at h ⊢
    split at h
    · cases h
    · cases h
      exact htest
  · rw [if_neg hcross] at h ⊢
    simp only [Except.bind_eq_ok] at h
    obtain ⟨compared, -, filters, -, h⟩ := h
    split at h
    · cases h
    · cases h
      rfl

/-- The tests that joins hand on are those of the tables in cross joins. -/
theorem JoinSpec.crossed {joins : List JoinSpec} {parts : List (JoinClause × Option Atom)}
    (h : joins.mapM (JoinSpec.clause? scope) = .ok parts) :
    ∃ crossed, (joins.filter fun j => j.joinType = .cross).mapM (fun j => scope.joinTest? j.table) =
        .ok crossed ∧ crossed.filterMap id = parts.filterMap (·.2) ∧
      (crossed.filterMap id = [] ↔ ∀ j ∈ joins, j.joinType = .cross → scope.Passes j.table) := by
  have hall := Except.mapM_eq_ok.mp h
  clear h
  induction hall with
  | nil => exact ⟨[], rfl, rfl, by simp⟩
  | @cons j part joins parts hj _ ih =>
      obtain ⟨crossed, hcrossed, htests, hempty⟩ := ih
      obtain ⟨clause, left⟩ := part
      have hleft := JoinSpec.test_of_clause? hj
      by_cases hcross : j.joinType = .cross
      · rw [if_pos hcross] at hleft
        have hpasses := Scope.joinTest?_eq_none hleft
        refine ⟨left :: crossed, ?_, ?_, ?_⟩
        · rw [List.filter_cons_of_pos (by simpa using hcross), List.mapM_cons, hleft, hcrossed]
          rfl
        · cases left with
          | none => simpa using htests
          | some a => simpa using htests
        · cases left with
          | none => simpa [hcross, ← hpasses] using hempty
          | some a => simp [hcross, ← hpasses]
      · rw [if_neg hcross] at hleft
        subst hleft
        refine ⟨crossed, ?_, by simpa using htests, by simpa [hcross] using hempty⟩
        rw [List.filter_cons_of_neg (by simpa using hcross), hcrossed]

/-- The filter of a SELECT that was understood is what is demanded, and no more. -/
theorem SelectClauses.filter_of_body? {k : Compiler} {table : String} {c : SelectClauses} {body : SelectBody}
    (h : c.body? k scope table = .ok body) :
    Condition.chain? .parameter c.conditions = .ok body.filter.given ∧
      c.Demands k scope table (Predicate.atomsOf body.filter.given) body.filter.also ∧
      (body.filter.also = [] ↔ c.fullText = none ∧ scope.Passes table ∧
        ∀ j ∈ c.joins, j.joinType = .cross → scope.Passes j.table) := by
  simp only [SelectClauses.body?, Except.bind_eq_ok, Except.pure_eq_ok] at h
  obtain ⟨columns, -, source, -, joins, hjoins, given, hgiven, search, hsearch, test, htest, groupBy, -,
    having, -, rfl⟩ := h
  obtain ⟨crossed, hcrossed, htests, hpasses⟩ := JoinSpec.crossed hjoins
  have hatoms := Except.mapM_eq_ok.mpr (Condition.atoms_of_chain c.conditions given hgiven)
  refine ⟨hgiven, ⟨hatoms, search, test, crossed, hsearch, htest, hcrossed, by rw [htests]⟩, ?_⟩
  rw [← htests, List.append_eq_nil_iff, List.append_eq_nil_iff, Option.toList_eq_nil_iff,
    Option.toList_eq_nil_iff, SelectClauses.search?_eq_none hsearch, Scope.sourceTest?_eq_none htest,
    hpasses, and_assoc]

/-- Behind WHERE a formula is read, of the comparisons of the conditions and of what is demanded besides them.
Whatever the truth of each of these, the formula is as true as the conditions and all of the others together.
There is no WHERE exactly if nothing is demanded. -/
theorem SelectClauses.where_reads {k : Compiler} {table : String} {c : SelectClauses} {body : SelectBody}
    (h : c.body? k scope table = .ok body) (n : ℕ) :
    ∃ given also, c.Demands k scope table given also ∧
      (printFrom k.dialect n body.filter.template = "" ↔ c.conditions = [] ∧ c.fullText = none ∧
        scope.Passes table ∧ ∀ j ∈ c.joins, j.joinType = .cross → scope.Passes j.table) ∧
      (printFrom k.dialect n body.filter.template ≠ "" → ∃ text links,
        printFrom k.dialect n body.filter.template = " WHERE " ++ text ∧
        Formula.read? (Text.tokens text.toList) = some links ∧
        leavesOf links = Atom.readings k.dialect n (given ++ also) ∧
        ∀ v, truthOf v links = (truthOf v (Condition.formulas c.conditions)).and
          (.all ((List.range' given.length also.length).map v))) := by
  have hregular := SelectClauses.regular_of_body? h
  obtain ⟨hgiven, hdemands, halso⟩ := SelectClauses.filter_of_body? h
  obtain ⟨hfilled, -, hlinks⟩ := Condition.agrees_chain c.conditions body.filter.given hgiven
  refine ⟨_, _, hdemands, ?_, fun hprint => ?_⟩
  · rw [Filter.printFrom_eq_empty, Filter.chain_eq_nil, Condition.chain_eq_nil hgiven, halso]
  · have hne := mt (Filter.printFrom_eq_empty k.dialect n).mpr hprint
    obtain ⟨text, links, htext, hread, hleaves, htruth⟩ :=
      Filter.reads (d := k.dialect) hfilled hregular.1 hregular.2 hne n
    refine ⟨text, links, htext, hread, hleaves, fun v => ?_⟩
    rw [htruth, Filter.truthOf_chain, truthOf, truthOf, hlinks]

/-- Conditions with an OR and a BETWEEN, a search, and two of three tables that keep soft-deleted rows. -/
theorem SelectClauses.where_reads_search :
    let k : Compiler := ⟨.postgres, .guarded⟩
    let scope : Scope := fun table => if table = "logs" then none else some "gone"
    let ages := [Condition.compare "age" "BETWEEN" (.array [.text "18", .text "65"]),
      (Condition.isNull "age").or]
    let q := (QuerySpec.ofConditions [.eq "name" (.text "ada"), (Condition.all ages).or]).fullText
      ⟨["bio"], "lean", .boolean⟩
    let c := ((q.join (.cross "days")).join (.cross "logs")).clauses
    let sql := "(\"name\" = $1 OR (\"age\" BETWEEN $2 AND $3 OR \"age\" IS NULL))" ++
      " AND to_tsvector(\"bio\") @@ plainto_tsquery($4)" ++
      " AND \"users\".\"gone\" IS NULL AND \"days\".\"gone\" IS NULL"
    ∃ body given also links, c.body? k scope "users" = .ok body ∧ c.Demands k scope "users" given also ∧
      printFrom k.dialect 1 body.filter.template = " WHERE " ++ sql ∧
      Formula.read? (Text.tokens sql.toList) = some links ∧
      leavesOf links = Atom.readings k.dialect 1 (given ++ also) ∧
      ∀ v, truthOf v links = (truthOf v (Condition.formulas c.conditions)).and
        (.all ((List.range' given.length also.length).map v)) := by
  intro k scope ages q c sql
  have hprint : (c.body? k scope "users").toOption.map
      (fun body => printFrom k.dialect 1 body.filter.template) = some (" WHERE " ++ sql) := by
    decide +kernel
  have hne : " WHERE " ++ sql ≠ "" := by decide +kernel
  cases h : c.body? k scope "users" with
  | error e =>
      rw [h] at hprint
      cases hprint
  | ok body =>
      rw [h] at hprint
      have htext : printFrom k.dialect 1 body.filter.template = " WHERE " ++ sql :=
        Option.some.inj hprint
      obtain ⟨given, also, hdemands, -, hread⟩ := SelectClauses.where_reads h 1
      obtain ⟨text, links, hsql, hlinks, hleaves, htruth⟩ := hread (by rwa [htext])
      have hchars : " WHERE ".toList ++ sql.toList = " WHERE ".toList ++ text.toList := by
        rw [← String.toList_append, ← String.toList_append, ← hsql, htext]
      rw [← List.append_cancel_left hchars] at hlinks
      exact ⟨body, given, also, links, rfl, hdemands, htext, hlinks, hleaves, htruth⟩

end TableGate
