import TableGate.Proofs.Query.SafeText
import TableGate.Proofs.Query.WhereReading
import TableGate.Proofs.Vault.Searched

/-! # The filter of a write

The conditions of a write are asked of the stored table, and become the chain of predicates behind its WHERE. None
of them is lost on the way, and the text is read back as that chain. -/

namespace TableGate

open Template Formula

/-! ## From conditions to predicates -/

mutual

/-- The predicate is that of the condition, or of what becomes of it when it is asked of the stored table. A group
has all predicates of its conditions in it. -/
inductive Vault.Renders (v : Vault) (columns : List EncryptedColumn) : Condition → Predicate → Prop
  | node {n m : ConditionNode} {a : Atom} (hsearched : v.Searched columns n m)
      (hatom : m.atom? .parameter = .ok a) : v.Renders columns (.node n) (.atom a)
  | group {items : List Condition} {boolean : Connector} {chain : Chain}
      (hitems : v.RendersAll columns items chain) : v.Renders columns (.group items boolean) (.group chain)

/-- The chain has a predicate for each of the conditions, in their order and with their connectors. -/
inductive Vault.RendersAll (v : Vault) (columns : List EncryptedColumn) : List Condition → Chain → Prop
  | nil : v.RendersAll columns [] []
  | cons {c : Condition} {cs : List Condition} {p : Predicate} {chain : Chain} (hfirst : v.Renders columns c p)
      (hrest : v.RendersAll columns cs chain) : v.RendersAll columns (c :: cs) ((c.boolean, p) :: chain)

end

namespace Vault

variable {v : Vault} {columns : List EncryptedColumn}

mutual

theorem renders : ∀ (c searched : Condition) (p : Predicate), v.searchCondition columns c = .ok searched →
    searched.predicate? .parameter = .ok p → v.Renders columns c p ∧ searched.boolean = c.boolean
  | .node n => by
      intro searched p hsearched hp
      simp only [searchCondition, Except.bind_eq_ok, Except.pure_eq_ok] at hsearched
      obtain ⟨m, hm, rfl⟩ := hsearched
      rw [Condition.predicate?] at hp
      obtain ⟨a, ha, rfl⟩ := Except.map_eq_ok.mp hp
      have hnode := searched_of_searchNode hm
      refine ⟨.node hnode ha, ?_⟩
      cases hnode <;> rfl
  | .group items boolean => by
      intro searched p hsearched hp
      simp only [searchCondition, Except.bind_eq_ok, Except.pure_eq_ok] at hsearched
      obtain ⟨found, hfound, rfl⟩ := hsearched
      unfold Condition.predicate? at hp
      split at hp
      · rename_i hgroup
        cases hgroup
      · cases hp
      · rename_i hgroup
        cases hgroup
        obtain ⟨chain, hchain, rfl⟩ := Except.map_eq_ok.mp hp
        exact ⟨.group (rendersAll items found chain hfound hchain), rfl⟩

theorem rendersAll : ∀ (cs searched : List Condition) (chain : Chain), v.searchAll columns cs = .ok searched →
    Condition.chain? .parameter searched = .ok chain → v.RendersAll columns cs chain
  | [] => by
      intro searched chain hsearched hchain
      cases hsearched
      cases hchain
      exact .nil
  | c :: cs => by
      intro searched chain hsearched hchain
      simp only [searchAll, Except.bind_eq_ok, Except.pure_eq_ok] at hsearched
      obtain ⟨first, hfirst, rest, hrest, rfl⟩ := hsearched
      simp only [Condition.chain?, Except.bind_eq_ok, Except.pure_eq_ok] at hchain
      obtain ⟨p, hp, more, hmore, rfl⟩ := hchain
      obtain ⟨hrenders, hboolean⟩ := renders c first p hfirst hp
      rw [hboolean]
      exact .cons hrenders (rendersAll cs rest more hrest hmore)

end

end Vault

/-! ## One more predicate beside a chain -/

/-- The chain and the atom as one chain that holds where both do: the chain is in parentheses unless it is a single
comparison. -/
inductive Chain.Beside (chain : Chain) (a : Atom) : Chain → Prop
  | comparison {c : Connector} {b : Atom} (h : chain = [(c, .atom b)]) :
      chain.Beside a [(c, .atom b), (.and, .atom a)]
  | group : chain.Beside a [(.and, .group chain), (.and, .atom a)]

namespace Write

theorem narrowed_ne_nil {searched : List Condition} {scope : Condition} : narrowed searched scope ≠ [] := by
  unfold narrowed
  split <;> exact List.cons_ne_nil _ _

/-- Conditions with one more that has to hold beside them become a chain with one more atom. -/
theorem narrowed_chain {searched : List Condition} (hne : searched ≠ []) {scope : Condition} {a : Atom}
    (hscope : scope.predicate? .parameter = .ok (.atom a)) (hboolean : scope.boolean = .and) {whole : Chain}
    (h : Condition.chain? .parameter (narrowed searched scope) = .ok whole) :
    ∃ chain, Condition.chain? .parameter searched = .ok chain ∧ chain.Beside a whole := by
  have hpair {first : Condition}
      (h : Condition.chain? .parameter [first, scope] = .ok whole) :
      ∃ p, first.predicate? .parameter = .ok p ∧ whole = [(first.boolean, p), (.and, .atom a)] := by
    simp only [Condition.chain?, hscope, hboolean, Except.bind_eq_ok, Except.pure_eq_ok, Except.ok.injEq] at h
    obtain ⟨p, hp, _, ⟨_, rfl, _, rfl, rfl⟩, rfl⟩ := h
    exact ⟨p, hp, rfl⟩
  unfold narrowed at h
  split at h
  · exact absurd rfl hne
  · rename_i n
    obtain ⟨p, hp, rfl⟩ := hpair h
    rw [Condition.predicate?] at hp
    obtain ⟨b, hb, rfl⟩ := Except.map_eq_ok.mp hp
    refine ⟨[(n.boolean, .atom b)], ?_, .comparison rfl⟩
    simp only [Condition.chain?, Condition.predicate?, hb, Except.bind_eq_ok, Except.pure_eq_ok]
    exact ⟨_, rfl, _, rfl, rfl⟩
  · obtain ⟨p, hp, rfl⟩ := hpair h
    unfold Condition.all Condition.predicate? at hp
    split at hp
    · rename_i hgroup
      cases hgroup
    · cases hp
    · rename_i hgroup
      cases hgroup
      obtain ⟨chain, hchain, rfl⟩ := Except.map_eq_ok.mp hp
      exact ⟨chain, hchain, .group⟩

theorem predicate_isNull (n : Identifier) :
    (Condition.isNull n.text).predicate? .parameter = .ok (.atom (.nullTest (.ofName n) false)) := by
  have hoperator : Operator.ofText? "IS NULL" = some .isNull := by decide +kernel
  rw [Condition.isNull, Condition.compare, Condition.predicate?, ConditionNode.atom?]
  simp only [hoperator, ColumnExpr.of?_name]
  rfl

theorem predicate_isNotNull (n : Identifier) :
    (Condition.isNotNull n.text).predicate? .parameter = .ok (.atom (.nullTest (.ofName n) true)) := by
  have hoperator : Operator.ofText? "IS NOT NULL" = some .isNotNull := by decide +kernel
  rw [Condition.isNotNull, Condition.compare, Condition.predicate?, ConditionNode.atom?]
  simp only [hoperator, ColumnExpr.of?_name]
  rfl

/-- What chooses the rows of a write. -/
def filter : Write → Chain
  | .update _ _ filter => filter
  | .delete _ filter => filter
  | _ => []

/-- The text of a write goes on with WHERE, and from what stands behind that the filter is read back: its atoms
in their order, and whatever their truth, that of the whole. -/
def ReadsBack (d : Dialect) (w : Write) : Prop :=
  ∃ front text links, w.template d = front ++ .text " WHERE " :: Predicate.chainTemplate w.filter ∧
    (w.statement d).sql = printFrom d 1 front ++ " WHERE " ++ text ∧
    Formula.read? (Text.tokens text.toList) = some links ∧
    leavesOf links = Atom.readings d (1 + (params front).length) (Predicate.atomsOf w.filter) ∧
    ∀ v, truthOf v links = truthOf v (Predicate.formulas w.filter)

theorem readsBack {d : Dialect} {w : Write} {front : Template}
    (hw : w.template d = front ++ whereTemplate w.filter) {cs : List Condition} (hne : cs ≠ [])
    (hchain : Condition.chain? .parameter cs = .ok w.filter) : w.ReadsBack d := by
  have hfilter : w.filter ≠ [] := mt (Condition.chain_eq_nil hchain).mp hne
  obtain ⟨hfilled, -, -⟩ := Condition.agrees_chain cs w.filter hchain
  have hwhere : whereTemplate w.filter = .text " WHERE " :: Predicate.chainTemplate w.filter := by
    rw [whereTemplate, if_neg (by simpa using hfilter)]
  rw [hwhere] at hw
  obtain ⟨ts, row, hts, hparses, hback⟩ := Predicate.reads_chain (d := d) w.filter hfilter hfilled
    (Condition.regular_of_chain? hchain) (1 + (params front).length)
  refine ⟨front, printFrom d (1 + (params front).length) (Predicate.chainTemplate w.filter), headed .and row, hw,
    ?_, ?_, ?_, fun v => ?_⟩
  · have hsql : (w.statement d).sql = printFrom d 1 (w.template d) := rfl
    rw [hsql, hw, printFrom_append, printFrom, String.append_assoc]
  · rw [hts.tokens_printFrom, hparses.read?]
  · rw [leavesOf_headed, hback.leaves]
  · rw [truthOf, chain_headed, hback.links, truthOf]

end Write

end TableGate
