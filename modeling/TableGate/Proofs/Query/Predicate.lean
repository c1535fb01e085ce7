import TableGate.Proofs.Query.BoundValues
import TableGate.Proofs.Sql.Column
import TableGate.Query.Predicate

/-! # Conditions carry the values that they bind

Understanding a condition keeps its values in order. Where values are references to columns nothing is
bound. -/

namespace TableGate

open Template

variable {d : Dialect} {mode : ValueMode}

/-- The values that are bound where values are understood in the given way. -/
def ValueMode.bound (mode : ValueMode) (vs : List Value) : List Value :=
  match mode with
  | .parameter => vs
  | .column => []

@[simp] theorem ValueMode.bound_nil (mode : ValueMode) : mode.bound [] = [] := by
  cases mode <;> rfl

theorem ValueMode.bound_append (mode : ValueMode) (vs ws : List Value) :
    mode.bound (vs ++ ws) = mode.bound vs ++ mode.bound ws := by
  cases mode <;> rfl

theorem ValueMode.flatten_bound (mode : ValueMode) (vs : List Value) :
    (vs.map fun v => mode.bound [v]).flatten = mode.bound vs := by
  cases mode with
  | parameter => induction vs <;> simp_all [ValueMode.bound]
  | column => simp [ValueMode.bound]

/-! ## Operands -/

theorem Operand.carries {column : String} {v : Value} {o : Operand}
    (h : Operand.of? mode column v = .ok o) : Carries d (mode.bound [v]) o.template := by
  unfold Operand.of? at h
  split at h <;> try contradiction
  · obtain ⟨e, he, rfl⟩ := Except.map_eq_ok.mp h
    exact ColumnExpr.carries he
  · rename_i harray hobject hnull
    cases h
    refine carries_nil.param ?_ opens_nil
    cases v <;> simp_all [Value.isScalar]

/-- Null is no operand, whatever values stand for. -/
theorem Operand.isNull_eq_false {column : String} {v : Value} {o : Operand}
    (h : Operand.of? mode column v = .ok o) : v.isNull = false := by
  cases v with
  | null => cases mode <;> cases h
  | _ => rfl

theorem Operand.carries_mapM {column : String} {vs : List Value} {os : List Operand}
    (h : vs.mapM (Operand.of? mode column) = .ok os) :
    Carries d (mode.bound vs) (joined ", " (os.map Operand.template)) := by
  rw [← mode.flatten_bound]
  refine Carries.joined (by decide) (by decide) ?_
  rw [List.forall₂_map_left_iff, List.forall₂_map_right_iff]
  exact (Except.mapM_eq_ok.mp h).imp fun v o ho => Operand.carries ho

/-! ## Comparisons -/

theorem Atom.carries_nullTest {e : ColumnExpr} (he : Carries d [] e.template) (negated : Bool) :
    Carries d [] (Atom.nullTest e negated).template := by
  cases negated
  · exact he.append (carries_nil.text (by decide)) (opens_text (by decide))
  · exact he.append (carries_nil.text (by decide)) (opens_text (by decide))

theorem Operator.unmarked_sql (op : Operator) : Unmarked (" " ++ op.sql ++ " ") := by
  cases op <;> decide

theorem Atom.carries_compare {e : ColumnExpr} (he : Carries d [] e.template) (op : Operator)
    {vs : List Value} {o : Operand} (ho : Carries d vs o.template) :
    Carries d vs (Atom.compare e op o).template := by
  have hopens : opensWithoutDigit (" " ++ op.sql ++ " ") = true := by cases op <;> decide
  exact he.append (ho.text op.unmarked_sql) (opens_text hopens)

theorem Atom.carries_among {e : ColumnExpr} (he : Carries d [] e.template) (negated : Bool)
    {vs : List Value} {os : List Operand}
    (hos : Carries d vs (joined ", " (os.map Operand.template))) :
    Carries d vs (Atom.among e negated os).template := by
  have hlist : Carries d vs (joined ", " (os.map Operand.template) ++ [.text ")"]) := by
    simpa using hos.append (carries_nil.text (by decide)) (opens_text (by decide))
  simp only [Atom.template, List.append_assoc, List.cons_append]
  cases negated
  · exact he.append (hlist.text (by decide)) (opens_text (by decide))
  · exact he.append (hlist.text (by decide)) (opens_text (by decide))

theorem Atom.carries_between {e : ColumnExpr} (he : Carries d [] e.template) {vs ws : List Value}
    {low high : Operand} (hlow : Carries d vs low.template) (hhigh : Carries d ws high.template) :
    Carries d (vs ++ ws) (Atom.between e low high).template := by
  have hrange := hlow.append (hhigh.text (x := " AND ") (by decide)) (opens_text (by decide))
  simp only [Atom.template, List.append_assoc, List.cons_append]
  exact he.append (hrange.text (by decide)) (opens_text (by decide))

theorem Atom.carries_constant (holds : Bool) : Carries d [] (Atom.constant holds).template := by
  cases holds <;> exact carries_nil.text (by decide)

/-! ## What a comparison can be understood as -/

/-- The atoms that a comparison of a column stands for under its operator. -/
inductive ConditionNode.Meaning (mode : ValueMode) (n : ConditionNode) (e : ColumnExpr) :
    Operator → Atom → Prop where
  | isNull : Meaning mode n e .isNull (.nullTest e false)
  | isNotNull : Meaning mode n e .isNotNull (.nullTest e true)
  | among {op items os} (hop : op = .isIn ∨ op = .notIn) (hvalue : n.value = .array items)
      (hne : items ≠ []) (hos : items.mapM (Operand.of? mode n.column) = .ok os) :
      Meaning mode n e op (.among e (op = .notIn) os)
  | constant {op} (hop : op = .isIn ∨ op = .notIn) (hvalue : n.value = .array []) :
      Meaning mode n e op (.constant (op = .notIn))
  | between {low high lo hi} (hvalue : n.value = .array [low, high])
      (hlow : Operand.of? mode n.column low = .ok lo)
      (hhigh : Operand.of? mode n.column high = .ok hi) :
      Meaning mode n e .between (.between e lo hi)
  | eqNull (hmode : mode = .parameter) (hvalue : n.value.isNull = true) :
      Meaning mode n e .eq (.nullTest e false)
  | neNull (hmode : mode = .parameter) (hvalue : n.value.isNull = true) :
      Meaning mode n e .ne (.nullTest e true)
  | compare {op o} (hop : op ∈ [.eq, .ne, .gt, .gte, .lt, .lte, .like, .notLike])
      (ho : Operand.of? mode n.column n.value = .ok o) : Meaning mode n e op (.compare e op o)

theorem ConditionNode.atom?_meaning {n : ConditionNode} {a : Atom} (h : n.atom? mode = .ok a) :
    ∃ op e, Operator.ofText? n.operator = some op ∧ ColumnExpr.of? n.column = .ok e ∧
      n.Meaning mode e op a := by
  unfold ConditionNode.atom? at h
  split at h
  · cases h
  · rename_i op hop
    simp only [Except.bind_eq_ok] at h
    obtain ⟨e, he, h⟩ := h
    refine ⟨op, e, hop, he, ?_⟩
    split at h
    · exact Except.pure_eq_ok.mp h ▸ .isNull
    · exact Except.pure_eq_ok.mp h ▸ .isNotNull
    · split at h
      · rename_i hvalue
        exact Except.pure_eq_ok.mp h ▸ .constant (.inl rfl) hvalue
      · rename_i items hne hvalue
        simp only [Except.bind_eq_ok, Except.pure_eq_ok] at h
        obtain ⟨os, hos, rfl⟩ := h
        exact .among (.inl rfl) hvalue hne hos
      · cases h
    · split at h
      · rename_i hvalue
        exact Except.pure_eq_ok.mp h ▸ .constant (.inr rfl) hvalue
      · rename_i items hne hvalue
        simp only [Except.bind_eq_ok, Except.pure_eq_ok] at h
        obtain ⟨os, hos, rfl⟩ := h
        exact .among (.inr rfl) hvalue hne hos
      · cases h
    · split at h
      · rename_i low high hvalue
        simp only [Except.bind_eq_ok, Except.pure_eq_ok] at h
        obtain ⟨lo, hlow, hi, hhigh, rfl⟩ := h
        exact .between hvalue hlow hhigh
      · cases h
      · cases h
    · rename_i hisNull hisNotNull hisIn hnotIn hbetween
      split at h
      · rename_i hnull
        simp only [Bool.and_eq_true, decide_eq_true_eq] at hnull
        obtain ⟨⟨rfl, hvalue⟩, hmode⟩ := hnull
        exact Except.pure_eq_ok.mp h ▸ .eqNull hmode hvalue
      · split at h
        · rename_i hnull
          simp only [Bool.and_eq_true, decide_eq_true_eq] at hnull
          obtain ⟨⟨rfl, hvalue⟩, hmode⟩ := hnull
          exact Except.pure_eq_ok.mp h ▸ .neNull hmode hvalue
        · simp only [Except.bind_eq_ok, Except.pure_eq_ok] at h
          obtain ⟨o, ho, rfl⟩ := h
          refine .compare ?_ ho
          cases op <;> simp_all

/-- A comparison that was understood carries the values that it binds. -/
theorem ConditionNode.carries {n : ConditionNode} {a : Atom} (h : n.atom? mode = .ok a) :
    Carries d (mode.bound n.boundValues) a.template := by
  obtain ⟨op, e, hop, he, hmeaning⟩ := ConditionNode.atom?_meaning h
  have hcolumn : Carries d [] e.template := ColumnExpr.carries he
  unfold ConditionNode.boundValues
  rw [hop]
  cases hmeaning with
  | isNull => simpa using Atom.carries_nullTest hcolumn false
  | isNotNull => simpa using Atom.carries_nullTest hcolumn true
  | among hop hvalue hne hos =>
      have hlist := Atom.carries_among (d := d) hcolumn (decide (op = .notIn)) (Operand.carries_mapM hos)
      rcases hop with rfl | rfl <;> simpa [hvalue, Value.items] using hlist
  | constant hop hvalue =>
      rcases hop with rfl | rfl <;> simpa [hvalue, Value.items] using Atom.carries_constant _
  | between hvalue hlow hhigh =>
      have hrange := Atom.carries_between (d := d) hcolumn (Operand.carries hlow) (Operand.carries hhigh)
      rw [← mode.bound_append] at hrange
      simpa [hvalue, Value.items] using hrange
  | eqNull hmode hvalue => simpa [hvalue] using Atom.carries_nullTest hcolumn false
  | neNull hmode hvalue => simpa [hvalue] using Atom.carries_nullTest hcolumn true
  | compare hop ho =>
      have hvalue := Operand.isNull_eq_false ho
      have hatom := Atom.carries_compare (d := d) hcolumn op (Operand.carries ho)
      cases op <;> simp_all

/-! ## Chains -/

theorem Connector.unmarked_sql (c : Connector) : Unmarked (" " ++ c.sql ++ " ") := by
  cases c <;> decide

theorem Predicate.opens_restTemplate (rest : Chain) : Opens d (Predicate.restTemplate rest) := by
  cases rest with
  | nil => exact opens_nil
  | cons link rest =>
      obtain ⟨c, p⟩ := link
      have hopens : opensWithoutDigit (" " ++ c.sql ++ " ") = true := by cases c <;> decide
      exact opens_text hopens

theorem Predicate.carries_group {vs : List Value} {chain : Chain}
    (h : Carries d vs (Predicate.chainTemplate chain)) :
    Carries d vs (Predicate.group chain).template := by
  have hclosed := h.append (carries_nil.text (x := ")") (by decide)) (opens_text (by decide))
  simpa [Predicate.template] using hclosed.text (x := "(") (by decide)

mutual

/-- A condition that was understood carries the values that it binds. -/
theorem Condition.carries_predicate : ∀ (c : Condition) (p : Predicate), c.predicate? mode = .ok p →
    Carries d (mode.bound c.boundValues) p.template
  | .node n => by
      intro p h
      rw [Condition.predicate?] at h
      obtain ⟨a, ha, rfl⟩ := Except.map_eq_ok.mp h
      rw [Predicate.template, Condition.boundValues]
      exact ConditionNode.carries ha
  | .group items _ => by
      intro p h
      cases items with
      | nil =>
          rw [Condition.predicate?] at h
          cases h
      | cons item items =>
          rw [Condition.predicate?] at h
          · obtain ⟨chain, hchain, rfl⟩ := Except.map_eq_ok.mp h
            rw [Condition.boundValues]
            exact Predicate.carries_group (Condition.carries_chain _ chain hchain).1
          · simp

/-- The same of a list of conditions, where it opens a chain and where it follows another one. -/
theorem Condition.carries_chain : ∀ (cs : List Condition) (chain : Chain),
    Condition.chain? mode cs = .ok chain →
      Carries d (mode.bound (Condition.boundValuesOf cs)) (Predicate.chainTemplate chain) ∧
        Carries d (mode.bound (Condition.boundValuesOf cs)) (Predicate.restTemplate chain)
  | [] => by
      intro chain h
      rw [Condition.chain?] at h
      cases h
      simp only [Condition.boundValuesOf, ValueMode.bound_nil]
      exact ⟨carries_nil, carries_nil⟩
  | c :: cs => by
      intro chain h
      simp only [Condition.chain?, Except.bind_eq_ok, Except.pure_eq_ok] at h
      obtain ⟨first, hfirst, rest, hrest, rfl⟩ := h
      have hboth := (Condition.carries_predicate c first hfirst).append
        (Condition.carries_chain cs rest hrest).2 (Predicate.opens_restTemplate (d := d) rest)
      rw [← mode.bound_append] at hboth
      refine ⟨hboth, ?_⟩
      have hlinked := hboth.text c.boolean.unmarked_sql
      simpa [Predicate.restTemplate, Condition.boundValuesOf] using hlinked

end

theorem Condition.boundValuesOf_eq_nil {cs : List Condition} {chain : Chain}
    (h : Condition.chain? mode cs = .ok chain) (hempty : chain.isEmpty = true) :
    Condition.boundValuesOf cs = [] := by
  cases cs with
  | nil => rfl
  | cons c cs =>
      simp only [Condition.chain?, Except.bind_eq_ok, Except.pure_eq_ok] at h
      obtain ⟨_, _, _, _, rfl⟩ := h
      simp at hempty

end TableGate
