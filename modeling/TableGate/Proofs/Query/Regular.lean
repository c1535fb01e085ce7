import TableGate.Proofs.Query.Comparisons
import TableGate.Proofs.Query.Predicate
import TableGate.Proofs.Sql.Plain

/-! # Regular predicates

The columns in a predicate that was understood call nothing but aggregate functions. So nothing in its
template is the caller's own text, however deep the conditions are nested. -/

namespace TableGate

variable {mode : ValueMode}

/-! ## Predicates -/

def Operand.Regular : Operand → Prop
  | .column e => e.Regular
  | .value _ => True

/-- All column expressions in the atom are regular, and BETWEEN compares with a range only. -/
def Atom.Regular : Atom → Prop
  | .nullTest column _ => column.Regular
  | .compare column operator operand => operator ≠ .between ∧ column.Regular ∧ operand.Regular
  | .among column _ operands => column.Regular ∧ ∀ o ∈ operands, o.Regular
  | .between column low high => column.Regular ∧ low.Regular ∧ high.Regular
  | .constant _ => True
  | .search _ columns _ => ∀ e ∈ columns, e.Regular
  | .notDeleted column => column.expression.Regular

theorem Operand.plain {o : Operand} (h : o.Regular) : o.template.Plain := by
  cases o with
  | column e => exact ColumnExpr.plain h
  | value v => simp [Operand.template, Piece.Plain]

theorem Atom.plain_columnTemplates {columns : List ColumnExpr} (h : ∀ e ∈ columns, e.Regular) :
    (Atom.columnTemplates columns).Plain := by
  refine Template.plain_joined (by decide) fun t ht => ?_
  obtain ⟨e, he, rfl⟩ := List.mem_map.mp ht
  exact ColumnExpr.plain (h e he)

theorem Atom.plain_document {columns : List ColumnExpr} (h : ∀ e ∈ columns, e.Regular) :
    (Atom.document columns).Plain := by
  unfold Atom.document
  split
  · exact ColumnExpr.plain (h _ List.mem_cons_self)
  · simp +decide [Piece.Plain, Atom.plain_columnTemplates h]

theorem Atom.plain {a : Atom} (h : a.Regular) : a.template.Plain := by
  cases a with
  | nullTest column negated =>
      cases negated <;> simp +decide [Atom.template, Piece.Plain, ColumnExpr.plain h]
  | compare column operator operand =>
      cases operator <;>
        simp +decide [Atom.template, Operator.sql, Piece.Plain, ColumnExpr.plain h.2.1,
          Operand.plain h.2.2]
  | among column negated operands =>
      have hoperands : (Template.joined ", " (operands.map Operand.template)).Plain := by
        refine Template.plain_joined (by decide) fun t ht => ?_
        obtain ⟨o, ho, rfl⟩ := List.mem_map.mp ht
        exact Operand.plain (h.2 o ho)
      cases negated <;> simp +decide [Atom.template, Piece.Plain, ColumnExpr.plain h.1, hoperands]
  | between column low high =>
      simp +decide [Atom.template, Piece.Plain, ColumnExpr.plain h.1, Operand.plain h.2.1,
        Operand.plain h.2.2]
  | constant holds => cases holds <;> simp +decide [Atom.template, Piece.Plain]
  | search form columns term =>
      cases form <;>
        simp +decide [Atom.template, Atom.searchTemplate, Piece.Plain, Atom.plain_columnTemplates h,
          Atom.plain_document h]
  | notDeleted column => simp +decide [Atom.template, Piece.Plain, Reference.plain h]

theorem Connector.plain_sql (c : Connector) : Text.Plain (" " ++ c.sql ++ " ").toList := by
  cases c <;> decide

namespace Predicate

mutual

theorem plain : ∀ p : Predicate, (∀ a ∈ p.atoms, a.Regular) → p.template.Plain
  | .atom a => fun h => Atom.plain (h a (by simp [atoms]))
  | .group chain => by
      intro h
      have hchain := plain_chain chain (by simpa [atoms] using h)
      simp +decide [template, Piece.Plain, hchain]

/-- A chain of regular atoms, where it opens a clause. -/
theorem plain_chain : ∀ chain : Chain, (∀ a ∈ atomsOf chain, a.Regular) → (chainTemplate chain).Plain
  | [] => fun _ => Template.plain_nil
  | (c, p) :: rest => by
      intro h
      rw [atomsOf, List.forall_mem_append] at h
      exact Template.plain_append.mpr ⟨plain p h.1, plain_rest rest h.2⟩

/-- The same where it follows a predicate. -/
theorem plain_rest : ∀ chain : Chain, (∀ a ∈ atomsOf chain, a.Regular) → (restTemplate chain).Plain
  | [] => fun _ => Template.plain_nil
  | (c, p) :: rest => by
      intro h
      rw [atomsOf, List.forall_mem_append] at h
      exact Template.plain_text c.plain_sql
        (Template.plain_append.mpr ⟨plain p h.1, plain_rest rest h.2⟩)

end

end Predicate

/-- All atoms of the chain are regular. -/
def Chain.Regular (chain : Chain) : Prop :=
  ∀ a ∈ Predicate.atomsOf chain, a.Regular

theorem Chain.plain_enclosed {chain : Chain} (h : Chain.Regular chain) (wrapped : Bool) :
    (Chain.enclosed chain wrapped).Plain := by
  unfold Chain.enclosed
  split
  · exact Template.plain_parenthesized (Predicate.plain_chain chain h)
  · exact Predicate.plain_chain chain h

/-! ## Conditions that were understood -/

theorem Operand.regular_of_of? {column : String} {v : Value} {o : Operand}
    (h : Operand.of? mode column v = .ok o) : o.Regular := by
  unfold Operand.of? at h
  split at h <;> try contradiction
  · obtain ⟨e, he, rfl⟩ := Except.map_eq_ok.mp h
    exact ColumnExpr.regular_of_of? he
  · cases h
    trivial

theorem ConditionNode.regular_of_atom? {n : ConditionNode} {a : Atom} (h : n.atom? mode = .ok a) :
    a.Regular := by
  obtain ⟨op, e, -, he, hmeaning⟩ := ConditionNode.atom?_meaning h
  have hcolumn := ColumnExpr.regular_of_of? he
  cases hmeaning with
  | isNull | isNotNull | eqNull | neNull => exact hcolumn
  | constant => trivial
  | among hop hvalue hne hos =>
      refine ⟨hcolumn, fun o ho => ?_⟩
      obtain ⟨v, -, hv⟩ := Except.exists_of_mem_mapM hos ho
      exact Operand.regular_of_of? hv
  | between hvalue hlow hhigh => exact ⟨hcolumn, Operand.regular_of_of? hlow, Operand.regular_of_of? hhigh⟩
  | compare hop ho =>
      refine ⟨?_, hcolumn, Operand.regular_of_of? ho⟩
      rintro rfl
      simp at hop

theorem Condition.regular_of_chain? {cs : List Condition} {chain : Chain}
    (h : Condition.chain? mode cs = .ok chain) : Chain.Regular chain := by
  intro a ha
  have hatoms := Except.mapM_eq_ok.mpr (Condition.atoms_of_chain cs chain h)
  obtain ⟨n, -, hn⟩ := Except.exists_of_mem_mapM hatoms ha
  exact ConditionNode.regular_of_atom? hn

/-! ## Clauses that were understood -/

variable {d : Dialect} {scope : Scope}

theorem Scope.regular_of_qualifiedTest? {table column : String} {a : Atom}
    (h : Scope.qualifiedTest? table column = .ok a) : a.Regular := by
  obtain ⟨r, hr, rfl⟩ := Except.map_eq_ok.mp h
  exact Reference.regular_of_of? hr

theorem Scope.regular_of_joinTest? {table : String} {test : Option Atom}
    (h : scope.joinTest? table = .ok test) : ∀ a ∈ test, a.Regular := by
  unfold Scope.joinTest? at h
  split at h
  · obtain ⟨a, ha, rfl⟩ := Except.map_eq_ok.mp h
    simpa using Scope.regular_of_qualifiedTest? ha
  · cases h
    simp

theorem Scope.regular_of_sourceTest? {table : String} {joined : Bool} {test : Option Atom}
    (h : scope.sourceTest? table joined = .ok test) : ∀ a ∈ test, a.Regular := by
  unfold Scope.sourceTest? at h
  split at h
  · split at h
    · obtain ⟨a, ha, rfl⟩ := Except.map_eq_ok.mp h
      simpa using Scope.regular_of_qualifiedTest? ha
    · obtain ⟨n, -, rfl⟩ := Except.map_eq_ok.mp h
      simpa [Atom.Regular] using ColumnExpr.regular_ofName n
  · cases h
    simp

theorem FullTextSpec.regular_of_atom? {f : FullTextSpec} {a : Atom} (h : f.atom? d = .ok a) :
    a.Regular := by
  have hcolumns {columns : List ColumnExpr} (hmap : f.columns.mapM ColumnExpr.of? = .ok columns) :
      ∀ e ∈ columns, e.Regular := by
    intro e he
    obtain ⟨s, -, hs⟩ := Except.exists_of_mem_mapM hmap he
    exact ColumnExpr.regular_of_of? hs
  unfold FullTextSpec.atom? at h
  split at h
  · cases h
  · cases d with
    | sqlite => cases h
    | mysql | postgres =>
        simp only [Except.bind_eq_ok, Except.pure_eq_ok] at h
        obtain ⟨columns, hmap, rfl⟩ := h
        exact hcolumns hmap

theorem SelectClauses.regular_of_search? {c : SelectClauses} {search : Option Atom}
    (h : c.search? d = .ok search) : ∀ a ∈ search, a.Regular := by
  unfold SelectClauses.search? at h
  split at h
  · obtain ⟨a, ha, rfl⟩ := Except.map_eq_ok.mp h
    simpa using FullTextSpec.regular_of_atom? ha
  · cases h
    simp

theorem JoinSpec.regular_of_comparedChain? {on : Option JoinOn} {chain : Chain}
    (h : JoinSpec.comparedChain? on = .ok chain) : Chain.Regular chain := by
  match on with
  | none =>
      cases h
      exact List.forall_mem_nil _
  | some (.conditions items) => exact Condition.regular_of_chain? h
  | some (.pair left right) =>
      simp only [JoinSpec.comparedChain?, Except.bind_eq_ok, Except.pure_eq_ok] at h
      obtain ⟨l, hl, r, hr, rfl⟩ := h
      intro a ha
      rw [Predicate.atomsOf, Predicate.atomsOf, Predicate.atoms, List.append_nil,
        List.mem_singleton] at ha
      subst ha
      exact ⟨by decide, ColumnExpr.regular_of_of? hl, ColumnExpr.regular_of_of? hr⟩

theorem JoinClause.plain_condition {compared filters : Chain} {test : Option Atom}
    (hcompared : Chain.Regular compared) (hfilters : Chain.Regular filters)
    (htest : ∀ a ∈ test, a.Regular) : (JoinClause.condition compared filters test).Plain := by
  refine Template.plain_joined (by decide) fun t ht => ?_
  rcases List.mem_append.mp ht with ht | ht
  · rcases List.mem_append.mp ht with ht | ht
    · split at ht
      · cases ht
      · rw [List.mem_singleton.mp ht]
        exact Chain.plain_enclosed hcompared _
    · split at ht
      · cases ht
      · rw [List.mem_singleton.mp ht]
        exact Chain.plain_enclosed hfilters true
  · cases test with
    | none => cases ht
    | some a =>
        rw [List.mem_singleton.mp ht]
        exact Atom.plain (htest a rfl)

/-- A join that was understood, and the test that it hands on to the filter. -/
theorem JoinSpec.plain_of_clause? {j : JoinSpec} {clause : JoinClause} {test : Option Atom}
    (h : j.clause? scope = .ok (clause, test)) : clause.template.Plain ∧ ∀ a ∈ test, a.Regular := by
  simp only [JoinSpec.clause?, Except.bind_eq_ok] at h
  obtain ⟨joinTest, htest, r, hr, h⟩ := h
  have htable := Reference.plain_of_of? hr
  have hatoms := Scope.regular_of_joinTest? htest
  split at h
  · split at h
    · cases h
    · cases h
      refine ⟨?_, hatoms⟩
      simp +decide [JoinClause.template, Piece.Plain, htable]
  · simp only [Except.bind_eq_ok] at h
    obtain ⟨compared, hcompared, filters, hfilters, h⟩ := h
    split at h
    · cases h
    · cases h
      have hcondition := JoinClause.plain_condition (JoinSpec.regular_of_comparedChain? hcompared)
        (Condition.regular_of_chain? hfilters) hatoms
      have hkind : Text.Plain (j.joinType.sql ++ " ").toList := by cases j.joinType <;> decide
      refine ⟨Template.plain_text hkind ?_, by simp⟩
      simp +decide [Piece.Plain, htable, hcondition]

/-- The filter of a SELECT whose atoms are regular. -/
theorem Filter.plain {f : Filter} (hgiven : Chain.Regular f.given) (halso : ∀ a ∈ f.also, a.Regular) :
    f.template.Plain := by
  have hparts : ∀ t ∈ f.parts, Template.Plain t := by
    intro t ht
    rcases List.mem_append.mp ht with ht | ht
    · split at ht
      · cases ht
      · rw [List.mem_singleton.mp ht]
        exact Chain.plain_enclosed hgiven _
    · obtain ⟨a, ha, rfl⟩ := List.mem_map.mp ht
      exact Atom.plain (halso a ha)
  unfold Filter.template
  split
  · exact Template.plain_nil
  · exact Template.plain_text (by decide) (Template.plain_joined (by decide) hparts)

end TableGate
