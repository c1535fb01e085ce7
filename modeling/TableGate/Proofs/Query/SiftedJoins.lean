import TableGate.Proofs.Query.DeletionTests
import TableGate.Proofs.Query.Understood
import TableGate.Proofs.Query.WhereReading

/-! # Joins that sift out deleted rows

What is known of joined tables in front of WHERE. Each join keeps it: a deleted row is among their rows only where
WHERE has its test, or where a RIGHT JOIN has kept it without a partner. -/

namespace TableGate

variable {db : Database} {scope : Scope}

/-! ## Joins of a query -/

/-- What a join of a query becomes, with the test that is left for the filter of the SELECT. Beside the test the
condition of a join compares one thing at most. -/
inductive JoinSpec.Becomes (scope : Scope) (spec : JoinSpec) : JoinClause → Option Atom → Prop
  | cross {r : Reference} {test : Option Atom} (hkind : spec.joinType = .cross)
      (htable : Reference.of? spec.table = .ok r) (htest : scope.AddsTest spec.table r true test) :
      spec.Becomes scope (.cross r) test
  | on {r : Reference} {compared filters : Chain} {test : Option Atom} (hkind : spec.joinType ≠ .cross)
      (htable : Reference.of? spec.table = .ok r) (htest : scope.AddsTest spec.table r true test)
      (hcompared : compared.length ≤ 1) :
      spec.Becomes scope (.on spec.joinType r compared filters test) none

theorem JoinSpec.comparedChain?_length {on : Option JoinOn} (hon : ∀ items, on ≠ some (.conditions items))
    {compared : Chain} (h : comparedChain? on = .ok compared) : compared.length ≤ 1 := by
  match on with
  | none =>
      cases h
      exact Nat.zero_le 1
  | some (.pair left right) =>
      simp only [comparedChain?, Except.bind_eq_ok, Except.pure_eq_ok] at h
      obtain ⟨l, -, r, -, rfl⟩ := h
      exact le_rfl
  | some (.conditions items) => exact absurd rfl (hon items)

theorem JoinSpec.becomes {spec : JoinSpec} (hon : ∀ items, spec.on ≠ some (.conditions items))
    {clause : JoinClause} {left : Option Atom} (h : spec.clause? scope = .ok (clause, left)) :
    spec.Becomes scope clause left := by
  simp only [clause?, Except.bind_eq_ok] at h
  obtain ⟨test, htest, r, hr, h⟩ := h
  have hadds := Scope.addsTest_join hr htest
  by_cases hkind : spec.joinType = .cross
  · rw [if_pos hkind] at h
    split at h
    · cases h
    · cases h
      exact .cross hkind hr hadds
  · rw [if_neg hkind] at h
    simp only [Except.bind_eq_ok] at h
    obtain ⟨compared, hcompared, filters, -, h⟩ := h
    split at h
    · cases h
    · cases h
      exact .on hkind hr hadds (comparedChain?_length hon hcompared)

/-! ## Rows of a join -/

namespace Relation

theorem extend?_on {rel rel' : Relation} {kind : JoinType} {r : Reference} {compared filters : Chain}
    {test : Option Atom} (h : rel.extend? db (.on kind r compared filters test) = some rel') :
    ∃ s, db.source? r = some s ∧
      (JoinClause.chain compared filters test).resolves (rel.sources ++ [s]) = true ∧
      rel' = rel.join kind s fun j => (JoinClause.chain compared filters test).holdsAt db j := by
  obtain ⟨s, hs, h⟩ := Option.bind_eq_some_iff.mp h
  by_cases hresolves : (JoinClause.chain compared filters test).resolves (rel.sources ++ [s]) = true
  · exact ⟨s, hs, hresolves, (Option.some.inj ((if_pos hresolves).symm.trans h)).symm⟩
  · cases (if_neg hresolves).symm.trans h

/-- A row of a join is a pair of rows that belong together, or a row that an outer join has kept. -/
theorem mem_rows_join {rel : Relation} {kind : JoinType} {s : Source} {belong : Joined → Bool} {j : Joined}
    (h : j ∈ (rel.join kind s belong).rows) :
    (∃ j₀ ∈ rel.rows, ∃ row ∈ s.table.rows, j = j₀ ++ [(s, some row)] ∧ belong j = true) ∨
      (∃ j₀ ∈ rel.rows, j = j₀ ++ [(s, none)]) ∨
      (kind = .right ∧ ∃ row ∈ s.table.rows, j = rel.blank ++ [(s, some row)]) := by
  rcases List.mem_append.mp h with h | h
  · obtain ⟨j₀, hj₀, h⟩ := List.mem_flatMap.mp h
    obtain ⟨h, hbelong⟩ := List.mem_filter.mp h
    obtain ⟨row, hrow, rfl⟩ := List.mem_map.mp h
    exact .inl ⟨j₀, hj₀, row, hrow, rfl, hbelong⟩
  · cases kind with
    | left =>
        obtain ⟨j₀, hj₀, rfl⟩ := List.mem_map.mp h
        exact .inr (.inl ⟨j₀, (List.mem_filter.mp hj₀).1, rfl⟩)
    | right =>
        obtain ⟨row, hrow, rfl⟩ := List.mem_map.mp h
        exact .inr (.inr ⟨rfl, row, (List.mem_filter.mp hrow).1, rfl⟩)
    | inner => cases h
    | cross => cases h

/-- A LEFT JOIN continues every row. -/
theorem exists_mem_rows_join_left {rel : Relation} {j : Joined} (hj : j ∈ rel.rows) (s : Source)
    (belong : Joined → Bool) : ∃ part, j ++ [(s, part)] ∈ (rel.join .left s belong).rows := by
  by_cases hany : ∃ row ∈ s.table.rows, belong (j ++ [(s, some row)]) = true
  · obtain ⟨row, hrow, hbelong⟩ := hany
    refine ⟨some row, List.mem_append_left _ (List.mem_flatMap.mpr ⟨j, hj, ?_⟩)⟩
    exact List.mem_filter.mpr ⟨List.mem_map_of_mem hrow, hbelong⟩
  · refine ⟨none, List.mem_append_right _ (List.mem_map_of_mem (List.mem_filter.mpr ⟨hj, ?_⟩))⟩
    simpa using hany

/-- A RIGHT JOIN keeps a row of its table that belongs to no other. -/
theorem mem_rows_join_right {rel : Relation} {s : Source} {belong : Joined → Bool} {row : Row}
    (hrow : row ∈ s.table.rows) (hnone : ∀ j ∈ rel.rows, belong (j ++ [(s, some row)]) = false) :
    rel.blank ++ [(s, some row)] ∈ (rel.join .right s belong).rows := by
  refine List.mem_append_right _ (List.mem_map_of_mem (List.mem_filter.mpr ⟨hrow, ?_⟩))
  simpa using hnone

end Relation

/-! ## One join after the other -/

/-- The source is the table that a text in a query stands for. -/
def Database.Places (db : Database) (text : String) (s : Source) : Prop :=
  ∃ r, Reference.of? text = .ok r ∧ db.source? r = some s

/-- The tables of a SELECT in order, each with the way in which it is joined to those before it. The first one
counts as a table in a cross join: no condition but that of WHERE is on it. -/
def SelectClauses.tables (c : SelectClauses) (table : String) : List (String × JoinType) :=
  (table, .cross) :: c.joins.map fun spec => (spec.table, spec.joinType)

/-- A row of a table may be seen beside others: it is not deleted, or it is kept by a RIGHT JOIN and there is
nothing from the tables before. -/
def Scope.Shows (scope : Scope) (text : String) (kind : JoinType) (before : Joined) (row : Row) : Prop :=
  scope.Live text row ∨ kind = .right ∧ ∀ part ∈ before, part.2 = Option.none

/-- The rows in a row of joined tables may be seen, as far as it is not up to WHERE. -/
def Scope.Sifts (scope : Scope) (tables : List (String × JoinType)) (j : Joined) : Prop :=
  ∀ n text kind s row, tables[n]? = some (text, kind) → j[n]? = some (s, some row) →
    kind = .cross ∨ scope.Shows text kind (j.take n) row

/-- What holds of joined tables in front of WHERE. -/
structure Relation.Sifted (db : Database) (scope : Scope) (tables : List (String × JoinType)) (rel : Relation) :
    Prop where
  placed : List.Forall₂ (fun t s => db.Places t.1 s) tables rel.sources
  whole : ∀ j ∈ rel.rows, j.map (·.1) = rel.sources
  stored : ∀ j ∈ rel.rows, ∀ part ∈ j, ∀ row ∈ part.2, row ∈ part.1.table.rows
  sifted : ∀ j ∈ rel.rows, scope.Sifts tables j

namespace Scope.Sifts

variable {tables : List (String × JoinType)} {j : Joined} {text : String} {kind : JoinType}

theorem append (h : scope.Sifts tables j) (hlength : j.length = tables.length) {s : Source} {part : Option Row}
    (hlast : ∀ row ∈ part, kind = .cross ∨ scope.Shows text kind j row) :
    scope.Sifts (tables ++ [(text, kind)]) (j ++ [(s, part)]) := by
  intro n text' kind' s' row htable hpart
  rcases Nat.lt_trichotomy n j.length with hn | hn | hn
  · rw [List.getElem?_append_left (hlength ▸ hn)] at htable
    rw [List.getElem?_append_left hn] at hpart
    rw [List.take_append_of_le_length hn.le]
    exact h n text' kind' s' row htable hpart
  · subst hn
    rw [hlength, List.getElem?_concat_length] at htable
    rw [List.getElem?_concat_length] at hpart
    cases htable
    cases hpart
    rw [List.take_left']
    · exact hlast row rfl
    · rfl
  · rw [List.getElem?_eq_none (by simp; omega)] at hpart
    cases hpart

theorem blank {rel : Relation} : scope.Sifts tables rel.blank := by
  intro n text kind s row _ hpart
  rw [Relation.blank, List.getElem?_map] at hpart
  obtain ⟨s', -, hsame⟩ := Option.map_eq_some_iff.mp hpart
  cases hsame

end Scope.Sifts

namespace Relation

variable {tables : List (String × JoinType)} {rel rel' : Relation}

theorem Sifted.single {text : String} {s : Source} (hs : db.Places text s) :
    (single s).Sifted db scope [(text, .cross)] where
  placed := .cons hs .nil
  whole := by
    intro j hj
    obtain ⟨row, -, rfl⟩ := List.mem_map.mp hj
    rfl
  stored := by
    intro j hj part hpart row hrow
    obtain ⟨row', hrow', rfl⟩ := List.mem_map.mp hj
    cases List.mem_singleton.mp hpart
    cases hrow
    exact hrow'
  sifted := by
    intro j hj n text' kind s row htable hpart
    cases n with
    | zero =>
        cases htable
        exact .inl rfl
    | succ n => cases htable

theorem Sifted.length_eq (h : rel.Sifted db scope tables) {j : Joined} (hj : j ∈ rel.rows) :
    j.length = tables.length := by
  rw [h.placed.length_eq, ← h.whole j hj, List.length_map]

/-- A join, of which a row can be a part only if it is not deleted, whatever rows it belongs to. -/
theorem Sifted.join (h : rel.Sifted db scope tables) {text : String} {s : Source} (hs : db.Places text s)
    {kind : JoinType} {belong : Joined → Bool}
    (hlive : ∀ j ∈ rel.rows, ∀ row ∈ s.table.rows, belong (j ++ [(s, some row)]) = true →
      kind = .cross ∨ scope.Live text row) :
    (rel.join kind s belong).Sifted db scope (tables ++ [(text, kind)]) where
  placed := List.rel_append h.placed (.cons hs .nil)
  whole := by
    intro j hj
    rcases mem_rows_join hj with ⟨j₀, hj₀, row, -, rfl, -⟩ | ⟨j₀, hj₀, rfl⟩ | ⟨-, row, -, rfl⟩
    · rw [List.map_append, h.whole j₀ hj₀]
      rfl
    · rw [List.map_append, h.whole j₀ hj₀]
      rfl
    · simp [blank, Relation.join, Function.comp_def]
  stored := by
    intro j hj part hpart row hrow
    rcases mem_rows_join hj with ⟨j₀, hj₀, row', hrow', rfl, -⟩ | ⟨j₀, hj₀, rfl⟩ | ⟨-, row', hrow', rfl⟩
    · rcases List.mem_append.mp hpart with hpart | hpart
      · exact h.stored j₀ hj₀ part hpart row hrow
      · cases List.mem_singleton.mp hpart
        cases hrow
        exact hrow'
    · rcases List.mem_append.mp hpart with hpart | hpart
      · exact h.stored j₀ hj₀ part hpart row hrow
      · cases List.mem_singleton.mp hpart
        cases hrow
    · rcases List.mem_append.mp hpart with hpart | hpart
      · obtain ⟨s', -, rfl⟩ := List.mem_map.mp hpart
        cases hrow
      · cases List.mem_singleton.mp hpart
        cases hrow
        exact hrow'
  sifted := by
    intro j hj
    rcases mem_rows_join hj with
      ⟨j₀, hj₀, row, hrow, rfl, hbelong⟩ | ⟨j₀, hj₀, rfl⟩ | ⟨rfl, row, -, rfl⟩
    · refine (h.sifted j₀ hj₀).append (h.length_eq hj₀) fun row' hrow' => ?_
      cases hrow'
      exact (hlive j₀ hj₀ row hrow hbelong).imp_right .inl
    · refine (h.sifted j₀ hj₀).append (h.length_eq hj₀) fun row hrow => ?_
      cases hrow
    · refine Scope.Sifts.blank.append ?_ fun row' _ => .inr (.inr ⟨rfl, ?_⟩)
      · rw [blank, List.length_map, h.placed.length_eq]
      · intro part hpart
        obtain ⟨s', -, rfl⟩ := List.mem_map.mp hpart
        rfl

/-- A row for which the condition of a join holds is not deleted. -/
theorem live_of_belongs (h : rel.Sifted db scope tables) {text : String} {r : Reference} {test : Option Atom}
    (htest : scope.AddsTest text r true test) {s : Source} (hs : db.source? r = some s)
    {compared filters : Chain} (hcompared : compared.length ≤ 1)
    (hresolves : (JoinClause.chain compared filters test).resolves (rel.sources ++ [s]) = true)
    {j : Joined} (hj : j ∈ rel.rows) {row : Row} (hrow : row ∈ s.table.rows)
    (hbelong : (JoinClause.chain compared filters test).holdsAt db (j ++ [(s, some row)]) = true) :
    scope.Live text row := by
  have hsources : (j ++ [(s, some row)]).map (·.1) = rel.sources ++ [s] := by
    rw [List.map_append, h.whole j hj]
    rfl
  refine htest.live hs hrow (List.mem_append_right j List.mem_cons_self) ?_
    (JoinClause.test_of_holdsAt hcompared hbelong)
  intro a ha
  rw [hsources]
  refine List.all_eq_true.mp hresolves a ?_
  rw [JoinClause.chain, Predicate.atomsOf_append, Predicate.atomsOf_append, Chain.atomsOf_ofAtoms]
  simp [Option.mem_def.mp ha]

theorem Sifted.extend (h : rel.Sifted db scope tables) {spec : JoinSpec} {clause : JoinClause}
    {left : Option Atom} (hspec : spec.Becomes scope clause left) (hrel : rel.extend? db clause = some rel') :
    rel'.Sifted db scope (tables ++ [(spec.table, spec.joinType)]) := by
  cases hspec with
  | @cross r test hkind htable htest =>
      obtain ⟨s, hs, rfl⟩ := Option.map_eq_some_iff.mp hrel
      rw [hkind]
      exact h.join ⟨r, htable, hs⟩ fun _ _ _ _ _ => .inl rfl
  | @on r compared filters test hkind htable htest hcompared =>
      obtain ⟨s, hs, hresolves, rfl⟩ := extend?_on hrel
      refine h.join ⟨r, htable, hs⟩ fun j hj row hrow hbelong => .inr ?_
      exact live_of_belongs h htest hs hcompared hresolves hj hrow hbelong

/-- One join after the other. -/
theorem Sifted.run {specs : List JoinSpec} {parts : List (JoinClause × Option Atom)}
    (hparts : List.Forall₂ (fun spec part => spec.Becomes scope part.1 part.2) specs parts) :
    ∀ {tables rel}, rel.Sifted db scope tables →
      (parts.map (·.1)).foldlM (Relation.extend? db) rel = some rel' →
      rel'.Sifted db scope (tables ++ specs.map fun spec => (spec.table, spec.joinType)) := by
  induction hparts with
  | nil =>
      intro tables rel h hrel
      cases hrel
      simpa using h
  | cons hspec _ ih =>
      intro tables rel h hrel
      obtain ⟨next, hnext, hrel⟩ := Option.bind_eq_some_iff.mp hrel
      have hall := ih (h.extend hspec hnext) hrel
      rwa [List.append_assoc] at hall

end Relation

end TableGate
