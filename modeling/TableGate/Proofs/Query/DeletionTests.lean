import TableGate.Proofs.Json.Value
import TableGate.Proofs.Query.JoinedRows
import TableGate.Proofs.Query.SoftDelete
import TableGate.Proofs.Vault.BaseTable

/-! # Tests for deleted rows

What a scope's test for a table says of the rows of joined tables, in WHERE and in the condition of a join. -/

namespace TableGate

/-- The row of a table is not marked as deleted, in the column that the scope has for the table. -/
def Scope.Live (scope : Scope) (table : String) (row : Row) : Prop :=
  ∀ column ∈ scope (Text.splitAlias table).1, row.value column = .null

instance (scope : Scope) (table : String) (row : Row) : Decidable (scope.Live table row) :=
  inferInstanceAs (Decidable (∀ column ∈ scope (Text.splitAlias table).1, row.value column = .null))

variable {db : Database} {scope : Scope}

/-! ## Conjunctions -/

namespace Truth

theorem and_eq_yes {t u : Truth} : t.and u = .yes ↔ t = .yes ∧ u = .yes := by
  cases t <;> cases u <;> simp [Truth.and]

theorem all_eq_yes {ts : List Truth} : all ts = .yes ↔ ∀ t ∈ ts, t = .yes := by
  induction ts with
  | nil => simp [all]
  | cons t ts ih => rw [all, List.foldr_cons, ← all, and_eq_yes, ih, List.forall_mem_cons]

theorem ofNullTest_eq_yes {x : Value} : ofNullTest false x = .yes ↔ x = .null := by
  cases x <;> simp [ofNullTest, Value.isNull, ofBool]

end Truth

namespace Chain

/-- The predicates of the chain are joined by AND only. -/
def Conjoined (chain : Chain) : Prop :=
  ∀ link ∈ chain.tail, link.1 = .and

/-- A conjunction holds if and only if all its predicates do. -/
theorem holdsAt_iff {chain : Chain} (h : chain.Conjoined) (j : Joined) :
    chain.holdsAt db j = true ↔ ∀ link ∈ chain, link.2.truth (Atom.truthAt db j) = .yes := by
  rw [holdsAt, decide_eq_true_eq, Predicate.truthOf]
  cases chain with
  | nil => simp [Predicate.links, Truth.chain]
  | cons link rest =>
      obtain ⟨c, p⟩ := link
      have hrest : Predicate.links (Atom.truthAt db j) rest =
          (rest.map fun link => link.2.truth (Atom.truthAt db j)).map fun t => (Connector.and, t) := by
        have hand : ∀ link ∈ rest, link.1 = .and := h
        clear h
        induction rest with
        | nil => rfl
        | cons next rest ih =>
            obtain ⟨c', p'⟩ := next
            obtain ⟨rfl, hmore⟩ := List.forall_mem_cons.mp hand
            rw [Predicate.links, ih hmore, List.map_cons, List.map_cons]
      rw [Predicate.links, Truth.chain, hrest, Truth.runOf_and, Truth.and_eq_yes, Truth.all_eq_yes,
        List.forall_mem_map, List.forall_mem_cons]

theorem conjoined_of_forall {chain : Chain} (h : ∀ link ∈ chain, link.1 = .and) : chain.Conjoined :=
  fun link hlink => h link (List.mem_of_mem_tail hlink)

theorem and_ofAtoms (atoms : List Atom) : ∀ link ∈ ofAtoms atoms, link.1 = .and := by
  intro link hlink
  obtain ⟨a, -, rfl⟩ := List.mem_map.mp hlink
  rfl

theorem length_wrap (chain : Chain) : (chain.wrap true).length ≤ 1 := by
  unfold wrap
  split
  · exact le_rfl
  · rename_i hseveral
    simpa using hseveral

theorem wrap_of_length {chain : Chain} (h : chain.length ≤ 1) (wrapped : Bool) :
    chain.wrap wrapped = chain := by
  rw [wrap, if_neg]
  simp [Nat.not_lt.mpr h]

/-- A chain of at most one predicate before conjoined ones. -/
theorem conjoined_append {chain rest : Chain} (h : chain.length ≤ 1) (hrest : ∀ link ∈ rest, link.1 = .and) :
    (chain ++ rest).Conjoined := by
  match chain, h with
  | [], _ => exact conjoined_of_forall hrest
  | [link], _ => exact hrest

end Chain

/-- The test in the condition of a join, beside what one predicate compares. -/
theorem JoinClause.test_of_holdsAt {compared filters : Chain} {test : Option Atom} {j : Joined}
    (hcompared : compared.length ≤ 1) (h : (chain compared filters test).holdsAt db j = true) :
    ∀ a ∈ test, a.truthAt db j = .yes := by
  have hfilters : ∀ link ∈ headed .and (filters.wrap true), link.1 = Connector.and := by
    match hwrap : filters.wrap true, filters.length_wrap with
    | [], _ => simp [headed]
    | [link], _ => simp [headed]
  have hconjoined : (chain compared filters test).Conjoined := by
    rw [chain, Chain.wrap_of_length hcompared]
    exact Chain.conjoined_append hcompared
      (List.forall_mem_append.mpr ⟨hfilters, Chain.and_ofAtoms _⟩)
  intro a ha
  have hmem : (Connector.and, Predicate.atom a) ∈ chain compared filters test := by
    have hatom : (Connector.and, Predicate.atom a) ∈ Chain.ofAtoms test.toList :=
      List.mem_map_of_mem (Option.mem_toList.mpr ha)
    simp [chain, hatom]
  exact (Chain.holdsAt_iff hconjoined j).mp h _ hmem

namespace Filter

theorem conjoined_chain {f : Filter} (h : f.also ≠ []) : f.chain.Conjoined := by
  have hhead : f.head.length ≤ 1 := by
    have hwrap : f.head = f.given.wrap true := by simp [head, Chain.wrap, h]
    rw [hwrap]
    exact f.given.length_wrap
  exact Chain.conjoined_append hhead (Chain.and_ofAtoms _)

/-- What a filter demands beside its conditions holds for the rows that it keeps. -/
theorem also_of_holdsAt {f : Filter} {j : Joined} (h : f.chain.holdsAt db j = true) :
    ∀ a ∈ f.also, a.truthAt db j = .yes := by
  intro a ha
  have hconjoined := conjoined_chain (List.ne_nil_of_mem ha)
  have hmem : (Connector.and, Predicate.atom a) ∈ f.chain :=
    List.mem_append_right _ (List.mem_map_of_mem ha)
  exact (Chain.holdsAt_iff hconjoined j).mp h _ hmem

/-- Without conditions a filter keeps the rows for which all else holds. -/
theorem holdsAt_of_also {f : Filter} {j : Joined} (hgiven : f.given = [])
    (h : ∀ a ∈ f.also, a.truthAt db j = .yes) : f.chain.holdsAt db j = true := by
  have hchain : f.chain = Chain.ofAtoms f.also := by
    rw [chain, head_eq_nil.mpr hgiven, List.nil_append]
  rw [hchain, Chain.holdsAt_iff (Chain.conjoined_of_forall (Chain.and_ofAtoms _))]
  intro link hlink
  obtain ⟨a, ha, rfl⟩ := List.mem_map.mp hlink
  exact h a ha

end Filter

/-! ## Single tests -/

/-- Whatever name a column of the table has in it, its value in a row of the table is null unless the table has
the column. -/
theorem Table.value_eq_null {t : Table} {row : Row} (hrow : row ∈ t.rows) {column : String}
    (h : column ∉ t.columns.map (·.text)) : row.value column = .null := by
  cases hvalue : row.get? column with
  | none => rw [Row.value, hvalue, Option.getD_none]
  | some x =>
      obtain ⟨front, back, hentries, -⟩ := List.lookup_eq_some_iff.mp hvalue
      have hname : column ∈ row.names := by simp [NameMap.names, hentries]
      exact absurd (t.fits row hrow column hname) h

/-- A path that leads to one table only leads to the row that the table has in there. -/
theorem Joined.value_eq {j : Joined} {s : Source} {part : Option Row} (hpart : (s, part) ∈ j)
    {names : List Identifier} {n : Identifier} (hhas : s.has (names ++ [n]) = true)
    (hone : (j.map (·.1)).countP (·.has (names ++ [n])) = 1) :
    j.value (names ++ [n]) = (part.map (·.value n.text)).getD .null := by
  have hlength : (j.filter fun part => part.1.has (names ++ [n])).length = 1 := by
    rw [← List.countP_eq_length_filter, ← hone, List.countP_map]
    rfl
  obtain ⟨only, honly⟩ := List.length_eq_one_iff.mp hlength
  have hsame : (s, part) = only := by
    have hmem : (s, part) ∈ j.filter fun part => part.1.has (names ++ [n]) :=
      List.mem_filter.mpr ⟨hpart, hhas⟩
    rwa [honly, List.mem_singleton] at hmem
  rw [value, honly, ← hsame, List.getLast?_append_cons]
  cases part <;> rfl

theorem Source.has_append {s : Source} {names : List Identifier} {n : Identifier}
    (hnames : names <:+ s.names) (hn : n ∈ s.table.columns) : s.has (names ++ [n]) = true := by
  simp [has, hn, hnames]

theorem Database.source?_eq_some {r : Reference} {s : Source} (h : db.source? r = some s) :
    r.ownNames = some s.names := by
  unfold Database.source? at h
  split at h
  · rename_i names hpath
    obtain ⟨t, -, rfl⟩ := Option.map_eq_some_iff.mp h
    obtain ⟨expression, label⟩ := r
    cases hpath
    cases label <;> rfl
  · cases h

/-- A test for a table asks for the column under the table's own names. -/
theorem NullTest.expression_eq {r : Reference} {column : String} {qualified : Bool} {a : Atom}
    (h : NullTest r column qualified a) {s : Source} (hs : db.source? r = some s) {n : Identifier}
    (hn : n.text = column) :
    ∃ names, names <:+ s.names ∧ a = .notDeleted ⟨.path (.column (names ++ [n])), none⟩ := by
  subst hn
  cases h with
  | @bare m hm =>
      have hsame : m = n := by
        cases m
        cases n
        simpa using hm
      exact ⟨[], List.nil_suffix, by rw [hsame]; rfl⟩
  | @qualified names p label hnames hcolumn =>
      have hbare : Reference.of? n.text = .ok ⟨ColumnExpr.ofName n, none⟩ := by
        have hsolid : Text.Solid n.text.toList := fun c hc =>
          Text.isBlank_of_isWordChar (n.isWordChar_of_mem hc)
        have hne : n.text.toList ≠ [] := by
          intro hnil
          have hvalid := n.valid
          rw [hnil] at hvalid
          cases hvalid
        rw [Reference.of?, Text.aliased?_of_solid hsolid hne, ColumnExpr.of?_name]
        rfl
      rw [hbare] at hcolumn
      cases hcolumn
      rw [Database.source?_eq_some hs] at hnames
      cases hnames
      exact ⟨s.names, List.suffix_refl _, rfl⟩

/-- A test for a table that has the column asks for its value in the row that the table has in there. -/
theorem NullTest.truthAt_eq {r : Reference} {column : String} {qualified : Bool} {a : Atom}
    (h : NullTest r column qualified a) {s : Source} (hs : db.source? r = some s)
    (hcolumn : column ∈ s.table.columns.map (·.text)) {j : Joined} {part : Option Row}
    (hpart : (s, part) ∈ j) (hresolves : a.resolves (j.map (·.1)) = true) :
    a.truthAt db j = .ofNullTest false ((part.map (·.value column)).getD .null) := by
  obtain ⟨n, hn, hname⟩ := List.mem_map.mp hcolumn
  obtain ⟨names, hnames, rfl⟩ := h.expression_eq hs hname
  have hone : (j.map (·.1)).countP (·.has (names ++ [n])) = 1 := by
    simpa [Atom.resolves, Atom.expressions, ColumnExpr.resolves] using hresolves
  rw [Atom.truthAt, ColumnExpr.valueAt, Joined.value_eq hpart (Source.has_append hnames hn) hone, hname]

namespace Scope.AddsTest

variable {table : String} {r : Reference} {qualified : Bool} {test : Option Atom} {s : Source} {j : Joined}

/-- A row for which the test for its table holds is not deleted. -/
theorem live (h : scope.AddsTest table r qualified test) (hs : db.source? r = some s) {row : Row}
    (hrow : row ∈ s.table.rows) (hpart : (s, some row) ∈ j)
    (hresolves : ∀ a ∈ test, a.resolves (j.map (·.1)) = true)
    (hholds : ∀ a ∈ test, a.truthAt db j = .yes) : scope.Live table row := by
  intro column hcolumn
  cases h with
  | absent hscope =>
      rw [hscope] at hcolumn
      cases hcolumn
  | @present _ a hscope htest =>
      rw [hscope] at hcolumn
      cases hcolumn
      by_cases hknown : column ∈ s.table.columns.map (·.text)
      · have htruth := htest.truthAt_eq hs hknown hpart (hresolves a rfl)
        rw [hholds a rfl] at htruth
        exact Truth.ofNullTest_eq_yes.mp htruth.symm
      · exact Table.value_eq_null hrow hknown

/-- Where the row of a table is missing, the test for the table holds. -/
theorem holds_of_missing (h : scope.AddsTest table r qualified test) (hs : db.source? r = some s)
    (hknown : ∀ column ∈ scope (Text.splitAlias table).1, column ∈ s.table.columns.map (·.text))
    (hpart : (s, Option.none) ∈ j) {a : Atom} (ha : a ∈ test) (hresolves : a.resolves (j.map (·.1)) = true) :
    a.truthAt db j = .yes := by
  cases h with
  | absent hscope => cases ha
  | @present column a' hscope htest =>
      cases ha
      exact htest.truthAt_eq hs (hknown column hscope) hpart hresolves

end Scope.AddsTest

end TableGate
