import TableGate.Proofs.Query.Sites
import TableGate.Proofs.Vault.Searched

/-! # The tables that conditions refer to

A comparison is converted by the encrypted columns of the table that its clause belongs to, whatever table
its column is qualified with, and the condition on the groups is not converted at all. So a comparison is
converted by the table that it refers to only as far as both tables make the same of it. -/

namespace TableGate

namespace Vault

/-- A comparison as it is asked by the encrypted columns of a table; where there is no table, it stays as it
is. -/
def searchNodeOf (v : Vault) (connection : String) :
    Option String → ConditionNode → Except Fault ConditionNode
  | some table => v.searchNode (v.columns.get connection (baseTable table))
  | none => .ok

/-- A comparison as it is asked by the encrypted columns of the table that its clause belongs to. -/
def byClause (v : Vault) (connection : String) (s : Site) (n : ConditionNode) :
    Except Fault ConditionNode :=
  v.searchNodeOf connection s.own n

end Vault

/-- The qualifier of a column, without the blanks around it. -/
def qualifier? (column : String) : Option String :=
  (Text.cutLast? (· == '.') column.toList).map fun cut => String.ofList (Text.trimChars cut.1)

/-- The text for the table that a column refers to: the table that its SELECT is from or, if the column is
qualified, the table that the query has this name for, or else the one with this name. The tables of a
SELECT are tried in order. A qualifier that none of them answers to leaves the column to its clause. -/
def Site.referenced (s : Site) (column : String) : Option String :=
  let tables := s.source :: s.joined
  match qualifier? column with
  | none => some s.source
  | some qualifier =>
    (tables.find? fun table => (Text.splitAlias table).2 == qualifier) <|>
      (tables.find? fun table => Vault.baseTable table == qualifier) <|> s.own

namespace Vault

/-- A comparison as it is asked by the encrypted columns of the table that it refers to. -/
def byReference (v : Vault) (connection : String) (s : Site) (n : ConditionNode) :
    Except Fault ConditionNode :=
  v.searchNodeOf connection (s.referenced n.column) n

variable {v : Vault} {connection : String}

theorem searchJoin_eq_ok {join searched : JoinSpec} : v.searchJoin connection join = .ok searched ↔
    (∀ n ∈ Condition.nodesOf join.filters, ∃ m, v.searchNodeOf connection (some join.table) n = .ok m) ∧
      searched = { join with
        filters := Condition.mapAll (Condition.applied (v.searchNodeOf connection (some join.table)))
          join.filters } := by
  simp only [searchJoin, Except.bind_eq_ok, Except.pure_eq_ok, searchConditions_eq_ok,
    Condition.Converted, searchNodeOf]
  constructor
  · rintro ⟨_, ⟨haccepted, rfl⟩, rfl⟩
    exact ⟨haccepted, rfl⟩
  · rintro ⟨haccepted, rfl⟩
    exact ⟨_, ⟨haccepted, rfl⟩, rfl⟩

theorem map_mapNodes_none (having : Option Having) :
    having.map (Having.mapNodes (Condition.applied (v.searchNodeOf connection none))) = having := by
  have hself : Condition.applied (v.searchNodeOf connection none) = fun n => n := rfl
  rw [hself]
  cases having with
  | none => rfl
  | some having => cases having <;> simp [Having.mapNodes, Condition.mapAll_self]

theorem searchClauses_eq_ok {table : String} {clauses searched : SelectClauses} :
    v.searchClauses connection table clauses = .ok searched ↔
      (∀ p ∈ clauses.sites table, ∃ m, v.byClause connection p.1 p.2 = .ok m) ∧
        searched = clauses.mapNodes (fun s => Condition.applied (v.byClause connection s)) table := by
  rw [clauses.forall_mem_sites table (P := fun s n => ∃ m, v.byClause connection s n = .ok m)]
  simp only [searchClauses, Except.bind_eq_ok, Except.pure_eq_ok, searchConditions_eq_ok,
    Condition.Converted, Except.mapM_eq_ok_map fun _ _ => searchJoin_eq_ok]
  have hresult : clauses.mapNodes (fun s => Condition.applied (v.byClause connection s)) table =
      { clauses with
        conditions := Condition.mapAll (Condition.applied (v.searchNodeOf connection (some table)))
          clauses.conditions
        joins := clauses.joins.map fun j => { j with
          filters := Condition.mapAll (Condition.applied (v.searchNodeOf connection (some j.table)))
            j.filters } } := by
    conv_rhs => rw [← @map_mapNodes_none v connection clauses.having]
    rfl
  rw [hresult]
  constructor
  · rintro ⟨_, ⟨hconditions, rfl⟩, _, ⟨hjoins, rfl⟩, rfl⟩
    exact ⟨⟨hconditions, hjoins, fun n _ => ⟨n, rfl⟩⟩, rfl⟩
  · rintro ⟨⟨hconditions, hjoins, -⟩, rfl⟩
    exact ⟨_, ⟨hconditions, rfl⟩, _, ⟨hjoins, rfl⟩, rfl⟩

mutual

/-- A query is asked of the stored tables if and only if each of its comparisons can be, and nothing but its
comparisons changes. -/
theorem searchQuery_eq_ok : ∀ (q : QuerySpec) (table : String) (searched : QuerySpec),
    v.searchQuery connection table q = .ok searched ↔
      q.Converted (v.byClause connection) table searched
  | .mk clauses union ctes => by
      intro table searched
      simp only [searchQuery, Except.bind_eq_ok, Except.pure_eq_ok, searchClauses_eq_ok,
        searchUnion_eq_ok union, searchCtes_eq_ok ctes, QuerySpec.Converted, QuerySpec.sites,
        QuerySpec.mapNodes, List.forall_mem_append]
      constructor
      · rintro ⟨_, ⟨hclauses, rfl⟩, _, ⟨hctes, rfl⟩, _, ⟨hunion, rfl⟩, rfl⟩
        exact ⟨⟨hclauses, hunion, hctes⟩, rfl⟩
      · rintro ⟨⟨hclauses, hunion, hctes⟩, rfl⟩
        exact ⟨_, ⟨hclauses, rfl⟩, _, ⟨hctes, rfl⟩, _, ⟨hunion, rfl⟩, rfl⟩

theorem searchUnion_eq_ok : ∀ union searched : UnionSpec,
    v.searchUnion connection union = .ok searched ↔
      (∀ p ∈ union.sites, ∃ m, v.byClause connection p.1 p.2 = .ok m) ∧
        searched = union.mapNodes fun s => Condition.applied (v.byClause connection s)
  | .none => by
      intro searched
      simp [searchUnion, UnionSpec.sites, UnionSpec.mapNodes, eq_comm]
  | .member table query all => by
      intro searched
      simp only [searchUnion, Except.bind_eq_ok, Except.pure_eq_ok, searchQuery_eq_ok query,
        QuerySpec.Converted, UnionSpec.sites, UnionSpec.mapNodes]
      constructor
      · rintro ⟨_, ⟨hquery, rfl⟩, rfl⟩
        exact ⟨hquery, rfl⟩
      · rintro ⟨hquery, rfl⟩
        exact ⟨_, ⟨hquery, rfl⟩, rfl⟩

theorem searchCtes_eq_ok : ∀ ctes searched : CteSpecs,
    v.searchCtes connection ctes = .ok searched ↔
      (∀ p ∈ ctes.sites, ∃ m, v.byClause connection p.1 p.2 = .ok m) ∧
        searched = ctes.mapNodes fun s => Condition.applied (v.byClause connection s)
  | .nil => by
      intro searched
      simp [searchCtes, CteSpecs.sites, CteSpecs.mapNodes, eq_comm]
  | .raw name fragment rest => by
      intro searched
      simp only [searchCtes, Except.bind_eq_ok, Except.pure_eq_ok, searchCtes_eq_ok rest,
        CteSpecs.sites, CteSpecs.mapNodes]
      constructor
      · rintro ⟨_, ⟨hrest, rfl⟩, rfl⟩
        exact ⟨hrest, rfl⟩
      · rintro ⟨hrest, rfl⟩
        exact ⟨_, ⟨hrest, rfl⟩, rfl⟩
  | .query name table query rest => by
      intro searched
      simp only [searchCtes, Except.bind_eq_ok, Except.pure_eq_ok, searchQuery_eq_ok query,
        searchCtes_eq_ok rest, QuerySpec.Converted, CteSpecs.sites, CteSpecs.mapNodes,
        List.forall_mem_append]
      constructor
      · rintro ⟨_, ⟨hquery, rfl⟩, _, ⟨hrest, rfl⟩, rfl⟩
        exact ⟨⟨hquery, hrest⟩, rfl⟩
      · rintro ⟨⟨hquery, hrest⟩, rfl⟩
        exact ⟨_, ⟨hquery, rfl⟩, _, ⟨hrest, rfl⟩, rfl⟩

end

/-- A query is converted comparison by comparison, each by the encrypted columns of the table that its
clause belongs to, and nothing else in it changes. So each is converted by the table that it refers to if
and only if the encrypted columns of both tables make the same of every comparison, or each of the two ways
rejects one. -/
theorem searchQuery_byReference_iff (v : Vault) (connection table : String) (q : QuerySpec) :
    (∀ searched, v.searchQuery connection table q = .ok searched ↔
      q.Converted (v.byClause connection) table searched) ∧
    ((∀ searched, v.searchQuery connection table q = .ok searched ↔
        q.Converted (v.byReference connection) table searched) ↔
      (∀ p ∈ q.sites table,
        (v.byClause connection p.1 p.2).toOption = (v.byReference connection p.1 p.2).toOption) ∨
      q.RejectedBy (v.byClause connection) table ∧ q.RejectedBy (v.byReference connection) table) := by
  refine ⟨fun searched => searchQuery_eq_ok q table searched, ?_⟩
  simp only [searchQuery_eq_ok]
  exact q.converted_iff_converted table

/-- A comparison of an encrypted column of a joined table stays as it is, with its value in the clear. -/
theorem searchQuery_joined_unconverted :
    let keys : KeyRing := ⟨[⟨1, List.replicate 32 7⟩], ⟨1, List.replicate 32 7⟩⟩
    let vault := (Vault.new .standard keys [112] .chacha20Poly1305).register "main" "orders"
      (.searchable "note")
    let q := (QuerySpec.ofConditions [.eq "orders.note" (.text "x")]).join
      (.ofPair .inner "orders" "users.id" "orders.user_id")
    ∃ searched, vault.searchQuery "main" "users" q = .ok searched ∧
      ¬q.Converted (vault.byReference "main") "users" searched := by
  intro keys vault q
  let columns (q : QuerySpec) := (Condition.nodesOf q.clauses.conditions).map (·.column)
  obtain ⟨searched, hsearched, hcolumns⟩ := Except.exists_of_any
    (x := vault.searchQuery "main" "users" q) (p := fun r => columns r == ["orders.note"])
    (by decide +kernel)
  refine ⟨searched, hsearched, fun hconverted => ?_⟩
  have hother : columns (q.mapNodes (fun s => Condition.applied (vault.byReference "main" s)) "users") =
      ["orders.note_hash"] := by decide +kernel
  rw [← hconverted.2, beq_iff_eq.mp hcolumns] at hother
  exact absurd hother (by decide)

end Vault

end TableGate
