import TableGate.Proofs.Query.Scopes
import TableGate.Proofs.Vault.BaseTable

/-! # Vaults that know the same tables

A vault encrypts, hashes and decrypts with its secrets. A query asks it for the encrypted columns of its own
tables, under their names, and for nothing else. -/

namespace TableGate.Vault

/-- The vaults have the same keys and secrets. -/
structure SameSecrets (v w : Vault) : Prop where
  suite : v.suite = w.suite
  keys : v.keys = w.keys
  pepper : v.pepper = w.pepper

/-- The vaults have, beside that, the same encrypted columns for the tables that the texts name. -/
structure AgreeOn (v w : Vault) (connection : String) (tables : List String) : Prop
    extends SameSecrets v w where
  columns : ∀ table ∈ tables,
    v.columns.get connection (baseTable table) = w.columns.get connection (baseTable table)

variable {v w : Vault}

namespace SameSecrets

theorem hashValue (h : v.SameSecrets w) : v.hashValue = w.hashValue := by
  funext value
  rw [Vault.hashValue, Vault.hashValue, h.suite, h.pepper]

theorem encryptColumns (h : v.SameSecrets w) (table : String) (nonces : ℕ → Nonce)
    (columns : List EncryptedColumn) (row : Row) :
    v.encryptColumns table nonces columns row = w.encryptColumns table nonces columns row := by
  have hkey : v.keyFor table = w.keyFor table := by
    funext e
    rw [keyFor, keyFor, h.keys]
  have hcolumn : v.encryptColumn table = w.encryptColumn table := by
    funext row e nonce
    simp only [encryptColumn, sealBytes, hkey, h.hashValue, h.suite]
  induction columns generalizing nonces row with
  | nil => rfl
  | cons e rest ih => simp only [Vault.encryptColumns, hcolumn, ih]

theorem encryptRows (h : v.SameSecrets w) {connection table : String}
    (hcolumns : v.columns.get connection table = w.columns.get connection table) (nonces : Nonces)
    (rows : List Row) :
    v.encryptRows connection table nonces rows = w.encryptRows connection table nonces rows := by
  induction rows generalizing nonces with
  | nil => rfl
  | cons row rest ih =>
      simp only [Vault.encryptRows, encryptRow, hcolumns, h.encryptColumns, ih]

theorem searchNode (h : v.SameSecrets w) : v.searchNode = w.searchNode := by
  have hoperand : v.hashOperand = w.hashOperand := by
    funext value
    cases value <;> simp only [hashOperand, h.hashValue]
  have hoperands : v.hashOperands = w.hashOperands := by
    funext value
    cases value <;> simp only [hashOperands, hoperand]
  funext columns n
  rw [Vault.searchNode, Vault.searchNode, hoperands]

mutual

theorem searchCondition (h : v.SameSecrets w) (columns : List EncryptedColumn) :
    ∀ c : Condition, v.searchCondition columns c = w.searchCondition columns c
  | .node n => by rw [Vault.searchCondition, Vault.searchCondition, h.searchNode]
  | .group items boolean => by
      rw [Vault.searchCondition, Vault.searchCondition, searchAll h columns items]

theorem searchAll (h : v.SameSecrets w) (columns : List EncryptedColumn) :
    ∀ cs : List Condition, v.searchAll columns cs = w.searchAll columns cs
  | [] => rfl
  | c :: cs => by
      rw [Vault.searchAll, Vault.searchAll, searchCondition h columns c, searchAll h columns cs]

end

theorem searchConditions (h : v.SameSecrets w) {connection table : String}
    (hcolumns : v.columns.get connection table = w.columns.get connection table)
    (cs : List Condition) :
    v.searchConditions connection table cs = w.searchConditions connection table cs := by
  rw [Vault.searchConditions, Vault.searchConditions, hcolumns, h.searchAll]

theorem decryptRow (h : v.SameSecrets w) {connection table : String}
    (hcolumns : v.columns.get connection table = w.columns.get connection table) :
    v.decryptRow connection table = w.decryptRow connection table := by
  have hopen : v.openEnvelope = w.openEnvelope := by
    funext aad text
    rw [openEnvelope, openEnvelope, h.suite, h.keys]
  have hcolumn : v.decryptColumn table = w.decryptColumn table := by
    funext row e
    rw [decryptColumn, decryptColumn, hopen]
  funext row
  rw [Vault.decryptRow, Vault.decryptRow, hcolumns, hcolumn]

end SameSecrets

namespace AgreeOn

variable {connection : String} {tables : List String}

theorem mono (h : v.AgreeOn w connection tables) {some : List String} (hsub : some ⊆ tables) :
    v.AgreeOn w connection some :=
  ⟨h.toSameSecrets, fun table htable => h.columns table (hsub htable)⟩

theorem searchConditions (h : v.AgreeOn w connection tables) {table : String} (htable : table ∈ tables)
    (cs : List Condition) :
    v.searchConditions connection (baseTable table) cs =
      w.searchConditions connection (baseTable table) cs :=
  h.toSameSecrets.searchConditions (h.columns table htable) cs

theorem searchClauses (table : String) (clauses : SelectClauses)
    (h : v.AgreeOn w connection (table :: clauses.joins.map (·.table))) :
    v.searchClauses connection table clauses = w.searchClauses connection table clauses := by
  have hjoins : clauses.joins.mapM (v.searchJoin connection) =
      clauses.joins.mapM (w.searchJoin connection) := by
    refine Except.mapM_congr fun join hjoin => ?_
    have htable : join.table ∈ table :: clauses.joins.map (·.table) :=
      List.mem_cons_of_mem _ (List.mem_map_of_mem hjoin)
    rw [searchJoin, searchJoin, h.searchConditions htable]
  rw [Vault.searchClauses, Vault.searchClauses, h.searchConditions List.mem_cons_self, hjoins]

mutual

/-- A query is asked in the same way of vaults that agree on its tables. -/
theorem searchQuery : ∀ (q : QuerySpec) (table : String), v.AgreeOn w connection (table :: q.tables) →
    v.searchQuery connection table q = w.searchQuery connection table q
  | .mk clauses union ctes => by
      intro table h
      have hclauses := searchClauses table clauses (h.mono (by simp [QuerySpec.tables]))
      have hunion := searchUnion union (h.mono fun x hx => by simp [QuerySpec.tables, hx])
      have hctes := searchCtes ctes (h.mono fun x hx => by simp [QuerySpec.tables, hx])
      rw [Vault.searchQuery, Vault.searchQuery, hclauses, hunion, hctes]

theorem searchUnion : ∀ union : UnionSpec, v.AgreeOn w connection union.tables →
    v.searchUnion connection union = w.searchUnion connection union
  | .none => fun _ => rfl
  | .member table q all => by
      intro h
      rw [Vault.searchUnion, Vault.searchUnion, searchQuery q table h]

theorem searchCtes : ∀ ctes : CteSpecs, v.AgreeOn w connection ctes.tables →
    v.searchCtes connection ctes = w.searchCtes connection ctes
  | .nil => fun _ => rfl
  | .raw name fragment rest => by
      intro h
      rw [Vault.searchCtes, Vault.searchCtes, searchCtes rest h]
  | .query name table q rest => by
      intro h
      have hquery := searchQuery q table
        (h.mono fun x hx => by simpa [CteSpecs.tables] using (List.mem_cons.mp hx).imp_right .inl)
      have hrest := searchCtes rest (h.mono fun x hx => by simp [CteSpecs.tables, hx])
      rw [Vault.searchCtes, Vault.searchCtes, hquery, hrest]

end

end AgreeOn

/-! ## The tables of a searched query -/

theorem tables_searchClauses {connection table : String} {clauses searched : SelectClauses}
    (h : v.searchClauses connection table clauses = .ok searched) :
    searched.joins.map (·.table) = clauses.joins.map (·.table) := by
  simp only [searchClauses, Except.bind_eq_ok, Except.pure_eq_ok] at h
  obtain ⟨conditions, -, joins, hjoins, rfl⟩ := h
  have hall := Except.mapM_eq_ok.mp hjoins
  clear hjoins
  generalize clauses.joins = given at hall ⊢
  induction hall with
  | nil => rfl
  | cons hjoin _ ih =>
      simp only [searchJoin, Except.bind_eq_ok, Except.pure_eq_ok] at hjoin
      obtain ⟨filters, -, rfl⟩ := hjoin
      rw [List.map_cons, List.map_cons, ih]

mutual

/-- A query is asked of the tables that it is about. -/
theorem tables_searchQuery {connection : String} : ∀ (q : QuerySpec) (table : String)
    (searched : QuerySpec), v.searchQuery connection table q = .ok searched →
      searched.tables = q.tables
  | .mk clauses union ctes => by
      intro table searched h
      simp only [searchQuery, Except.bind_eq_ok, Except.pure_eq_ok] at h
      obtain ⟨own, hown, more, hmore, united, hunited, rfl⟩ := h
      rw [QuerySpec.tables, QuerySpec.tables, tables_searchClauses hown,
        tables_searchUnion union united hunited, tables_searchCtes ctes more hmore]

theorem tables_searchUnion {connection : String} : ∀ union searched : UnionSpec,
    v.searchUnion connection union = .ok searched → searched.tables = union.tables
  | .none => by
      intro searched h
      cases h
      rfl
  | .member table q all => by
      intro searched h
      simp only [searchUnion, Except.bind_eq_ok, Except.pure_eq_ok] at h
      obtain ⟨query, hquery, rfl⟩ := h
      rw [UnionSpec.tables, UnionSpec.tables, tables_searchQuery q table query hquery]

theorem tables_searchCtes {connection : String} : ∀ ctes searched : CteSpecs,
    v.searchCtes connection ctes = .ok searched → searched.tables = ctes.tables
  | .nil => by
      intro searched h
      cases h
      rfl
  | .raw name fragment rest => by
      intro searched h
      simp only [searchCtes, Except.bind_eq_ok, Except.pure_eq_ok] at h
      obtain ⟨more, hmore, rfl⟩ := h
      rw [CteSpecs.tables, CteSpecs.tables, tables_searchCtes rest more hmore]
  | .query name table q rest => by
      intro searched h
      simp only [searchCtes, Except.bind_eq_ok, Except.pure_eq_ok] at h
      obtain ⟨query, hquery, more, hmore, rfl⟩ := h
      rw [CteSpecs.tables, CteSpecs.tables, tables_searchQuery q table query hquery,
        tables_searchCtes rest more hmore]

end

/-! ## Tables without encrypted columns -/

mutual

theorem searchCondition_nil (v : Vault) : ∀ c : Condition, v.searchCondition [] c = .ok c
  | .node n => rfl
  | .group items boolean => by
      rw [searchCondition, searchAll_nil v items]
      rfl

/-- Without encrypted columns the conditions stay as they are. -/
theorem searchAll_nil (v : Vault) : ∀ cs : List Condition, v.searchAll [] cs = .ok cs
  | [] => rfl
  | c :: cs => by
      rw [searchAll, searchCondition_nil v c, searchAll_nil v cs]
      rfl

end

/-- Without encrypted columns the rows stay as they are. -/
theorem encryptRows_of_nil {v : Vault} {connection table : String}
    (h : v.columns.get connection table = []) (nonces : Nonces) (rows : List Row) :
    v.encryptRows connection table nonces rows = .ok rows := by
  induction rows generalizing nonces with
  | nil => rfl
  | cons row rows ih =>
      rw [encryptRows, encryptRow, h, ih]
      rfl

end TableGate.Vault
