import TableGate.Proofs.Query.Scopes
import TableGate.Proofs.Vault.Search
import TableGate.Service.Request

/-! # What is remembered about a table

Operations are given a text for their table, which need not be its name. The reading ones use what is
remembered about the table that the text names. -/

namespace TableGate

namespace Service

/-- The services differ at most in what they remember beyond the tables that the texts name. -/
structure AgreeOn (s t : Service) (connection : String) (tables : List String) : Prop where
  registry : s.registry = t.registry
  policy : s.policy = t.policy
  secrets : s.vault.SameSecrets t.vault
  state : ∀ table ∈ tables, s.tableState connection (Vault.baseTable table) =
    t.tableState connection (Vault.baseTable table)

/-- Given texts for its tables, an operation uses nothing that is remembered beyond what is about the
tables that the texts name, on every connection. -/
def UsesBase {α : Type} (tables : List String) (op : Service → String → Except Fault (Prepared α)) :
    Prop :=
  ∀ (s t : Service) (connection : String) (c : Connection), s.registry.find? connection = .ok c →
    s.AgreeOn t c.name tables → op s connection = op t connection

/-! ## Effects -/

/-- An effect changes what is remembered about its table as planned. -/
@[simp] theorem tableState_applyEffect (s : Service) (connection table : String) (e : CatalogEffect) :
    (s.applyEffect connection table e).tableState connection table =
      (s.tableState connection table).apply e := by
  cases e with
  | registerEncrypted column =>
      simp [tableState, applyEffect, Vault.register, PerTable.update, TableState.apply]
  | unregisterEncrypted column =>
      simp [tableState, applyEffect, Vault.unregister, PerTable.update, TableState.apply]
  | renameColumn source target =>
      simp only [tableState, applyEffect, Vault.rename, Catalog.rename, Catalog.column?,
        PerTable.update, PerTable.get_set_self, TableState.apply, TableState.mk.injEq, true_and]
      split
      · rename_i column hcolumn
        simp only [hcolumn, Option.some.injEq]
        by_cases hsource : column = source <;> simp [hsource]
      · rename_i hnone
        simp [hnone]
  | enableSoftDelete column =>
      simp [tableState, applyEffect, Catalog.enable, Catalog.column?, TableState.apply]
  | disableSoftDelete =>
      simp [tableState, applyEffect, Catalog.disable, Catalog.column?, TableState.apply]
  | dropTable =>
      simp [tableState, applyEffect, Vault.unregisterTable, Catalog.remove, Catalog.column?,
        TableState.apply]

/-- An effect leaves what is remembered about other tables. -/
theorem tableState_applyEffect_of_ne (s : Service) {connection table c t : String}
    (h : ¬(c = connection ∧ t = table)) (e : CatalogEffect) :
    (s.applyEffect connection table e).tableState c t = s.tableState c t := by
  cases e <;>
    simp only [tableState, applyEffect, Vault.register, Vault.unregister, Vault.rename,
      Vault.unregisterTable, Catalog.column?, Catalog.enable, Catalog.disable, Catalog.rename,
      Catalog.remove, PerTable.update, PerTable.get_set_of_ne _ _ h]

/-! ## Reading -/

namespace AgreeOn

variable {s t : Service} {connection : String} {c : Connection} {tables : List String}

theorem find? (h : s.AgreeOn t c.name tables) (hc : s.registry.find? connection = .ok c) :
    t.registry.find? connection = .ok c := by
  rw [← h.registry, hc]

theorem compiler (h : s.AgreeOn t c.name tables) : s.compiler c = t.compiler c := by
  rw [Service.compiler, Service.compiler, h.policy]

theorem vault (h : s.AgreeOn t c.name tables) : s.vault.AgreeOn t.vault c.name tables :=
  ⟨h.secrets, fun table htable => congrArg TableState.encrypted (h.state table htable)⟩

theorem scope (h : s.AgreeOn t c.name tables) : (s.scope c).AgreeOn (t.scope c) tables :=
  fun table htable => congrArg TableState.softDelete (h.state table htable)

theorem selectScoped {table : String} {q : QuerySpec} (h : s.AgreeOn t c.name (table :: q.tables)) :
    (s.compiler c).selectScoped table q (s.scope c) =
      (t.compiler c).selectScoped table q (t.scope c) := by
  rw [Compiler.selectScoped, Compiler.selectScoped, h.compiler,
    QuerySpec.select?_congr _ q table _ _ h.scope]

end AgreeOn

/-- A query uses what is remembered about its own tables, whatever texts it has for them. -/
theorem usesBase_query (table : String) (spec : QuerySpec) :
    UsesBase (table :: spec.tables) fun s connection => s.query connection table spec := by
  intro s t connection c hc h
  have hdecrypt : s.decryptRows c (Vault.baseTable table) =
      t.decryptRows c (Vault.baseTable table) := by
    funext rows
    rw [decryptRows, decryptRows, h.secrets.decryptRow (h.vault.columns table List.mem_cons_self)]
  simp only [Service.query, hc, h.find? hc, Except.ok_bind, h.vault.searchQuery, hdecrypt]
  cases hsearched : t.vault.searchQuery c.name table spec with
  | error fault => rw [Except.error_bind, Except.error_bind]
  | ok searched =>
      rw [← Vault.tables_searchQuery spec table searched hsearched] at h
      rw [Except.ok_bind, Except.ok_bind, h.selectScoped]

theorem usesBase_count (table : String) (conditions : List Condition) :
    UsesBase [table] fun s connection => s.count connection table conditions := by
  intro s t connection c hc h
  have hselect (conditions : List Condition) :
      (s.compiler c).selectScoped table (Compiler.countQuery conditions) (s.scope c) =
        (t.compiler c).selectScoped table (Compiler.countQuery conditions) (t.scope c) := by
    refine AgreeOn.selectScoped ?_
    rw [Compiler.tables_countQuery]
    exact h
  simp only [Service.count, Compiler.count, hc, h.find? hc, Except.ok_bind,
    h.vault.searchConditions List.mem_cons_self, hselect]

/-! ## Writing

Under the name of a table, an operation that writes finds what is remembered about it. -/

namespace AgreeOn

variable {s t : Service} {connection table : String} {c : Connection}
  (hname : Vault.baseTable table = table) (h : s.AgreeOn t c.name [table])
include hname h

theorem columns : s.vault.columns.get c.name table = t.vault.columns.get c.name table := by
  have hcolumns := h.vault.columns table List.mem_cons_self
  rwa [hname] at hcolumns

theorem column? : s.catalog.column? c.name table = t.catalog.column? c.name table := by
  have hcolumn := h.state table List.mem_cons_self
  rw [hname] at hcolumn
  exact congrArg TableState.softDelete hcolumn

theorem encryptRows (nonces : Nonces) (rows : List Row) :
    s.vault.encryptRows c.name table nonces rows = t.vault.encryptRows c.name table nonces rows :=
  h.secrets.encryptRows (h.columns hname) nonces rows

theorem searchConditions (conditions : List Condition) :
    s.vault.searchConditions c.name table conditions =
      t.vault.searchConditions c.name table conditions :=
  h.secrets.searchConditions (h.columns hname) conditions

theorem remove (conditions : List Condition) :
    s.remove c table conditions = t.remove c table conditions := by
  simp only [Service.remove, h.searchConditions hname, h.compiler]

theorem markDeleted (column : String) (conditions : List Condition) :
    s.markDeleted c table column conditions = t.markDeleted c table column conditions := by
  simp only [Service.markDeleted, h.searchConditions hname, h.compiler]

end AgreeOn

section

variable {table : String} (hname : Vault.baseTable table = table)
include hname

theorem usesBase_insert (rows : List Row) (nonces : Nonces) :
    UsesBase [table] fun s connection => s.insert connection table rows nonces := by
  intro s t connection c hc h
  simp only [Service.insert, hc, h.find? hc, Except.ok_bind, h.encryptRows hname, h.compiler]

theorem usesBase_update (values : Row) (conditions : List Condition) (nonces : Nonces) :
    UsesBase [table] fun s connection => s.update connection table values conditions nonces := by
  intro s t connection c hc h
  simp only [Service.update, hc, h.find? hc, Except.ok_bind, Vault.encryptRow, h.columns hname,
    h.secrets.encryptColumns, h.searchConditions hname, h.compiler]

theorem usesBase_upsert (rows : List Row) (uniqueBy : List String) (update : Option (List String))
    (nonces : Nonces) :
    UsesBase [table] fun s connection => s.upsert connection table rows uniqueBy update nonces := by
  intro s t connection c hc h
  simp only [Service.upsert, hc, h.find? hc, Except.ok_bind, h.columns hname, h.encryptRows hname,
    h.compiler]

theorem usesBase_delete (conditions : List Condition) :
    UsesBase [table] fun s connection => s.delete connection table conditions := by
  intro s t connection c hc h
  simp only [Service.delete, hc, h.find? hc, Except.ok_bind, h.column? hname, h.remove hname,
    h.markDeleted hname]

theorem usesBase_softDelete (conditions : List Condition) :
    UsesBase [table] fun s connection => s.softDelete connection table conditions := by
  intro s t connection c hc h
  simp only [Service.softDelete, softDeleteColumn?, hc, h.find? hc, Except.ok_bind,
    h.column? hname, h.markDeleted hname]

theorem usesBase_permanentDelete (conditions : List Condition) :
    UsesBase [table] fun s connection => s.permanentDelete connection table conditions := by
  intro s t connection c hc h
  simp only [Service.permanentDelete, hc, h.find? hc, Except.ok_bind, h.remove hname]

theorem usesBase_restore (conditions : List Condition) :
    UsesBase [table] fun s connection => s.restore connection table conditions := by
  intro s t connection c hc h
  simp only [Service.restore, softDeleteColumn?, hc, h.find? hc, Except.ok_bind, h.column? hname,
    h.searchConditions hname, h.compiler]

end

end Service

end TableGate
