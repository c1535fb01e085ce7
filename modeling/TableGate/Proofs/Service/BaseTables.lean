import TableGate.Proofs.Service.EncryptedWrites
import TableGate.Proofs.Service.Tables
import TableGate.Proofs.Vault.Concealed
import TableGate.Service.Session

/-! # The table that an operation is about

A text for a table is accepted with blanks around it and with an alias, and a query is about the table that
it names. The operations that write look up the text itself: they are about the table that it names if and
only if the text is the name of that table. -/

namespace TableGate

namespace Service

/-- Given a text for its table, an operation writes the given rows with nothing in the clear in the
encrypted columns of the table that the text names. -/
def ConcealsBase (table : String) (given : List Row)
    (op : Service → String → Except Fault (Prepared AffectedInfo)) : Prop :=
  ∀ (s : Service) (connection : String) (c : Connection) (p : Prepared AffectedInfo),
    s.registry.find? connection = .ok c → op s connection = .ok p →
    ∃ stored more, p.Writes c stored more ∧ List.Forall₂
      (s.vault.Conceals (s.vault.columns.get c.name (Vault.baseTable table))) given stored

/-- Given a text for its table, an operation removes no rows where the table that the text names keeps
deleted ones. -/
def KeepsBase (table : String) (op : Service → String → Except Fault (Prepared AffectedInfo)) : Prop :=
  ∀ (s : Service) (connection : String) (c : Connection) (column : String) (p : Prepared AffectedInfo),
    s.registry.find? connection = .ok c →
    s.catalog.column? c.name (Vault.baseTable table) = some column → op s connection = .ok p →
    ¬p.statement.Removes

/-! ## Texts that are names -/

section

variable {table : String} (h : Vault.baseTable table = table)
include h

theorem concealsBase_insert (rows : List Row) (nonces : Nonces) :
    ConcealsBase table rows fun s connection => s.insert connection table rows nonces := by
  intro s connection c p hc hp
  obtain ⟨stored, hstored, hwrites⟩ := writes_insert hc hp
  rw [h]
  exact ⟨stored, [], hwrites, Vault.conceals_encryptRows hstored⟩

theorem concealsBase_upsert (rows : List Row) (uniqueBy : List String) (update : Option (List String))
    (nonces : Nonces) : ConcealsBase table rows fun s connection =>
      s.upsert connection table rows uniqueBy update nonces := by
  intro s connection c p hc hp
  obtain ⟨stored, hstored, hwrites⟩ := writes_upsert hc hp
  rw [h]
  exact ⟨stored, [], hwrites, Vault.conceals_encryptRows hstored⟩

theorem concealsBase_update (values : Row) (conditions : List Condition) (nonces : Nonces) :
    ConcealsBase table [values] fun s connection =>
      s.update connection table values conditions nonces := by
  intro s connection c p hc hp
  obtain ⟨stored, searched, hstored, -, hwrites⟩ := writes_update hc hp
  rw [h]
  exact ⟨[stored], _, hwrites, .cons (Vault.conceals_encryptRow hstored) .nil⟩

theorem keepsBase_delete (conditions : List Condition) :
    KeepsBase table fun s connection => s.delete connection table conditions := by
  intro s connection c column p hc hcolumn hp
  rw [h] at hcolumn
  simp only [Service.delete, hc, Except.bind_eq_ok, Except.ok.injEq] at hp
  obtain ⟨_, -, _, rfl, hp⟩ := hp
  rw [hcolumn] at hp
  simp only [markDeleted, Except.bind_eq_ok, Except.pure_eq_ok] at hp
  obtain ⟨searched, -, statement, hstatement, rfl⟩ := hp
  obtain ⟨w, hw, rfl⟩ := Except.map_eq_ok.mp hstatement
  simp only [Write.softDeleteOf?, Except.bind_eq_ok, Except.pure_eq_ok] at hw
  obtain ⟨name, -, reference, -, chain, -, rfl⟩ := hw
  exact Write.not_removes_update _ _ _ _

end

/-! ## Texts that are not names

What is remembered about a table is not found under another text for it. The example has an encrypted
column, whose key is not configured, and a column that marks deleted rows. -/

namespace Example

def state : TableState :=
  ⟨[⟨"x", .chacha20Poly1305, some 2, none⟩], some "gone"⟩

def main : Connection :=
  ⟨"main", .sqlite, "sqlite::memory:", .shared, 1⟩

def nonces : Nonces :=
  fun _ _ => ⟨List.replicate 24 0, rfl⟩

/-- A service that remembers nothing about any table. -/
def blank : Service where
  registry := ⟨.ofList [("main", main)], none, .empty⟩
  vault := Vault.new .standard ⟨[⟨1, List.replicate 32 7⟩], ⟨1, List.replicate 32 7⟩⟩ []
    .chacha20Poly1305
  catalog := .empty
  policy := .guarded

/-- The service after the example was made of a table. -/
def learned (s : Service) (table : String) : Service :=
  s.applyEffects "main" table
    [.registerEncrypted ⟨"x", .chacha20Poly1305, some 2, none⟩, .enableSoftDelete "gone"]

/-- A service that remembers the example about the table that a text names. -/
def knowing (table : String) : Service :=
  learned blank (Vault.baseTable table)

/-- A service that remembers it under the text as well. -/
def knowingBoth (table : String) : Service :=
  learned (knowing table) table

/-- A row with a value in the encrypted column of the example. -/
def row : Row :=
  .ofList [("x", .int 5)]

/-- A condition on the encrypted column of the example. -/
def filter : List Condition :=
  [.eq "x" (.int 1)]

theorem tableState_learned {s : Service} {table : String} (h : s.tableState "main" table = {}) :
    (learned s table).tableState "main" table = state := by
  simp only [learned, applyEffects, List.foldl_cons, List.foldl_nil, tableState_applyEffect, h]
  rfl

theorem tableState_learned_of_ne (s : Service) {table other : String} (h : other ≠ table) :
    (learned s table).tableState "main" other = s.tableState "main" other := by
  have hne : ¬("main" = "main" ∧ other = table) := fun hsame => h hsame.2
  simp only [learned, applyEffects, List.foldl_cons, List.foldl_nil,
    tableState_applyEffect_of_ne _ hne]

@[simp] theorem find?_knowing (table : String) :
    (knowing table).registry.find? "main" = .ok main :=
  rfl

@[simp] theorem find?_both (table : String) :
    (knowingBoth table).registry.find? "main" = .ok main :=
  rfl

theorem tableState_knowing (table : String) :
    (knowing table).tableState "main" (Vault.baseTable table) = state :=
  tableState_learned rfl

section

variable {table : String} (hne : Vault.baseTable table ≠ table)
include hne

theorem tableState_text : (knowing table).tableState "main" table = {} :=
  tableState_learned_of_ne blank hne.symm

theorem tableState_both : (knowingBoth table).tableState "main" table = state :=
  tableState_learned (tableState_text hne)

theorem columns_text : (knowing table).vault.columns.get main.name table = [] :=
  congrArg TableState.encrypted (tableState_text hne)

theorem columns_both : (knowingBoth table).vault.columns.get main.name table =
    state.encrypted :=
  congrArg TableState.encrypted (tableState_both hne)

theorem column?_text : (knowing table).catalog.column? main.name table = none :=
  congrArg TableState.softDelete (tableState_text hne)

theorem column?_both : (knowingBoth table).catalog.column? main.name table = some "gone" :=
  congrArg TableState.softDelete (tableState_both hne)

/-- An operation that uses what is remembered about the table cannot tell the two services apart. -/
theorem eq_of_usesBase {α : Type} {op : Service → String → Except Fault (Prepared α)}
    (h : UsesBase [table] op) : op (knowing table) "main" = op (knowingBoth table) "main" :=
  h _ _ "main" main rfl
    ⟨rfl, rfl, ⟨rfl, rfl, rfl⟩, fun _ h => by
      rw [List.mem_singleton.mp h]
      exact (tableState_learned_of_ne _ hne).symm⟩

/-! ### Under both texts -/

theorem insert_both : ∃ fault,
    (knowingBoth table).insert "main" table [row] nonces = .error fault := by
  simp only [Service.insert, find?_both, Except.ok_bind, Vault.encryptRows, Vault.encryptRow,
    columns_both hne]
  exact ⟨_, rfl⟩

theorem upsert_both : ∃ fault,
    (knowingBoth table).upsert "main" table [row] ["x"] none nonces = .error fault := by
  simp only [Service.upsert, find?_both, Except.ok_bind, columns_both hne]
  exact ⟨_, rfl⟩

theorem update_both : ∃ fault,
    (knowingBoth table).update "main" table row filter nonces = .error fault := by
  simp only [Service.update, find?_both, Except.ok_bind, Vault.encryptRow, columns_both hne]
  exact ⟨_, rfl⟩

theorem searchConditions_both :
    (knowingBoth table).vault.searchConditions main.name table filter =
      .error (.querySpec (.notSearchable "x")) := by
  rw [Vault.searchConditions, columns_both hne]
  rfl

theorem delete_both : (knowingBoth table).delete "main" table filter =
    .error (.querySpec (.notSearchable "x")) := by
  simp only [Service.delete, find?_both, Except.ok_bind, column?_both hne, markDeleted,
    searchConditions_both hne]
  rfl

theorem softDelete_both : (knowingBoth table).softDelete "main" table filter =
    .error (.querySpec (.notSearchable "x")) := by
  simp only [Service.softDelete, find?_both, Except.ok_bind, softDeleteColumn?, column?_both hne,
    markDeleted, searchConditions_both hne]
  rfl

theorem permanentDelete_both : (knowingBoth table).permanentDelete "main" table filter =
    .error (.querySpec (.notSearchable "x")) := by
  simp only [Service.permanentDelete, find?_both, Except.ok_bind, remove, searchConditions_both hne]
  rfl

theorem restore_both : (knowingBoth table).restore "main" table filter =
    .error (.querySpec (.notSearchable "x")) := by
  simp only [Service.restore, find?_both, Except.ok_bind, softDeleteColumn?, column?_both hne,
    searchConditions_both hne]
  rfl

/-! ### Under the name only -/

theorem encryptRows_text : (knowing table).vault.encryptRows main.name table nonces
    [row] = .ok [row] :=
  Vault.encryptRows_of_nil (columns_text hne) nonces [row]

theorem encryptRow_text : (knowing table).vault.encryptRow main.name table
    (nonces 0) row = .ok row := by
  rw [Vault.encryptRow, columns_text hne, Vault.encryptColumns]

theorem searchConditions_text :
    (knowing table).vault.searchConditions main.name table filter =
      .ok filter := by
  rw [Vault.searchConditions, columns_text hne, Vault.searchAll_nil]

theorem softDelete_text : (knowing table).softDelete "main" table filter =
    .error (.querySpec (.noSoftDelete table)) := by
  simp only [Service.softDelete, find?_knowing, Except.ok_bind, softDeleteColumn?, column?_text hne]
  rfl

theorem restore_text : (knowing table).restore "main" table filter =
    .error (.querySpec (.noSoftDelete table)) := by
  simp only [Service.restore, find?_knowing, Except.ok_bind, softDeleteColumn?, column?_text hne]
  rfl

variable {r : Reference} (htable : Reference.of? table = .ok r)
include htable

theorem insert_text : ∃ p, (knowing table).insert "main" table [row] nonces = .ok p ∧
    p.statement.params = [.int 5] := by
  obtain ⟨p, hp⟩ : ∃ p,
      (knowing table).insert "main" table [row] nonces = .ok p := by
    simp only [Service.insert, find?_knowing, Except.ok_bind, encryptRows_text hne, Compiler.insert,
      Write.insertOf?, Write.insertRows?, htable]
    exact ⟨_, rfl⟩
  obtain ⟨stored, hstored, w, -, -, -, hparams⟩ := writes_insert (find?_knowing table) hp
  rw [encryptRows_text hne] at hstored
  cases hstored
  exact ⟨p, hp, hparams⟩

theorem upsert_text :
    ∃ p, (knowing table).upsert "main" table [row] ["x"] none nonces = .ok p ∧
      p.statement.params = [.int 5] := by
  obtain ⟨p, hp⟩ : ∃ p,
      (knowing table).upsert "main" table [row] ["x"] none nonces = .ok p := by
    simp only [Service.upsert, find?_knowing, Except.ok_bind, columns_text hne,
      encryptRows_text hne, Compiler.upsert, Write.upsertOf?, Write.insertRows?, htable]
    exact ⟨_, rfl⟩
  obtain ⟨stored, hstored, w, -, -, -, hparams⟩ := writes_upsert (find?_knowing table) hp
  rw [encryptRows_text hne] at hstored
  cases hstored
  exact ⟨p, hp, hparams⟩

theorem update_text :
    ∃ p, (knowing table).update "main" table row filter nonces = .ok p ∧
      p.statement.params = [.int 5, .int 1] := by
  obtain ⟨p, hp⟩ : ∃ p,
      (knowing table).update "main" table row filter nonces = .ok p := by
    simp only [Service.update, find?_knowing, Except.ok_bind, encryptRow_text hne,
      searchConditions_text hne, Compiler.update, Write.updateOf?, htable]
    exact ⟨_, rfl⟩
  obtain ⟨stored, searched, hstored, hsearched, w, -, -, -, hparams⟩ :=
    writes_update (find?_knowing table) hp
  rw [encryptRow_text hne] at hstored
  rw [searchConditions_text hne] at hsearched
  cases hstored
  cases hsearched
  exact ⟨p, hp, hparams⟩

theorem remove_text : ∃ p chain, (knowing table).remove main table filter = .ok p ∧
    p.statement = (Write.delete r chain).statement main.dialect := by
  simp only [Service.remove, Except.ok_bind, searchConditions_text hne, Compiler.delete,
    Write.deleteOf?, htable]
  exact ⟨_, _, rfl, rfl⟩

theorem permanentDelete_text : ∃ p,
    (knowing table).permanentDelete "main" table filter = .ok p := by
  obtain ⟨p, chain, hp, -⟩ := remove_text hne htable
  simp only [Service.permanentDelete, find?_knowing, Except.ok_bind, hp]
  exact ⟨_, rfl⟩

theorem delete_text : ∃ p, (knowing table).delete "main" table filter = .ok p ∧
    p.statement.Removes := by
  obtain ⟨p, chain, hp, hstatement⟩ := remove_text hne htable
  simp only [Service.delete, find?_knowing, Except.ok_bind, column?_text hne, hp]
  refine ⟨p, rfl, ?_⟩
  rw [hstatement]
  exact Write.removes_delete _ _ _

omit hne htable in
/-- Numbers are in the clear. -/
theorem not_concealsBase {op : Service → String → Except Fault (Prepared AffectedInfo)}
    {p : Prepared AffectedInfo} (hp : op (knowing table) "main" = .ok p)
    (hparams : ∀ value ∈ p.statement.params, ∃ n, value = .int n) :
    ¬ConcealsBase table [row] op := by
  intro h
  obtain ⟨stored, more, ⟨w, -, -, -, hall⟩, hconceals⟩ :=
    h _ "main" main p (find?_knowing table) hp
  have hcolumns : (knowing table).vault.columns.get main.name (Vault.baseTable table) =
      state.encrypted := congrArg TableState.encrypted (tableState_knowing table)
  rw [hcolumns] at hconceals
  cases hconceals with
  | cons hrow _ =>
      obtain ⟨hsome, hconcealed⟩ := hrow _ List.mem_cons_self
      obtain ⟨value, hvalue⟩ := Option.isSome_iff_exists.mp (hsome rfl)
      have hmem : value ∈ p.statement.params := by
        rw [hall]
        exact List.mem_append_left _
          (List.mem_flatMap.mpr ⟨_, List.mem_cons_self, NameMap.mem_values hvalue⟩)
      obtain ⟨n, rfl⟩ := hparams value hmem
      cases hconcealed _ hvalue

end

end Example

/-! ## Operation by operation -/

section

open Example

variable {table : String}

/-- The two services of the example tell a text from the name of its table. -/
theorem name_of_usesBase {α : Type} {op : Service → String → Except Fault (Prepared α)}
    (h : UsesBase [table] op)
    (hop : Vault.baseTable table ≠ table → op (knowing table) "main" ≠ op (knowingBoth table) "main") :
    Vault.baseTable table = table := by
  by_contra hne
  exact hop hne (eq_of_usesBase hne h)

theorem usesBase_softDelete_iff :
    (∀ conditions, UsesBase [table] fun s connection => s.softDelete connection table conditions) ↔
      Vault.baseTable table = table := by
  constructor
  · intro h
    refine name_of_usesBase (h filter) fun hne => ?_
    rw [softDelete_text hne, softDelete_both hne]
    simp
  · exact fun h => usesBase_softDelete h

theorem usesBase_restore_iff :
    (∀ conditions, UsesBase [table] fun s connection => s.restore connection table conditions) ↔
      Vault.baseTable table = table := by
  constructor
  · intro h
    refine name_of_usesBase (h filter) fun hne => ?_
    rw [restore_text hne, restore_both hne]
    simp
  · exact fun h => usesBase_restore h

variable {r : Reference} (htable : Reference.of? table = .ok r)
include htable

theorem usesBase_insert_iff :
    (∀ rows nonces, UsesBase [table] fun s connection => s.insert connection table rows nonces) ↔
      Vault.baseTable table = table := by
  constructor
  · intro h
    -- once the columns are known under the text too, the key of one is looked for and is missing
    refine name_of_usesBase (h [row] nonces) fun hne => ?_
    obtain ⟨p, hp, -⟩ := insert_text hne htable
    obtain ⟨fault, hfault⟩ := insert_both hne
    rw [hp, hfault]
    simp
  · exact fun h => usesBase_insert h

theorem usesBase_update_iff :
    (∀ values conditions nonces, UsesBase [table] fun s connection =>
      s.update connection table values conditions nonces) ↔ Vault.baseTable table = table := by
  constructor
  · intro h
    refine name_of_usesBase (h row filter nonces) fun hne => ?_
    obtain ⟨p, hp, -⟩ := update_text hne htable
    obtain ⟨fault, hfault⟩ := update_both hne
    rw [hp, hfault]
    simp
  · exact fun h => usesBase_update h

theorem usesBase_upsert_iff :
    (∀ rows uniqueBy update nonces, UsesBase [table] fun s connection =>
      s.upsert connection table rows uniqueBy update nonces) ↔ Vault.baseTable table = table := by
  constructor
  · intro h
    refine name_of_usesBase (h [row] ["x"] none nonces) fun hne => ?_
    obtain ⟨p, hp, -⟩ := upsert_text hne htable
    obtain ⟨fault, hfault⟩ := upsert_both hne
    rw [hp, hfault]
    simp
  · exact fun h => usesBase_upsert h

theorem usesBase_delete_iff :
    (∀ conditions, UsesBase [table] fun s connection => s.delete connection table conditions) ↔
      Vault.baseTable table = table := by
  constructor
  · intro h
    refine name_of_usesBase (h filter) fun hne => ?_
    obtain ⟨p, hp, -⟩ := delete_text hne htable
    rw [hp, delete_both hne]
    simp
  · exact fun h => usesBase_delete h

theorem usesBase_permanentDelete_iff :
    (∀ conditions, UsesBase [table] fun s connection =>
      s.permanentDelete connection table conditions) ↔ Vault.baseTable table = table := by
  constructor
  · intro h
    refine name_of_usesBase (h filter) fun hne => ?_
    obtain ⟨p, hp⟩ := permanentDelete_text hne htable
    rw [hp, permanentDelete_both hne]
    simp
  · exact fun h => usesBase_permanentDelete h

theorem concealsBase_insert_iff :
    (∀ rows nonces, ConcealsBase table rows fun s connection =>
      s.insert connection table rows nonces) ↔ Vault.baseTable table = table := by
  constructor
  · intro h
    by_contra hne
    obtain ⟨p, hp, hparams⟩ := insert_text hne htable
    exact not_concealsBase hp (by simp [hparams]) (h [row] nonces)
  · exact fun h => concealsBase_insert h

theorem concealsBase_update_iff :
    (∀ values conditions nonces, ConcealsBase table [values] fun s connection =>
      s.update connection table values conditions nonces) ↔ Vault.baseTable table = table := by
  constructor
  · intro h
    by_contra hne
    obtain ⟨p, hp, hparams⟩ := update_text hne htable
    exact not_concealsBase hp (by simp [hparams]) (h row filter nonces)
  · exact fun h => concealsBase_update h

theorem concealsBase_upsert_iff :
    (∀ rows uniqueBy update nonces, ConcealsBase table rows fun s connection =>
      s.upsert connection table rows uniqueBy update nonces) ↔ Vault.baseTable table = table := by
  constructor
  · intro h
    by_contra hne
    obtain ⟨p, hp, hparams⟩ := upsert_text hne htable
    exact not_concealsBase hp (by simp [hparams]) (h [row] ["x"] none nonces)
  · exact fun h => concealsBase_upsert h

theorem keepsBase_delete_iff :
    (∀ conditions, KeepsBase table fun s connection => s.delete connection table conditions) ↔
      Vault.baseTable table = table := by
  constructor
  · intro h
    by_contra hne
    obtain ⟨p, hp, hremoves⟩ := delete_text hne htable
    have hcolumn : (knowing table).catalog.column? main.name (Vault.baseTable table) =
        some "gone" := congrArg TableState.softDelete (tableState_knowing table)
    exact h filter _ "main" _ "gone" p (find?_knowing table) hcolumn hp hremoves
  · exact fun h => keepsBase_delete h

end

end Service

/-- Of a text that is accepted for a table, queries and counts use what is remembered about the table that
the text names. Each operation that writes does so if and only if the text is the name of its table, that
is, if it has neither an alias nor blanks around it; and only then does nothing go in the clear into
encrypted columns of the table, and no deletion remove rows where it keeps deleted ones. -/
theorem Service.usesBase_iff {table : String} {r : Reference} (htable : Reference.of? table = .ok r) :
    ColumnExpr.of? (Vault.baseTable table) = .ok r.expression ∧
    (Vault.baseTable table = table ↔ r.label = none ∧ Text.trim table = table) ∧
    (∀ spec, UsesBase (table :: spec.tables) fun s connection => s.query connection table spec) ∧
    (∀ conditions, UsesBase [table] fun s connection => s.count connection table conditions) ∧
    ((∀ rows nonces, UsesBase [table] fun s connection => s.insert connection table rows nonces) ↔
      Vault.baseTable table = table) ∧
    ((∀ values conditions nonces, UsesBase [table] fun s connection =>
      s.update connection table values conditions nonces) ↔ Vault.baseTable table = table) ∧
    ((∀ rows uniqueBy update nonces, UsesBase [table] fun s connection =>
      s.upsert connection table rows uniqueBy update nonces) ↔ Vault.baseTable table = table) ∧
    ((∀ conditions, UsesBase [table] fun s connection => s.delete connection table conditions) ↔
      Vault.baseTable table = table) ∧
    ((∀ conditions, UsesBase [table] fun s connection => s.softDelete connection table conditions) ↔
      Vault.baseTable table = table) ∧
    ((∀ conditions, UsesBase [table] fun s connection =>
      s.permanentDelete connection table conditions) ↔ Vault.baseTable table = table) ∧
    ((∀ conditions, UsesBase [table] fun s connection => s.restore connection table conditions) ↔
      Vault.baseTable table = table) ∧
    ((∀ rows nonces, ConcealsBase table rows fun s connection =>
      s.insert connection table rows nonces) ↔ Vault.baseTable table = table) ∧
    ((∀ values conditions nonces, ConcealsBase table [values] fun s connection =>
      s.update connection table values conditions nonces) ↔ Vault.baseTable table = table) ∧
    ((∀ rows uniqueBy update nonces, ConcealsBase table rows fun s connection =>
      s.upsert connection table rows uniqueBy update nonces) ↔ Vault.baseTable table = table) ∧
    ((∀ conditions, KeepsBase table fun s connection => s.delete connection table conditions) ↔
      Vault.baseTable table = table) :=
  ⟨Reference.of?_baseTable htable, Reference.baseTable_eq_self htable,
    usesBase_query table, usesBase_count table,
    usesBase_insert_iff htable, usesBase_update_iff htable, usesBase_upsert_iff htable,
    usesBase_delete_iff htable, usesBase_softDelete_iff, usesBase_permanentDelete_iff htable,
    usesBase_restore_iff, concealsBase_insert_iff htable, concealsBase_update_iff htable,
    concealsBase_upsert_iff htable, keepsBase_delete_iff htable⟩

/-- Of a text with a blank before the name of its table, deletions do not keep deleted rows; of the name
itself they do. -/
theorem Service.usesBase_iff_posts :
    (∃ r, Reference.of? " posts" = .ok r ∧
      (∀ conditions, UsesBase [" posts"] fun s connection => s.count connection " posts" conditions) ∧
      ¬∀ conditions, KeepsBase " posts" fun s connection => s.delete connection " posts" conditions) ∧
    ∃ r, Reference.of? "posts" = .ok r ∧
      ∀ conditions, KeepsBase "posts" fun s connection => s.delete connection "posts" conditions := by
  obtain ⟨r, hr⟩ : ∃ r, Reference.of? " posts" = .ok r := Except.exists_of_isOk (by decide +kernel)
  obtain ⟨q, hq⟩ : ∃ q, Reference.of? "posts" = .ok q := Except.exists_of_isOk (by decide +kernel)
  have hne : Vault.baseTable " posts" ≠ " posts" := by decide +kernel
  have hname : Vault.baseTable "posts" = "posts" := by decide +kernel
  obtain ⟨-, -, -, hcount, -, -, -, -, -, -, -, -, -, -, hdelete⟩ := Service.usesBase_iff hr
  obtain ⟨-, -, -, -, -, -, -, -, -, -, -, -, -, -, hkeeps⟩ := Service.usesBase_iff hq
  exact ⟨⟨r, hr, hcount, fun h => hne (hdelete.mp h)⟩, q, hq, hkeeps.mpr hname⟩

/-- A row of a table that keeps deleted rows is removed when it is deleted under an alias. -/
theorem Session.delete_aliased_removes :
    let c : Connection := ⟨"central", .sqlite, "sqlite::memory:", .shared, 10⟩
    let vault := Vault.new .standard ⟨[⟨1, List.replicate 32 7⟩], ⟨1, List.replicate 32 7⟩⟩ []
      .chacha20Poly1305
    let done : AffectedInfo := { affectedRows := 1, lastInsertId := some 1 }
    let start : Session := {
      service := ⟨⟨.ofList [("central", c)], none, .empty⟩, vault, .empty, .guarded⟩
      replies := [.done, .affected done, .affected done] }
    let posts : TableBlueprint := {
      columns := [{ name := "id", type := .increments }, { name := "title", type := .string }]
      softDelete := true }
    let nonces : Nonces := fun _ _ => ⟨List.replicate 24 0, rfl⟩
    let created := (start.applySchema "central" "posts" (.createTable posts)).2
    let insertion := .insert [.ofList [("title", .text "a")]]
    let inserted := (created.carryOut "central" "posts" insertion nonces).2
    let deletion := .delete [.eq "id" (.int 1)]
    let deleted := (inserted.carryOut "central" "posts AS p" deletion nonces).2
    inserted.service.catalog.column? "central" (Vault.baseTable "posts AS p") = some "deleted_at" ∧
      (deleted.sent.drop 1).map (·.2.sql) =
        ["INSERT INTO \"posts\" (\"title\") VALUES (?)",
          "DELETE FROM \"posts\" AS \"p\" WHERE \"id\" = ?"] := by
  decide +kernel

end TableGate
