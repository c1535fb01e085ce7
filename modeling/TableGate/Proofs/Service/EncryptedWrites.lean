import TableGate.Proofs.Query.Writes
import TableGate.Proofs.Vault.Rows
import TableGate.Service.Request

/-! # Writes to tables with encrypted columns

Every write of rows sends them as the vault has protected them, in a statement that binds each value under
the name of its column. -/

namespace TableGate

/-- The prepared statement writes the stored rows: it binds their values, each under the name of its column,
and behind them some more. -/
def Prepared.Writes (p : Prepared AffectedInfo) (c : Connection) (stored : List Row)
    (more : List Value) : Prop :=
  ∃ w : Write, w.bound = stored.map NameMap.entries ∧ p.connection = c ∧
    p.statement = w.statement c.dialect ∧ p.statement.params = stored.flatMap NameMap.values ++ more

namespace Service

variable {s : Service} {c : Connection} {connection table : String} {nonces : Nonces}
  {p : Prepared AffectedInfo}

theorem writes_insert (hc : s.registry.find? connection = .ok c) {rows : List Row}
    (h : s.insert connection table rows nonces = .ok p) :
    ∃ stored, s.vault.encryptRows c.name table nonces rows = .ok stored ∧ p.Writes c stored [] := by
  simp only [Service.insert, hc, Except.bind_eq_ok, Except.pure_eq_ok, Except.ok.injEq] at h
  obtain ⟨_, rfl, stored, hstored, statement, hstatement, rfl⟩ := h
  obtain ⟨w, hw, rfl⟩ := Except.map_eq_ok.mp hstatement
  obtain ⟨hbound, hparams⟩ := Write.bound_of_insertOf? hw
  refine ⟨stored, hstored, w, hbound, rfl, rfl, ?_⟩
  rw [List.append_nil]
  exact hparams c.dialect

/-- An upsert is prepared only where no encrypted column is a unique one; it is compiled from the encrypted
rows, and the columns that are asked for are accompanied by hash columns. -/
theorem upsert_eq_ok {rows : List Row} {uniqueBy : List String} {update : Option (List String)}
    (h : s.upsert connection table rows uniqueBy update nonces = .ok p) :
    ∃ c stored statement, s.registry.find? connection = .ok c ∧
      (∀ e ∈ s.vault.columns.get c.name table, e.column ∉ uniqueBy) ∧
      s.vault.encryptRows c.name table nonces rows = .ok stored ∧
      (s.compiler c).upsert table stored uniqueBy
        (update.map (withHashColumns (s.vault.columns.get c.name table))) = .ok statement ∧
      p = .write c statement := by
  simp only [Service.upsert, Except.bind_eq_ok] at h
  obtain ⟨c, hc, h⟩ := h
  split at h
  · cases h
  · rename_i hfind
    simp only [Except.bind_eq_ok, Except.pure_eq_ok] at h
    obtain ⟨stored, hstored, statement, hstatement, rfl⟩ := h
    refine ⟨c, stored, statement, hc, fun e he => ?_, hstored, hstatement, rfl⟩
    simpa using List.find?_eq_none.mp hfind e he

theorem writes_upsert (hc : s.registry.find? connection = .ok c) {rows : List Row}
    {uniqueBy : List String} {update : Option (List String)}
    (h : s.upsert connection table rows uniqueBy update nonces = .ok p) :
    ∃ stored, s.vault.encryptRows c.name table nonces rows = .ok stored ∧ p.Writes c stored [] := by
  obtain ⟨_, stored, statement, hfound, -, hstored, hstatement, rfl⟩ := upsert_eq_ok h
  obtain rfl := Except.ok.inj (hc.symm.trans hfound)
  obtain ⟨w, hw, rfl⟩ := Except.map_eq_ok.mp hstatement
  obtain ⟨hbound, hparams⟩ := Write.bound_of_upsertOf? hw
  refine ⟨stored, hstored, w, hbound, rfl, rfl, ?_⟩
  rw [List.append_nil]
  exact hparams c.dialect

/-- Behind the values of its row, an update binds those of its conditions. -/
theorem writes_update (hc : s.registry.find? connection = .ok c) {values : Row}
    {conditions : List Condition} (h : s.update connection table values conditions nonces = .ok p) :
    ∃ stored searched, s.vault.encryptRow c.name table (nonces 0) values = .ok stored ∧
      s.vault.searchConditions c.name table conditions = .ok searched ∧
      p.Writes c [stored] (Condition.boundValuesOf searched) := by
  simp only [Service.update, hc, Except.bind_eq_ok, Except.pure_eq_ok, Except.ok.injEq] at h
  obtain ⟨_, -, _, rfl, stored, hstored, searched, hsearched, statement, hstatement, rfl⟩ := h
  obtain ⟨w, hw, rfl⟩ := Except.map_eq_ok.mp hstatement
  obtain ⟨hbound, hparams⟩ := Write.bound_of_updateOf? hw
  refine ⟨stored, searched, hstored, hsearched, w, hbound, rfl, rfl, ?_⟩
  rw [List.flatMap_cons, List.flatMap_nil, List.append_nil]
  exact hparams c.dialect

end Service

end TableGate
