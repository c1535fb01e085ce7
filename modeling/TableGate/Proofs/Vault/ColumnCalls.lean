import Mathlib.Data.List.Nodup
import TableGate.Vault.Codec

/-! # Calls that change the encrypted columns

Columns are registered, renamed and taken away, each call in the list of one table. As long as no column is
renamed to another registered one, the columns of every table have different names. -/

namespace TableGate

/-- A call that changes which columns of a table are encrypted. -/
inductive ColumnCall where
  | register (connection table : String) (column : EncryptedColumn)
  | unregister (connection table column : String)
  | rename (connection table source target : String)
  | unregisterTable (connection table : String)

/-- No two of the columns have one name. -/
def EncryptedColumn.Distinct (columns : List EncryptedColumn) : Prop :=
  (columns.map (·.column)).Nodup

instance (columns : List EncryptedColumn) : Decidable (EncryptedColumn.Distinct columns) :=
  inferInstanceAs (Decidable (List.Nodup _))

namespace ColumnCall

/-- The connection and the table that a call is about. -/
def place : ColumnCall → String × String
  | .register connection table _ => (connection, table)
  | .unregister connection table _ => (connection, table)
  | .rename connection table _ _ => (connection, table)
  | .unregisterTable connection table => (connection, table)

/-- What a call makes of the columns of its table. -/
def change (columns : List EncryptedColumn) : ColumnCall → List EncryptedColumn
  | .register _ _ column => EncryptedColumn.register columns column
  | .unregister _ _ column => EncryptedColumn.unregister columns column
  | .rename _ _ source target => EncryptedColumn.rename columns source target
  | .unregisterTable _ _ => []

/-- The call renames one of the columns to another one of them. -/
def Collides (columns : List EncryptedColumn) : ColumnCall → Prop
  | .rename _ _ source target =>
    source ≠ target ∧ source ∈ columns.map (·.column) ∧ target ∈ columns.map (·.column)
  | _ => False

end ColumnCall

namespace EncryptedColumn

variable {columns : List EncryptedColumn}

theorem distinct_register (h : Distinct columns) (e : EncryptedColumn) : Distinct (register columns e) := by
  rw [Distinct, register, List.map_append, List.map_singleton, List.nodup_append]
  refine ⟨h.sublist (List.filter_sublist.map _), List.nodup_singleton _, fun name hname => ?_⟩
  obtain ⟨old, hold, rfl⟩ := List.mem_map.mp hname
  simpa using (List.mem_filter.mp hold).2

theorem distinct_unregister (h : Distinct columns) (column : String) : Distinct (unregister columns column) :=
  h.sublist (List.filter_sublist.map _)

theorem map_column_rename (columns : List EncryptedColumn) (source target : String) :
    (rename columns source target).map (·.column) =
      (columns.map (·.column)).map fun name => if name = source then target else name := by
  rw [rename, List.map_map, List.map_map]
  refine List.map_congr_left fun e _ => ?_
  simp only [Function.comp_apply]
  split <;> rfl

/-- Renaming keeps the names different unless it takes one of them to another one. -/
theorem distinct_rename_iff (h : Distinct columns) (source target : String) :
    Distinct (rename columns source target) ↔
      ¬(source ≠ target ∧ source ∈ columns.map (·.column) ∧ target ∈ columns.map (·.column)) := by
  rw [Distinct, map_column_rename, List.nodup_map_iff_inj_on h]
  constructor
  · rintro hinj ⟨hne, hsource, htarget⟩
    exact hne (hinj source hsource target htarget (by simp))
  · intro hfree x hx y hy hxy
    by_cases hsource : x = source <;> by_cases hother : y = source
    · rw [hsource, hother]
    · -- the renamed column meets one that keeps its name
      rw [if_pos hsource, if_neg hother] at hxy
      exact absurd ⟨fun hsame => hother (by rw [← hxy, hsame]), hsource ▸ hx, hxy ▸ hy⟩ hfree
    · rw [if_neg hsource, if_pos hother] at hxy
      exact absurd ⟨fun hsame => hsource (by rw [hxy, hsame]), hother ▸ hy, hxy ▸ hx⟩ hfree
    · rwa [if_neg hsource, if_neg hother] at hxy

end EncryptedColumn

/-- A call keeps the columns of its table different unless it renames one of them to another one. -/
theorem ColumnCall.distinct_change_iff {columns : List EncryptedColumn} (h : EncryptedColumn.Distinct columns)
    (call : ColumnCall) : EncryptedColumn.Distinct (call.change columns) ↔ ¬call.Collides columns := by
  cases call with
  | register _ _ column => simp [change, Collides, EncryptedColumn.distinct_register h]
  | unregister _ _ column => simp [change, Collides, EncryptedColumn.distinct_unregister h]
  | rename _ _ source target => exact EncryptedColumn.distinct_rename_iff h source target
  | unregisterTable => simp [change, Collides, EncryptedColumn.Distinct]

namespace Vault

/-- The vault after a call. -/
def record (v : Vault) : ColumnCall → Vault
  | .register connection table column => v.register connection table column
  | .unregister connection table column => v.unregister connection table column
  | .rename connection table source target => v.rename connection table source target
  | .unregisterTable connection table => v.unregisterTable connection table

/-- The columns that are registered for a table at a place. -/
def columnsAt (v : Vault) (place : String × String) : List EncryptedColumn :=
  v.columns.get place.1 place.2

/-- No table has two registered columns of one name. -/
def Tidy (v : Vault) : Prop :=
  ∀ place, EncryptedColumn.Distinct (v.columnsAt place)

theorem tidy_new (suite : CipherSuite) (keys : KeyRing) (pepper : Bytes) (algorithm : CipherAlgorithm) :
    (Vault.new suite keys pepper algorithm).Tidy := by
  intro place
  simp [columnsAt, Vault.new, EncryptedColumn.Distinct]

theorem columnsAt_record_self (v : Vault) (call : ColumnCall) :
    (v.record call).columnsAt call.place = call.change (v.columnsAt call.place) := by
  cases call <;> exact PerTable.get_set_self _ _ _ _

/-- A call leaves the columns of every other table as they are. -/
theorem columnsAt_record_of_ne (v : Vault) {call : ColumnCall} {place : String × String}
    (h : place ≠ call.place) : (v.record call).columnsAt place = v.columnsAt place := by
  have hne : ¬(place.1 = call.place.1 ∧ place.2 = call.place.2) := fun hsame => h (Prod.ext hsame.1 hsame.2)
  cases call <;> exact PerTable.get_set_of_ne _ _ hne

theorem tidy_record_iff {v : Vault} (h : v.Tidy) (call : ColumnCall) :
    (v.record call).Tidy ↔ ¬call.Collides (v.columnsAt call.place) := by
  rw [← call.distinct_change_iff (h call.place), ← columnsAt_record_self]
  refine ⟨fun htidy => htidy call.place, fun hself place => ?_⟩
  by_cases hplace : place = call.place
  · exact hplace ▸ hself
  · exact columnsAt_record_of_ne v hplace ▸ h place

theorem tidy_calls_iff {v : Vault} (h : v.Tidy) (calls : List ColumnCall) :
    (∀ before after, calls = before ++ after → (before.foldl record v).Tidy) ↔
      ∀ before call after, calls = before ++ call :: after →
        ¬call.Collides ((before.foldl record v).columnsAt call.place) := by
  induction calls generalizing v with
  | nil => simp [h]
  | cons call calls ih =>
      by_cases hcall : call.Collides (v.columnsAt call.place)
      · constructor
        · intro htidy
          exact absurd hcall ((tidy_record_iff h call).mp (htidy [call] calls rfl))
        · intro hfree
          exact absurd hcall (hfree [] call calls rfl)
      · specialize ih ((tidy_record_iff h call).mpr hcall)
        constructor
        · intro htidy before next after hsplit
          cases before with
          | nil =>
              obtain ⟨rfl, -⟩ := List.cons.inj hsplit
              exact hcall
          | cons first before =>
              obtain ⟨rfl, htail⟩ := List.cons.inj hsplit
              exact ih.mp (fun b a hb => htidy (call :: b) a (by rw [hb]; rfl)) before next after htail
        · intro hfree before after hsplit
          cases before with
          | nil => exact h
          | cons first before =>
              obtain ⟨rfl, htail⟩ := List.cons.inj hsplit
              exact ih.mpr (fun b c a hb => hfree (call :: b) c a (by rw [hb]; rfl)) before after htail

/-- From a new vault on, no table ever has two registered columns of one name, if and only if no call renames
a registered column to another one; and whatever is called, only the table of the call changes. -/
theorem tidy_along_iff (suite : CipherSuite) (keys : KeyRing) (pepper : Bytes) (algorithm : CipherAlgorithm)
    (calls : List ColumnCall) :
    ((∀ before after, calls = before ++ after →
        (before.foldl record (Vault.new suite keys pepper algorithm)).Tidy) ↔
      ∀ before call after, calls = before ++ call :: after → ¬call.Collides
        ((before.foldl record (Vault.new suite keys pepper algorithm)).columnsAt call.place)) ∧
    ∀ (v : Vault) (call : ColumnCall) (place : String × String), place ≠ call.place →
      (v.record call).columnsAt place = v.columnsAt place :=
  ⟨tidy_calls_iff (tidy_new suite keys pepper algorithm) calls, fun v _ _ => columnsAt_record_of_ne v⟩

/-- A column that is renamed to another registered one stands beside it under the same name. -/
theorem renamed_beside_registered :
    let keys : KeyRing := ⟨[⟨1, List.replicate 32 7⟩], ⟨1, List.replicate 32 7⟩⟩
    let calls : List ColumnCall := [.register "central" "users" (.sealed "a"),
      .register "central" "users" (.sealed "b"), .rename "central" "users" "a" "b"]
    let vault := calls.foldl record (Vault.new .standard keys [] .chacha20Poly1305)
    vault.columnsAt ("central", "users") = [.sealed "b", .sealed "b"] ∧ ¬vault.Tidy := by
  intro keys calls vault
  have hcolumns : vault.columnsAt ("central", "users") = [.sealed "b", .sealed "b"] := rfl
  refine ⟨hcolumns, fun htidy => ?_⟩
  have hdistinct := htidy ("central", "users")
  rw [hcolumns] at hdistinct
  exact absurd hdistinct (by decide)

end Vault

end TableGate
