import TableGate.Proofs.Failure
import TableGate.Proofs.Vault.Rows

/-! # Nothing in the clear

Whatever the encrypted columns of a table are, and in whatever way they get into each other's way, a row
that was encrypted has nothing in the clear in any of them. -/

namespace TableGate.Vault

/-- What may stand in an encrypted column: null, what the vault has sealed, and hashes. -/
inductive Concealed (v : Vault) : Value → Prop
  | null : Concealed v .null
  | envelope {table : String} {e : EncryptedColumn} {key : KeyMaterial} (hkey : v.keyFor table e = .ok key)
      (nonce : Nonce) (aad plaintext : Bytes) :
      Concealed v (.text (v.sealBytes e.algorithm key nonce aad plaintext).text)
  | hash (value : Value) : Concealed v (.text (v.hashValue value))

/-- The stored row has every encrypted column of the given one, and nothing in the clear in any. -/
def Conceals (v : Vault) (columns : List EncryptedColumn) (given stored : Row) : Prop :=
  ∀ e ∈ columns, ((given.get? e.column).isSome → (stored.get? e.column).isSome) ∧
    ∀ value, stored.get? e.column = some value → v.Concealed value

/-- What encryption leaves in an encrypted column: null, what the vault has sealed for it, and hashes. -/
inductive StoredIn (v : Vault) (table column : String) : Value → Prop
  | null : StoredIn v table column .null
  | envelope {e : EncryptedColumn} {key : KeyMaterial} (hkey : v.keyFor table e = .ok key) (nonce : Nonce)
      (plaintext : Bytes) : StoredIn v table column
        (.text (v.sealBytes e.algorithm key nonce (columnBinding table column) plaintext).text)
  | hash (value : Value) : StoredIn v table column (.text (v.hashValue value))

variable {v : Vault} {table : String}

theorem StoredIn.concealed {column : String} {value : Value} (h : v.StoredIn table column value) :
    v.Concealed value := by
  cases h with
  | null => exact .null
  | envelope hkey nonce plaintext => exact .envelope hkey nonce _ plaintext
  | hash value => exact .hash value

theorem isSome_encryptColumn {row stored : Row} {e : EncryptedColumn} {nonce : Nonce}
    (h : v.encryptColumn table row e nonce = .ok stored) {n : String} (hn : (row.get? n).isSome) :
    (stored.get? n).isSome := by
  unfold encryptColumn at h
  split at h
  · cases h
    exact hn
  · cases h
    rw [get?_putHash]
    split
    · rfl
    · exact hn
  · simp only [Except.bind_eq_ok, Except.pure_eq_ok] at h
    obtain ⟨key, -, rfl⟩ := h
    rw [NameMap.get?_insert, get?_putHash]
    split
    · rfl
    · split
      · rfl
      · exact hn

/-- Once a column is encrypted, only what encryption leaves stands in it, as in any column where only that has
stood before. -/
theorem storedIn_encryptColumn {row stored : Row} {e : EncryptedColumn} {nonce : Nonce}
    (h : v.encryptColumn table row e nonce = .ok stored) {n : String}
    (hn : n = e.column ∨ ∀ value, row.get? n = some value → v.StoredIn table n value) {value : Value}
    (hvalue : stored.get? n = some value) : v.StoredIn table n value := by
  unfold encryptColumn at h
  split at h
  · rename_i hgiven
    cases h
    rcases hn with rfl | hn
    · rw [hgiven] at hvalue
      cases hvalue
    · exact hn value hvalue
  · rename_i hgiven
    cases h
    rw [get?_putHash] at hvalue
    split at hvalue
    · cases hvalue
      exact .null
    · rcases hn with rfl | hn
      · rw [hgiven] at hvalue
        cases hvalue
        exact .null
      · exact hn value hvalue
  · simp only [Except.bind_eq_ok, Except.pure_eq_ok] at h
    obtain ⟨key, hkey, rfl⟩ := h
    rw [NameMap.get?_insert] at hvalue
    split at hvalue
    · rename_i hname
      cases hvalue
      exact hname ▸ .envelope hkey _ _
    · rename_i hne
      rw [get?_putHash] at hvalue
      split at hvalue
      · cases hvalue
        exact .hash _
      · exact hn.resolve_left hne value hvalue

theorem isSome_encryptColumns {columns : List EncryptedColumn} {nonces : ℕ → Nonce} {row stored : Row}
    (h : v.encryptColumns table nonces columns row = .ok stored) {n : String}
    (hn : (row.get? n).isSome) : (stored.get? n).isSome := by
  induction columns generalizing nonces row with
  | nil =>
      cases h
      exact hn
  | cons e rest ih =>
      simp only [encryptColumns, Except.bind_eq_ok] at h
      obtain ⟨middle, hmiddle, h⟩ := h
      exact ih h (isSome_encryptColumn hmiddle hn)

theorem storedIn_encryptColumns {columns : List EncryptedColumn} {nonces : ℕ → Nonce}
    {row stored : Row} (h : v.encryptColumns table nonces columns row = .ok stored) {n : String}
    (hn : n ∈ columns.map (·.column) ∨ ∀ value, row.get? n = some value → v.StoredIn table n value)
    {value : Value} (hvalue : stored.get? n = some value) : v.StoredIn table n value := by
  induction columns generalizing nonces row with
  | nil =>
      cases h
      exact hn.resolve_left List.not_mem_nil value hvalue
  | cons e rest ih =>
      simp only [encryptColumns, Except.bind_eq_ok] at h
      obtain ⟨middle, hmiddle, h⟩ := h
      refine ih h ?_
      -- a column that is described again below is overwritten there, whatever this step leaves in it
      by_cases hrest : n ∈ rest.map (·.column)
      · exact .inl hrest
      · refine .inr fun x hx => storedIn_encryptColumn hmiddle ?_ hx
        rcases hn with hn | hn
        · exact .inl ((List.mem_cons.mp hn).resolve_right hrest)
        · exact .inr hn

theorem conceals_encryptRow {connection : String} {nonces : ℕ → Nonce} {row stored : Row}
    (h : v.encryptRow connection table nonces row = .ok stored) :
    v.Conceals (v.columns.get connection table) row stored := by
  intro e he
  refine ⟨isSome_encryptColumns h, fun value hvalue => ?_⟩
  exact (storedIn_encryptColumns h (.inl (List.mem_map_of_mem he)) hvalue).concealed

/-- Of the rows that a vault has encrypted, none has anything in the clear in an encrypted column. -/
theorem conceals_encryptRows {connection : String} {nonces : Nonces} {rows stored : List Row}
    (h : v.encryptRows connection table nonces rows = .ok stored) :
    List.Forall₂ (v.Conceals (v.columns.get connection table)) rows stored :=
  forall₂_encryptRows (fun _ _ _ => conceals_encryptRow) h

end TableGate.Vault
