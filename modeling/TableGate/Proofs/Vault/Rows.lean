import TableGate.Proofs.NameMap
import TableGate.Proofs.Vault.Envelope

/-! # Encrypted rows

The columns of a row are encrypted one after the other. If no column gets in the way of another one, each
is found as it was encrypted, and everything else as it was given. -/

namespace TableGate

/-- No column, and no hash column, gets in the way of another one. -/
structure EncryptedColumn.Separate (columns : List EncryptedColumn) : Prop where
  columns_nodup : (columns.map (·.column)).Nodup
  hashes_nodup : (columns.filterMap (·.hashColumn)).Nodup
  hashes_fresh : ∀ h ∈ columns.filterMap (·.hashColumn), h ∉ columns.map (·.column)

theorem EncryptedColumn.Separate.tail {e : EncryptedColumn} {rest : List EncryptedColumn}
    (h : Separate (e :: rest)) : Separate rest := by
  refine ⟨(List.nodup_cons.mp h.columns_nodup).2, ?_, ?_⟩
  · exact h.hashes_nodup.sublist ((List.sublist_cons_self e rest).filterMap _)
  · intro hash hhash hmem
    obtain ⟨e', he', hcolumn⟩ := List.mem_filterMap.mp hhash
    exact h.hashes_fresh hash (List.mem_filterMap.mpr ⟨e', List.mem_cons_of_mem _ he', hcolumn⟩)
      (List.mem_cons_of_mem _ hmem)

namespace EncryptedColumn.Separate

variable {columns rest : List EncryptedColumn} {e f : EncryptedColumn}

theorem hash_ne_column (h : Separate columns) (he : e ∈ columns) (hf : f ∈ columns) :
    e.hashColumn ≠ some f.column := fun hhash =>
  h.hashes_fresh f.column (List.mem_filterMap.mpr ⟨e, he, hhash⟩) (List.mem_map_of_mem hf)

theorem column_ne_head (h : Separate (e :: rest)) (hf : f ∈ rest) : f.column ≠ e.column := fun hsame =>
  (List.nodup_cons.mp h.columns_nodup).1 (List.mem_map.mpr ⟨f, hf, hsame⟩)

theorem hash_ne_head (h : Separate (e :: rest)) (hf : f ∈ rest) {hash : String}
    (hhash : e.hashColumn = some hash) : f.hashColumn ≠ some hash := by
  intro hsame
  have hnodup := h.hashes_nodup
  rw [List.filterMap_cons_some hhash] at hnodup
  exact (List.nodup_cons.mp hnodup).1 (List.mem_filterMap.mpr ⟨f, hf, hsame⟩)

/-- A hash column belongs to one column only. -/
theorem eq_of_hash (h : Separate columns) (he : e ∈ columns) (hf : f ∈ columns) {hash : String}
    (hehash : e.hashColumn = some hash) (hfhash : f.hashColumn = some hash) : e = f := by
  induction columns with
  | nil => cases he
  | cons head rest ih =>
      rcases List.mem_cons.mp he with rfl | herest <;> rcases List.mem_cons.mp hf with rfl | hfrest
      · rfl
      · exact absurd hfhash (h.hash_ne_head hfrest hehash)
      · exact absurd hehash (h.hash_ne_head herest hfhash)
      · exact ih h.tail herest hfrest

end EncryptedColumn.Separate

namespace Vault

/-- The stored row is the given one with its values in the columns encrypted: null stays null, any other
value is sealed under the key of its column, each beside its hash, and nothing else changes. -/
structure Seals (v : Vault) (table : String) (columns : List EncryptedColumn) (given stored : Row) :
    Prop where
  absent : ∀ e ∈ columns, given.get? e.column = none → stored.get? e.column = none
  null : ∀ e ∈ columns, given.get? e.column = some .null →
    stored.get? e.column = some .null ∧ ∀ h ∈ e.hashColumn, stored.get? h = some .null
  envelope : ∀ e ∈ columns, ∀ y, given.get? e.column = some y → y ≠ .null →
    (∃ key nonce, v.keyFor table e = .ok key ∧ stored.get? e.column = some (.text
      (v.sealBytes e.algorithm key nonce (columnBinding table e.column) (Bytes.ofText y.render)).text)) ∧
    ∀ h ∈ e.hashColumn, stored.get? h = some (.text (v.hashValue y))
  other : ∀ n, (∀ e ∈ columns, (given.get? e.column).isSome → n ≠ e.column ∧ e.hashColumn ≠ some n) →
    stored.get? n = given.get? n

theorem get?_putHash (e : EncryptedColumn) (value : Value) (row : Row) (n : String) :
    (putHash e value row).get? n = if e.hashColumn = some n then some value else row.get? n := by
  unfold putHash
  split
  · rename_i h heq
    rw [NameMap.get?_insert, heq]
    by_cases hn : n = h
    · simp [hn]
    · simp [hn, Ne.symm hn]
  · rename_i heq
    simp [heq]

variable {v : Vault} {table : String}

/-- A row with one of its columns encrypted. -/
theorem seals_encryptColumn {row stored : Row} {e : EncryptedColumn} {nonce : Nonce}
    (he : e.hashColumn ≠ some e.column) (h : v.encryptColumn table row e nonce = .ok stored) :
    v.Seals table [e] row stored := by
  unfold encryptColumn at h
  split at h
  · rename_i hgiven
    cases h
    constructor
    · simp
    · simp [hgiven]
    · simp [hgiven]
    · exact fun n _ => rfl
  · rename_i hgiven
    cases h
    constructor
    · simp [hgiven]
    · simp only [List.mem_singleton]
      rintro e rfl -
      refine ⟨by rw [get?_putHash, if_neg he, hgiven], fun h hh => ?_⟩
      rw [get?_putHash, if_pos (Option.mem_def.mp hh)]
    · simp [hgiven]
    · intro n hn
      rw [get?_putHash, if_neg (hn e List.mem_cons_self (by simp [hgiven])).2]
  · rename_i value hnull hgiven
    simp only [Except.bind_eq_ok, Except.pure_eq_ok] at h
    obtain ⟨key, hkey, rfl⟩ := h
    constructor
    · simp [hgiven]
    · simp only [List.mem_singleton]
      rintro e rfl hvalue
      rw [hgiven, Option.some.injEq] at hvalue
      subst hvalue
      exact (hnull rfl).elim
    · simp only [List.mem_singleton]
      rintro e rfl y hy -
      rw [hgiven, Option.some.injEq] at hy
      subst hy
      refine ⟨⟨key, nonce, hkey, by simp⟩, fun hash hhash => ?_⟩
      have hne : hash ≠ e.column := by
        rintro rfl
        exact he hhash
      rw [NameMap.get?_insert, if_neg hne, get?_putHash,
        if_pos (Option.mem_def.mp hhash)]
    · intro n hn
      obtain ⟨hcolumn, hhash⟩ := hn e List.mem_cons_self (by simp [hgiven])
      rw [NameMap.get?_insert, if_neg hcolumn, get?_putHash, if_neg hhash]

/-- After one column the rest of the columns are still to be encrypted. -/
theorem Seals.trans {e : EncryptedColumn} {rest : List EncryptedColumn}
    (hseparate : EncryptedColumn.Separate (e :: rest)) {given middle stored : Row}
    (hfirst : v.Seals table [e] given middle) (hrest : v.Seals table rest middle stored) :
    v.Seals table (e :: rest) given stored := by
  -- The first column leaves the others as they were given, and they leave what it has made.
  have hothers : ∀ e' ∈ rest, middle.get? e'.column = given.get? e'.column := by
    intro e' he'
    refine hfirst.other e'.column fun f hf _ => ?_
    rw [List.mem_singleton.mp hf]
    exact ⟨hseparate.column_ne_head he',
      hseparate.hash_ne_column List.mem_cons_self (List.mem_cons_of_mem _ he')⟩
  have hcolumn : stored.get? e.column = middle.get? e.column := by
    refine hrest.other e.column fun f hf _ => ?_
    exact ⟨(hseparate.column_ne_head hf).symm,
      hseparate.hash_ne_column (List.mem_cons_of_mem _ hf) List.mem_cons_self⟩
  have hhash : ∀ h ∈ e.hashColumn, stored.get? h = middle.get? h := by
    intro h hh
    refine hrest.other h fun f hf _ => ⟨?_, hseparate.hash_ne_head hf hh⟩
    rintro rfl
    exact hseparate.hash_ne_column List.mem_cons_self (List.mem_cons_of_mem _ hf) hh
  constructor
  · intro f hf hgiven
    rcases List.mem_cons.mp hf with rfl | hf
    · rw [hcolumn]
      exact hfirst.absent f List.mem_cons_self hgiven
    · exact hrest.absent f hf (by rw [hothers f hf, hgiven])
  · intro f hf hgiven
    rcases List.mem_cons.mp hf with rfl | hf
    · obtain ⟨hvalue, hhashed⟩ := hfirst.null f List.mem_cons_self hgiven
      exact ⟨by rw [hcolumn, hvalue], fun h hh => by rw [hhash h hh, hhashed h hh]⟩
    · exact hrest.null f hf (by rw [hothers f hf, hgiven])
  · intro f hf y hgiven hy
    rcases List.mem_cons.mp hf with rfl | hf
    · obtain ⟨⟨key, nonce, hkey, hvalue⟩, hhashed⟩ :=
        hfirst.envelope f List.mem_cons_self y hgiven hy
      exact ⟨⟨key, nonce, hkey, by rw [hcolumn, hvalue]⟩,
        fun h hh => by rw [hhash h hh, hhashed h hh]⟩
    · exact hrest.envelope f hf y (by rw [hothers f hf, hgiven]) hy
  · intro n hn
    have hmiddle : middle.get? n = given.get? n := by
      refine hfirst.other n fun f hf hgiven => ?_
      rw [List.mem_singleton.mp hf] at hgiven ⊢
      exact hn e List.mem_cons_self hgiven
    rw [← hmiddle]
    refine hrest.other n fun f hf hgiven => ?_
    rw [hothers f hf] at hgiven
    exact hn f (List.mem_cons_of_mem _ hf) hgiven

theorem seals_encryptColumns {columns : List EncryptedColumn}
    (hseparate : EncryptedColumn.Separate columns) {nonces : ℕ → Nonce} {row stored : Row}
    (h : v.encryptColumns table nonces columns row = .ok stored) :
    v.Seals table columns row stored := by
  induction columns generalizing nonces row with
  | nil =>
      cases h
      exact ⟨by simp, by simp, by simp, fun n _ => rfl⟩
  | cons e rest ih =>
      simp only [encryptColumns, Except.bind_eq_ok] at h
      obtain ⟨middle, hmiddle, h⟩ := h
      -- otherwise the hash of the column would be written over its ciphertext
      have hfresh := hseparate.hash_ne_column List.mem_cons_self List.mem_cons_self
      have hfirst := seals_encryptColumn hfresh hmiddle
      exact hfirst.trans hseparate (ih hseparate.tail h)

/-- What holds of every row and what it is encrypted to holds of rows that are encrypted together. -/
theorem forall₂_encryptRows {connection : String} {R : Row → Row → Prop}
    (hR : ∀ nonces row stored, v.encryptRow connection table nonces row = .ok stored → R row stored)
    {nonces : Nonces} {rows stored : List Row} (h : v.encryptRows connection table nonces rows = .ok stored) :
    List.Forall₂ R rows stored := by
  induction rows generalizing nonces stored with
  | nil =>
      cases h
      exact .nil
  | cons row rest ih =>
      simp only [encryptRows, Except.bind_eq_ok, Except.pure_eq_ok] at h
      obtain ⟨first, hfirst, others, hothers, rfl⟩ := h
      exact .cons (hR _ _ _ hfirst) (ih hothers)

/-- Encrypting a column adds its hash column, if the row has the column. -/
theorem contains_encryptColumn {row stored : Row} {e : EncryptedColumn} {nonce : Nonce}
    (h : v.encryptColumn table row e nonce = .ok stored) (n : String) :
    stored.contains n = true ↔
      row.contains n = true ∨ (row.contains e.column = true ∧ e.hashColumn = some n) := by
  have hput (value : Value) (row : Row) :
      (putHash e value row).contains n = true ↔ row.contains n = true ∨ e.hashColumn = some n := by
    rw [NameMap.contains, NameMap.contains, get?_putHash]
    split <;> simp_all
  unfold encryptColumn at h
  split at h
  · rename_i hgiven
    cases h
    simp [NameMap.contains, hgiven]
  · rename_i hgiven
    cases h
    rw [hput]
    simp [NameMap.contains, hgiven]
  · rename_i value _ hgiven
    simp only [Except.bind_eq_ok, Except.pure_eq_ok] at h
    obtain ⟨key, -, rfl⟩ := h
    have hcolumn : row.contains e.column = true := by simp [NameMap.contains, hgiven]
    rw [NameMap.contains, NameMap.get?_insert]
    split
    · rename_i hn
      simp [hn, hcolumn]
    · rw [← NameMap.contains, hput]
      simp [hcolumn]

variable {columns : List EncryptedColumn} {nonces : ℕ → Nonce} {row stored : Row} {n : String}

/-- Encrypting keeps every column of a row. -/
theorem contains_of_encryptColumns (h : v.encryptColumns table nonces columns row = .ok stored)
    (hn : row.contains n = true) : stored.contains n = true := by
  induction columns generalizing nonces row with
  | nil =>
      cases h
      exact hn
  | cons e rest ih =>
      simp only [encryptColumns, Except.bind_eq_ok] at h
      obtain ⟨middle, hmiddle, h⟩ := h
      exact ih h ((contains_encryptColumn hmiddle n).mpr (.inl hn))

/-- A column that a row does not have is added as the hash column of an encrypted one. -/
theorem contains_or_hash_of_encryptColumns (h : v.encryptColumns table nonces columns row = .ok stored)
    (hn : stored.contains n = true) : row.contains n = true ∨ ∃ e ∈ columns, e.hashColumn = some n := by
  induction columns generalizing nonces row with
  | nil =>
      cases h
      exact .inl hn
  | cons e rest ih =>
      simp only [encryptColumns, Except.bind_eq_ok] at h
      obtain ⟨middle, hmiddle, h⟩ := h
      rcases ih h with hrow | ⟨f, hf, hhash⟩
      · rcases (contains_encryptColumn hmiddle n).mp hrow with hrow | ⟨-, hhash⟩
        · exact .inl hrow
        · exact .inr ⟨e, List.mem_cons_self, hhash⟩
      · exact .inr ⟨f, List.mem_cons_of_mem _ hf, hhash⟩

/-- Beside every encrypted column that a row has, it is stored with the hash column. -/
theorem contains_hash_of_encryptColumns (h : v.encryptColumns table nonces columns row = .ok stored)
    {e : EncryptedColumn} (he : e ∈ columns) (hcolumn : row.contains e.column = true)
    (hhash : e.hashColumn = some n) : stored.contains n = true := by
  induction columns generalizing nonces row with
  | nil => cases he
  | cons f rest ih =>
      simp only [encryptColumns, Except.bind_eq_ok] at h
      obtain ⟨middle, hmiddle, h⟩ := h
      rcases List.mem_cons.mp he with rfl | he
      · exact contains_of_encryptColumns h ((contains_encryptColumn hmiddle n).mpr (.inr ⟨hcolumn, hhash⟩))
      · exact ih h he ((contains_encryptColumn hmiddle e.column).mpr (.inl hcolumn))

/-! ## Faults of decryption -/

section

open Except.FailsWith

variable (v) (table)

theorem kind_openEnvelope (aad : Bytes) (text : String) :
    Except.FailsWith (fun fault => fault.kind = .decryption) (v.openEnvelope aad text) := by
  unfold openEnvelope
  split
  · exact error rfl
  · dsimp only
    split
    · exact ok _
    · exact error rfl

theorem kind_decryptColumn (row : Row) (e : EncryptedColumn) :
    Except.FailsWith (fun fault => fault.kind = .decryption) (v.decryptColumn table row e) := by
  unfold decryptColumn
  dsimp only
  split
  · split
    · refine (v.kind_openEnvelope _ _).bind fun bytes => ?_
      split
      · exact ok _
      · exact error rfl
    · exact ok _
  · exact ok _

/-- Whatever goes wrong when rows are decrypted is a fault of decryption. -/
theorem kind_decryptRow (connection : String) (row : Row) :
    Except.FailsWith (fun fault => fault.kind = .decryption) (v.decryptRow connection table row) :=
  foldlM (v.kind_decryptColumn table) _ row

end

end Vault

end TableGate
