import TableGate.Proofs.Json.Value
import TableGate.Proofs.Vault.KeyCalls
import TableGate.Proofs.Vault.Rows

/-! # Rows and texts are decrypted to what they were

What a vault has encrypted is decrypted by every vault that still has its keys. The columns of a row are
decrypted one after the other, and each takes back what its encryption has done to the row. -/

namespace TableGate

theorem Bytes.toText?_ofText (s : String) : toText? (ofText s) = some s := by
  have hbytes : (⟨(ofText s).toArray⟩ : ByteArray) = s.toByteArray :=
    ByteArray.ext Array.toArray_toList
  rw [toText?, hbytes, String.fromUTF8?, dif_pos s.isValidUTF8]
  rfl

theorem Envelope.opens_text (e : Envelope) : opens e.text = true := by
  rw [opens, text, String.toList_ofList, chars]
  rfl

namespace Vault

/-- The second vault still has the keys of the first one, and no other cipher. -/
structure Keeps (v w : Vault) : Prop where
  suite : w.suite = v.suite
  valid : w.keys.Valid
  mem : ∀ key ∈ v.keys.keys, key ∈ w.keys.keys

theorem keeps_calls {v : Vault} (hkeys : v.keys.Valid) (calls : List KeyCall) :
    v.Keeps (calls.foldl perform v) := by
  obtain ⟨hvalid, hmem⟩ := KeyRing.mem_of_calls hkeys calls
  rw [calls_eq]
  exact ⟨rfl, hvalid, hmem⟩

variable {v w : Vault}

theorem Keeps.sealBytes (h : v.Keeps w) : v.sealBytes = w.sealBytes := by
  funext algorithm key nonce aad plaintext
  rw [Vault.sealBytes, Vault.sealBytes, h.suite]

theorem Keeps.openEnvelope (h : v.Keeps w) (hsuite : v.suite.Sound) {key : KeyMaterial}
    (hkey : key ∈ v.keys.keys) (algorithm : CipherAlgorithm) (nonce : Nonce) (aad plaintext : Bytes) :
    w.openEnvelope aad (v.sealBytes algorithm key nonce aad plaintext).text = .ok plaintext := by
  rw [h.sealBytes]
  exact openEnvelope_sealBytes (h.suite ▸ hsuite) h.valid (h.mem key hkey) algorithm nonce aad plaintext

/-- A text is decrypted as long as the key that was active is kept. -/
theorem Keeps.decrypt_encrypt (h : v.Keeps w) (hsuite : v.suite.Sound) (hkeys : v.keys.Valid)
    (connection text : String) (nonce : Nonce) :
    w.decrypt connection (v.encrypt connection text nonce) = .ok text := by
  rw [Vault.decrypt, encrypt, h.openEnvelope hsuite hkeys.active_mem, Except.ok_bind,
    Bytes.toText?_ofText]

/-! ## Rows -/

theorem get?_dropHash (e : EncryptedColumn) (row : Row) (n : String) :
    (dropHash e row).get? n = if e.hashColumn = some n then none else row.get? n := by
  unfold dropHash
  split
  · rename_i h heq
    rw [NameMap.get?_erase, heq]
    by_cases hn : n = h
    · simp [hn]
    · simp [hn, Ne.symm hn]
  · rename_i heq
    simp [heq]

variable {table : String} {given stored : Row}

/-- A column is decrypted to what was given in it, its hash is taken away, and nothing else changes. -/
theorem Keeps.decryptColumn (h : v.Keeps w) (hsuite : v.suite.Sound) (hkeys : v.keys.Valid)
    {e : EncryptedColumn} (he : e.hashColumn ≠ some e.column) {columns : List EncryptedColumn}
    (hmem : e ∈ columns) (hseals : v.Seals table columns given stored)
    (hjson : ∀ y, given.get? e.column = some y → Json.parse? y.render = some y) :
    ∃ opened, w.decryptColumn table stored e = .ok opened ∧ ∀ n, opened.get? n =
      if n = e.column then given.get? n else if e.hashColumn = some n then none else stored.get? n := by
  have hdropped : (dropHash e stored).get? e.column = stored.get? e.column := by
    rw [get?_dropHash, if_neg he]
  have hleft (hsame : stored.get? e.column = given.get? e.column) (n : String) :
      (dropHash e stored).get? n =
        if n = e.column then given.get? n else if e.hashColumn = some n then none else stored.get? n := by
    rw [get?_dropHash]
    by_cases hn : n = e.column <;> simp [hn, he, hsame]
  cases hgiven : given.get? e.column with
  | none =>
      have hstored := hseals.absent e hmem hgiven
      refine ⟨dropHash e stored, ?_, hleft (by rw [hstored, hgiven])⟩
      simp only [Vault.decryptColumn, hdropped, hstored]
  | some y =>
      by_cases hy : y = .null
      · subst hy
        have hstored := (hseals.null e hmem hgiven).1
        refine ⟨dropHash e stored, ?_, hleft (by rw [hstored, hgiven])⟩
        simp only [Vault.decryptColumn, hdropped, hstored]
      · obtain ⟨⟨key, nonce, hkey, hstored⟩, -⟩ := hseals.envelope e hmem y hgiven hy
        have hopen := h.openEnvelope hsuite (keyFor_mem hkeys hkey) e.algorithm nonce
          (columnBinding table e.column) (Bytes.ofText y.render)
        refine ⟨(dropHash e stored).insert e.column y, ?_, fun n => ?_⟩
        · simp only [Vault.decryptColumn, hdropped, hstored, Envelope.opens_text, if_true, hopen,
            Except.ok_bind, Bytes.toText?_ofText, Option.bind_some, hjson y hgiven]
          rfl
        · rw [NameMap.get?_insert, get?_dropHash]
          by_cases hn : n = e.column
          · simp [hn, hgiven]
          · simp [hn]

/-- After one column the rest of the columns are still to be decrypted. -/
theorem Seals.of_decryptColumn {e : EncryptedColumn} {rest : List EncryptedColumn}
    (hseparate : EncryptedColumn.Separate (e :: rest)) (hseals : v.Seals table (e :: rest) given stored)
    (hunused : ∀ h ∈ e.hashColumn, given.get? h = none) {opened : Row}
    (hopened : ∀ n, opened.get? n =
      if n = e.column then given.get? n else if e.hashColumn = some n then none else stored.get? n) :
    v.Seals table rest given opened := by
  have hcolumn : ∀ f ∈ rest, opened.get? f.column = stored.get? f.column := by
    intro f hf
    rw [hopened, if_neg (hseparate.column_ne_head hf),
      if_neg (hseparate.hash_ne_column List.mem_cons_self (List.mem_cons_of_mem _ hf))]
  have hhash : ∀ f ∈ rest, ∀ h ∈ f.hashColumn, opened.get? h = stored.get? h := by
    intro f hf h hh
    have hcolumn : h ≠ e.column := by
      rintro rfl
      exact hseparate.hash_ne_column (List.mem_cons_of_mem _ hf) List.mem_cons_self hh
    rw [hopened, if_neg hcolumn, if_neg fun hsame => hseparate.hash_ne_head hf hsame hh]
  constructor
  · intro f hf hgiven
    rw [hcolumn f hf]
    exact hseals.absent f (List.mem_cons_of_mem _ hf) hgiven
  · intro f hf hgiven
    obtain ⟨hvalue, hhashed⟩ := hseals.null f (List.mem_cons_of_mem _ hf) hgiven
    exact ⟨by rw [hcolumn f hf, hvalue], fun h hh => by rw [hhash f hf h hh, hhashed h hh]⟩
  · intro f hf y hgiven hy
    obtain ⟨⟨key, nonce, hkey, hvalue⟩, hhashed⟩ :=
      hseals.envelope f (List.mem_cons_of_mem _ hf) y hgiven hy
    exact ⟨⟨key, nonce, hkey, by rw [hcolumn f hf, hvalue]⟩,
      fun h hh => by rw [hhash f hf h hh, hhashed h hh]⟩
  · intro n hn
    rw [hopened]
    split
    · rfl
    · rename_i hne
      split
      · rename_i hsame
        exact (hunused n hsame).symm
      · rename_i hfresh
        refine hseals.other n fun f hf hgiven => ?_
        rcases List.mem_cons.mp hf with rfl | hf
        · exact ⟨hne, hfresh⟩
        · exact hn f hf hgiven

/-- A stored row is decrypted to the row that was given, as long as that had nothing in the hash columns. -/
theorem Keeps.foldlM_decryptColumn (h : v.Keeps w) (hsuite : v.suite.Sound) (hkeys : v.keys.Valid)
    {columns : List EncryptedColumn} (hseparate : EncryptedColumn.Separate columns)
    (hseals : v.Seals table columns given stored)
    (hunused : ∀ e ∈ columns, ∀ h ∈ e.hashColumn, given.get? h = none)
    (hjson : ∀ e ∈ columns, ∀ y, given.get? e.column = some y → Json.parse? y.render = some y) :
    columns.foldlM (w.decryptColumn table) stored = .ok given := by
  induction columns generalizing stored with
  | nil =>
      have hsame : stored = given := NameMap.ext_get? fun n => hseals.other n (by simp)
      rw [hsame]
      rfl
  | cons e rest ih =>
      have he := hseparate.hash_ne_column List.mem_cons_self List.mem_cons_self
      obtain ⟨opened, hopen, hopened⟩ := h.decryptColumn hsuite hkeys he List.mem_cons_self hseals
        (hjson e List.mem_cons_self)
      have hrest := hseals.of_decryptColumn hseparate (hunused e List.mem_cons_self) hopened
      rw [List.foldlM_cons, hopen, Except.ok_bind]
      exact ih hseparate.tail hrest (fun f hf => hunused f (List.mem_cons_of_mem _ hf))
        fun f hf => hjson f (List.mem_cons_of_mem _ hf)

/-- Whatever keys are added later, successfully or not, rows and texts are decrypted to what they were. No
encrypted column of the table may get in the way of another one, and the row may have nothing in the hash
columns. The JSON text of a value in an encrypted column is assumed to be read as that value. -/
theorem decrypt_after_calls {suite : CipherSuite} (hsuite : suite.Sound) {v : Vault}
    (hreachable : v.Reachable suite) (calls : List KeyCall) :
    (∀ connection table nonces row stored,
      EncryptedColumn.Separate (v.columns.get connection table) →
      (∀ e ∈ v.columns.get connection table, ∀ h ∈ e.hashColumn, row.get? h = none) →
      (∀ e ∈ v.columns.get connection table, ∀ y, row.get? e.column = some y →
        Json.parse? y.render = some y) →
      v.encryptRow connection table nonces row = .ok stored →
      (calls.foldl perform v).decryptRow connection table stored = .ok row) ∧
    ∀ connection text nonce,
      (calls.foldl perform v).decrypt connection (v.encrypt connection text nonce) = .ok text := by
  obtain ⟨rfl, hkeys⟩ := hreachable.valid
  have hkeeps := keeps_calls hkeys calls
  constructor
  · intro connection table nonces row stored hseparate hunused hjson hencrypt
    have hcolumns : (calls.foldl perform v).columns = v.columns := by rw [calls_eq]
    rw [decryptRow, hcolumns]
    exact hkeeps.foldlM_decryptColumn hsuite hkeys hseparate (seals_encryptColumns hseparate hencrypt)
      hunused hjson
  · exact fun connection text nonce => hkeeps.decrypt_encrypt hsuite hkeys connection text nonce

/-- A row and a text are decrypted after a key has been refused, another one has become active, and one more
has been added. -/
theorem decrypt_after_calls_rotated :
    let keys : KeyRing := ⟨[⟨1, List.replicate 32 7⟩], ⟨1, List.replicate 32 7⟩⟩
    let vault := ((Vault.new .standard keys [1, 2] .xchacha20Poly1305).register "main" "users"
      (.searchable "email")).register "main" "users" (.sealed "notes")
    let row : Row := .ofList [("email", .text "ada@example.org"), ("id", .int 1),
      ("notes", .array [.null, .int 2])]
    let nonces : ℕ → Nonce := fun _ => ⟨List.replicate 24 0, rfl⟩
    let calls : List KeyCall := [.rotate [1], .rotate (List.replicate 32 8),
      .add ⟨9, List.replicate 32 9⟩]
    let later := calls.foldl perform vault
    ∃ stored, vault.encryptRow "main" "users" nonces row = .ok stored ∧
      later.decryptRow "main" "users" stored = .ok row ∧
      later.decrypt "main" (vault.encrypt "main" "enc:é" (nonces 0)) = .ok "enc:é" := by
  intro keys vault row nonces calls later
  have hring : KeyRing.ofKeys? [] none (List.replicate 32 7) = .ok keys := rfl
  have hreachable : vault.Reachable .standard := .register (.register (.new hring _ _) _ _ _) _ _ _
  have hseparate : EncryptedColumn.Separate (vault.columns.get "main" "users") :=
    ⟨by decide, by decide, by decide⟩
  have hjson : ∀ e ∈ vault.columns.get "main" "users", ∀ y ∈ row.get? e.column,
      Json.parse? y.render = some y := by decide +kernel
  obtain ⟨stored, hencrypt⟩ : ∃ stored, vault.encryptRow "main" "users" nonces row = .ok stored :=
    Except.exists_of_isOk (by decide +kernel)
  obtain ⟨hrow, htext⟩ := decrypt_after_calls CipherSuite.standard_sound hreachable calls
  exact ⟨stored, hencrypt, hrow _ _ _ _ _ hseparate (by decide +kernel) hjson hencrypt,
    htext "main" "enc:é" (nonces 0)⟩

end Vault

end TableGate
