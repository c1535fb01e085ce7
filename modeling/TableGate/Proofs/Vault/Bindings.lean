import TableGate.Proofs.Sql.Rendering
import TableGate.Proofs.Text.Clean
import TableGate.Proofs.Vault.Concealed
import TableGate.Proofs.Vault.RowRoundTrip

/-! # What is sealed for one place opens at no other

A value in a row is sealed for its table and its column, a single text for its connection. The name of a column
has no dot, so the last dot of what a value is bound to stands between the two, whatever the table is called.
A cipher that accepts no other associated data than it was given then opens nothing anywhere else. -/

namespace TableGate

/-- Nothing is decrypted with other associated data than it was encrypted with. -/
def CipherSuite.Binds (suite : CipherSuite) : Prop :=
  ∀ algorithm key nonce aad plaintext other, key.length = 32 →
    nonce.length = CipherAlgorithm.nonceLength algorithm → other ≠ aad →
    suite.decrypt algorithm key nonce other (suite.encrypt algorithm key nonce aad plaintext) = none

/-- The column is taken away before it is decrypted, as the hash column of itself or of an earlier one. -/
def EncryptedColumn.TakenAway (column : String) : List EncryptedColumn → Prop
  | [] => False
  | e :: rest => e.hashColumn = some column ∨ e.column ≠ column ∧ TakenAway column rest

instance EncryptedColumn.decidableTakenAway (column : String) :
    (columns : List EncryptedColumn) → Decidable (TakenAway column columns)
  | [] => inferInstanceAs (Decidable False)
  | e :: rest =>
    have := decidableTakenAway column rest
    inferInstanceAs (Decidable (e.hashColumn = some column ∨ e.column ≠ column ∧ _))

namespace Vault

/-- The envelope is what a row was encrypted to in an encrypted column. -/
def Sealed (v : Vault) (table column envelope : String) : Prop :=
  ∃ connection nonces row stored, v.encryptRow connection table nonces row = .ok stored ∧
    column ∈ (v.columns.get connection table).map (·.column) ∧
    stored.get? column = some (.text envelope) ∧ Envelope.opens envelope = true

/-- The envelope is never opened in an encrypted column: the row is not decrypted, or the column is taken away
and does not come back. -/
def Unopened (v : Vault) (table column envelope : String) : Prop :=
  ∀ connection row, column ∈ (v.columns.get connection table).map (·.column) →
    row.get? column = some (.text envelope) →
    if EncryptedColumn.TakenAway column (v.columns.get connection table) then
      ∀ opened, v.decryptRow connection table row = .ok opened → opened.get? column = none
    else
      ∃ fault, v.decryptRow connection table row = .error fault ∧ fault.kind = .decryption

end Vault

/-! ## Hashes are no envelopes -/

theorem Hex.n_notMem_encodeChars (bs : Bytes) : 'n' ∉ encodeChars bs := by
  have hdigit : ∀ n < 16, 'n' ≠ digit n := by decide
  induction bs with
  | nil => exact List.not_mem_nil
  | cons b bs ih =>
      have hb := b.toNat_lt
      simp only [encodeChars, List.mem_cons, not_or]
      exact ⟨hdigit _ (by omega), hdigit _ (by omega), ih⟩

theorem Envelope.not_opens_hashValue (v : Vault) (value : Value) : opens (v.hashValue value) = false := by
  rw [opens, Option.isSome_eq_false_iff, Option.isNone_iff_eq_none, Option.eq_none_iff_forall_ne_some]
  intro rest hrest
  have hchars := Text.after?_eq_some.mp hrest
  rw [Vault.hashValue, Hex.encode, String.toList_ofList] at hchars
  have hmem : 'n' ∈ mark ++ [':'] ++ rest := by simp [mark]
  rw [hchars] at hmem
  exact Hex.n_notMem_encodeChars _ hmem

namespace Vault

variable {v w : Vault} {table column : String}

/-! ## Bindings -/

/-- Two columns are bound to the same data only if they and their tables have the same names. -/
theorem columnBinding_inj {otherTable otherColumn : String} (hcolumn : Text.isIdentifier column.toList = true)
    (hother : Text.isIdentifier otherColumn.toList = true)
    (h : columnBinding table column = columnBinding otherTable otherColumn) :
    table = otherTable ∧ column = otherColumn := by
  have hdot {name : String} (hname : Text.isIdentifier name.toList = true) : '.' ∉ name.toList :=
    fun hmem => absurd (Identifier.isWordChar_of_mem ⟨name, hname⟩ hmem) (by decide)
  have hcut {name : String} (hname : Text.isIdentifier name.toList = true) (table : String) :
      Text.cutLast? (· == '.') (table ++ "." ++ name).toList = some (table.toList, name.toList) := by
    rw [String.toList_append, String.toList_append, List.append_assoc]
    exact Text.cutLast?_append (beq_self_eq_true '.') (Text.beq_eq_false_of_notMem (hdot hname))
  have htext : table ++ "." ++ column = otherTable ++ "." ++ otherColumn := Bytes.ofText_inj h
  have hparts := hcut hcolumn table
  rw [htext, hcut hother, Option.some.injEq, Prod.mk.injEq] at hparts
  exact ⟨(String.toList_inj.mp hparts.1).symm, (String.toList_inj.mp hparts.2).symm⟩

/-- What was sealed for some data is not opened for other data. -/
theorem Keeps.openEnvelope_of_ne (h : v.Keeps w) (hsuite : v.suite.Binds) {key : KeyMaterial}
    (hkey : key ∈ v.keys.keys) (algorithm : CipherAlgorithm) (nonce : Nonce) (plaintext : Bytes)
    {aad other : Bytes} (hne : other ≠ aad) :
    w.openEnvelope other (v.sealBytes algorithm key nonce aad plaintext).text =
      .error (.decryption .authentication) := by
  have hmem := h.mem key hkey
  rw [h.sealBytes, openEnvelope_sealBytes_eq h.valid hmem, h.suite, hsuite algorithm key.bytes _ aad plaintext
    other (h.valid.lengths key hmem) (nonce.length_take algorithm) hne, Option.elim_none]

/-- An envelope that was left in a column opens in no other one. -/
theorem Keeps.openEnvelope_of_storedIn (h : v.Keeps w) (hsuite : v.suite.Binds) (hkeys : v.keys.Valid)
    {envelope : String} (hstored : v.StoredIn table column (.text envelope))
    (hopens : Envelope.opens envelope = true) {other : Bytes} (hne : other ≠ columnBinding table column) :
    w.openEnvelope other envelope = .error (.decryption .authentication) := by
  cases hstored with
  | envelope hkey nonce plaintext =>
      exact h.openEnvelope_of_ne hsuite (keyFor_mem hkeys hkey) _ nonce plaintext hne
  | hash value =>
      rw [Envelope.not_opens_hashValue] at hopens
      cases hopens

/-! ## Decrypting a row -/

/-- Decrypting a column changes no other one but its hash column. -/
theorem get?_decryptColumn {row opened : Row} {e : EncryptedColumn}
    (h : w.decryptColumn table row e = .ok opened) {n : String} (hn : n ≠ e.column) :
    opened.get? n = if e.hashColumn = some n then none else row.get? n := by
  rw [← get?_dropHash]
  unfold decryptColumn at h
  dsimp only at h
  split at h
  · split at h
    · simp only [Except.bind_eq_ok] at h
      obtain ⟨bytes, -, h⟩ := h
      split at h
      · cases h
        rw [NameMap.get?_insert, if_neg hn]
      · cases h
    · cases h
      rfl
  · cases h
    rfl

/-- Where there is nothing, or a hash that is taken away, there is nothing afterwards. -/
theorem get?_decryptColumn_eq_none {row opened : Row} {e : EncryptedColumn}
    (h : w.decryptColumn table row e = .ok opened) {n : String}
    (hn : row.get? n = none ∨ e.hashColumn = some n) : opened.get? n = none := by
  have hdropped : (dropHash e row).get? n = none := by
    rw [get?_dropHash, ite_eq_left_iff]
    exact hn.resolve_right
  by_cases hname : n = e.column
  · subst hname
    simp only [decryptColumn, hdropped, Except.ok.injEq] at h
    exact h ▸ hdropped
  · rw [get?_decryptColumn h hname, ← get?_dropHash, hdropped]

variable {columns : List EncryptedColumn} {row opened : Row}

theorem get?_foldlM_decryptColumn (h : columns.foldlM (w.decryptColumn table) row = .ok opened)
    (hrow : row.get? column = none) : opened.get? column = none := by
  induction columns generalizing row with
  | nil =>
      cases h
      exact hrow
  | cons e rest ih =>
      rw [List.foldlM_cons, Except.bind_eq_ok] at h
      obtain ⟨middle, hmiddle, h⟩ := h
      exact ih h (get?_decryptColumn_eq_none hmiddle (.inl hrow))

/-- A column that is taken away stays away. -/
theorem get?_of_takenAway (htaken : EncryptedColumn.TakenAway column columns)
    (h : columns.foldlM (w.decryptColumn table) row = .ok opened) : opened.get? column = none := by
  induction columns generalizing row with
  | nil => exact htaken.elim
  | cons e rest ih =>
      rw [List.foldlM_cons, Except.bind_eq_ok] at h
      obtain ⟨middle, hmiddle, h⟩ := h
      rcases htaken with hhash | ⟨-, hrest⟩
      · exact get?_foldlM_decryptColumn h (get?_decryptColumn_eq_none hmiddle (.inr hhash))
      · exact ih hrest h

/-- An envelope that does not open ends the decryption, unless it is taken away before. -/
theorem error_of_unopened {text : String} {fault : Fault}
    (hfault : w.openEnvelope (columnBinding table column) text = .error fault)
    (hopens : Envelope.opens text = true) (hmem : column ∈ columns.map (·.column))
    (hfree : ¬EncryptedColumn.TakenAway column columns) (hrow : row.get? column = some (.text text)) :
    ∃ fault, columns.foldlM (w.decryptColumn table) row = .error fault := by
  induction columns generalizing row with
  | nil => cases hmem
  | cons e rest ih =>
      rw [EncryptedColumn.TakenAway, not_or, not_and] at hfree
      obtain ⟨hhash, hrest⟩ := hfree
      rw [List.foldlM_cons]
      by_cases hname : e.column = column
      · subst hname
        have hdropped : (dropHash e row).get? e.column = some (.text text) := by
          rw [get?_dropHash, if_neg hhash, hrow]
        refine ⟨fault, ?_⟩
        simp only [decryptColumn, hdropped, hopens, if_true, hfault]
        rfl
      · -- the columns before it leave it as it is, or the decryption has ended
        cases hstep : w.decryptColumn table row e with
        | error earlier => exact ⟨earlier, rfl⟩
        | ok middle =>
            have hmiddle : middle.get? column = some (.text text) := by
              rw [get?_decryptColumn hstep (Ne.symm hname), if_neg hhash, hrow]
            exact ih ((List.mem_cons.mp hmem).resolve_left (Ne.symm hname)) (hrest hname) hmiddle

theorem unopened_of_error {envelope : String} {fault : Fault}
    (hfault : w.openEnvelope (columnBinding table column) envelope = .error fault)
    (hopens : Envelope.opens envelope = true) : w.Unopened table column envelope := by
  intro connection row hmem hrow
  split
  · rename_i htaken
    exact fun opened hopened => get?_of_takenAway htaken hopened
  · rename_i hfree
    obtain ⟨fault, herror⟩ := error_of_unopened hfault hopens hmem hfree hrow
    exact ⟨fault, herror, w.kind_decryptRow table connection row fault herror⟩

/-- If the cipher binds, an envelope that was sealed for a column of a table is opened in no other column and for
no other table, and an encrypted text is decrypted for no other connection. -/
theorem opened_in_place {suite : CipherSuite} (hsuite : suite.Binds) {v w : Vault}
    (hreachable : v.Reachable suite) (hkeeps : v.Keeps w) :
    (∀ table column table' column' envelope, (table', column') ≠ (table, column) →
      Text.isIdentifier column.toList = true → Text.isIdentifier column'.toList = true →
      v.Sealed table column envelope → w.Unopened table' column' envelope) ∧
    ∀ connection connection' text nonce, connection' ≠ connection →
      w.decrypt connection' (v.encrypt connection text nonce) = .error (.decryption .authentication) := by
  obtain ⟨rfl, hkeys⟩ := hreachable.valid
  constructor
  · rintro table column table' column' envelope hne hcolumn hcolumn'
      ⟨connection, nonces, row, stored, hencrypt, hmem, hstored, hopens⟩
    have hbinding : columnBinding table' column' ≠ columnBinding table column := by
      intro hsame
      obtain ⟨rfl, rfl⟩ := columnBinding_inj hcolumn' hcolumn hsame
      exact hne rfl
    have hleft := storedIn_encryptColumns hencrypt (.inl hmem) hstored
    exact unopened_of_error (hkeeps.openEnvelope_of_storedIn hsuite hkeys hleft hopens hbinding) hopens
  · intro connection connection' text nonce hne
    have hbinding : Bytes.ofText connection' ≠ Bytes.ofText connection := fun hsame =>
      hne (Bytes.ofText_inj hsame)
    rw [Vault.decrypt, encrypt,
      hkeeps.openEnvelope_of_ne hsuite hkeys.active_mem _ nonce _ hbinding]
    rfl

end Vault

/-! ## A cipher that binds -/

/-- The bytes, each behind a one, and a zero behind them all. -/
def Bytes.framed : Bytes → Bytes
  | [] => [0]
  | b :: bs => 1 :: b :: framed bs

theorem Bytes.eq_of_framed_prefix {xs ys back : Bytes} (h : framed xs <+: framed ys ++ back) : xs = ys := by
  induction xs generalizing ys with
  | nil =>
      cases ys with
      | nil => rfl
      | cons y ys => simp [framed] at h
  | cons x xs ih =>
      cases ys with
      | nil => simp [framed] at h
      | cons y ys =>
          simp only [framed, List.cons_append, List.cons_prefix_cons, true_and] at h
          obtain ⟨rfl, htail⟩ := h
          rw [ih htail]

/-- The standard suite with the associated data in front of each ciphertext. -/
def CipherSuite.labelled : CipherSuite where
  encrypt algorithm key nonce aad plaintext :=
    Bytes.framed aad ++ standard.encrypt algorithm key nonce aad plaintext
  decrypt algorithm key nonce aad bytes :=
    if (Bytes.framed aad).isPrefixOf bytes then
      standard.decrypt algorithm key nonce aad (bytes.drop (Bytes.framed aad).length)
    else
      none
  digest := standard.digest

/-- The authenticators of the standard suite are too short to tell all data apart. With the data in front of it,
a ciphertext fits no other data. -/
theorem CipherSuite.labelled_binds : labelled.Binds := by
  intro algorithm key nonce aad plaintext other _ _ hne
  refine if_neg fun hprefix => hne ?_
  exact Bytes.eq_of_framed_prefix (List.isPrefixOf_iff_prefix.mp hprefix)

namespace Vault

/-- Whether a column of a row is sealed can be found by encrypting the row. -/
theorem exists_sealed (v : Vault) (connection table column : String) (nonces : ℕ → Nonce) (row : Row)
    (hmem : column ∈ (v.columns.get connection table).map (·.column))
    (h : (v.encryptRow connection table nonces row).toOption.any (fun stored =>
      (stored.get? column).any fun value => value.asText?.any Envelope.opens) = true) :
    ∃ stored envelope, v.encryptRow connection table nonces row = .ok stored ∧
      stored.get? column = some (.text envelope) ∧ v.Sealed table column envelope := by
  obtain ⟨stored, hencrypt, htext⟩ := Except.exists_of_any h
  obtain ⟨value, hvalue, htext⟩ := (Option.any_eq_true _ _).mp htext
  obtain ⟨envelope, henvelope, hopens⟩ := (Option.any_eq_true _ _).mp htext
  obtain rfl : value = .text envelope := by
    cases value <;> simp_all [Value.asText?]
  exact ⟨stored, envelope, hencrypt, hvalue, connection, nonces, row, stored, hencrypt, hmem, hvalue, hopens⟩

/-- An envelope is opened in its own column and not in another one. In the standard suite it is not, either. -/
theorem opened_in_place_moved :
    let keys : KeyRing := ⟨[⟨1, List.replicate 32 7⟩], ⟨1, List.replicate 32 7⟩⟩
    let vault (suite : CipherSuite) : Vault :=
      ((Vault.new suite keys [] .xchacha20Poly1305).register "main" "users" (.sealed "a")).register
        "main" "users" (.searchable "b")
    let stored (suite : CipherSuite) := (vault suite).encryptRow "main" "users"
      (fun _ => ⟨List.replicate 24 0, rfl⟩) (.ofList [("a", .text "x")])
    let moved (row : Row) : Row := .ofList [("b", (row.get? "a").getD .null)]
    (stored .labelled >>= (vault .labelled).decryptRow "main" "users").toOption.bind (·.get? "a") =
      some (.text "x") ∧
    (∃ row, stored .labelled = .ok row ∧ ∃ fault,
      (vault .labelled).decryptRow "main" "users" (moved row) = .error fault ∧ fault.kind = .decryption) ∧
    (vault .labelled).decrypt "other" ((vault .labelled).encrypt "main" "text" ⟨List.replicate 24 0, rfl⟩) =
      .error (.decryption .authentication) ∧
    (stored .standard).toOption.any (fun row =>
      !((vault .standard).decryptRow "main" "users" (moved row)).isOk) = true := by
  intro keys vault stored moved
  have hring : KeyRing.ofKeys? [] none (List.replicate 32 7) = .ok keys := rfl
  have hreachable : (vault .labelled).Reachable .labelled :=
    .register (.register (.new hring _ _) _ _ _) _ _ _
  have hkeeps : (vault .labelled).Keeps (vault .labelled) := ⟨rfl, hreachable.valid.2, fun _ h => h⟩
  obtain ⟨hrows, htexts⟩ := opened_in_place CipherSuite.labelled_binds hreachable hkeeps
  obtain ⟨row, envelope, hrow, hvalue, hsealed⟩ := exists_sealed (vault .labelled) "main" "users" "a"
    (fun _ => ⟨List.replicate 24 0, rfl⟩) (.ofList [("a", .text "x")]) (by decide)
    (by decide +kernel)
  have hmoved : (moved row).get? "b" = some (.text envelope) := by
    simp only [moved, hvalue]
    rfl
  have hunopened := hrows "users" "a" "users" "b" envelope (by decide) (by decide) (by decide) hsealed "main"
    (moved row) (by decide) hmoved
  rw [if_neg (by decide)] at hunopened
  exact ⟨by decide +kernel, ⟨row, hrow, hunopened⟩, htexts "main" "other" "text" _ (by decide),
    by decide +kernel⟩

/-- An envelope that is moved to the hash column of its own column is taken away unread. -/
theorem moved_to_hash_column :
    let keys : KeyRing := ⟨[⟨1, List.replicate 32 7⟩], ⟨1, List.replicate 32 7⟩⟩
    let vault := ((Vault.new .labelled keys [] .chacha20Poly1305).register "main" "users"
      ⟨"a", .chacha20Poly1305, none, some "b"⟩).register "main" "users" (.sealed "b")
    CipherSuite.labelled.Binds ∧ vault.Reachable .labelled ∧
      ∃ envelope, vault.Sealed "users" "a" envelope ∧
        vault.decryptRow "main" "users" (.ofList [("b", .text envelope)]) = .ok (.ofList []) := by
  intro keys vault
  have hring : KeyRing.ofKeys? [] none (List.replicate 32 7) = .ok keys := rfl
  refine ⟨CipherSuite.labelled_binds, .register (.register (.new hring _ _) _ _ _) _ _ _, ?_⟩
  obtain ⟨-, envelope, -, -, hsealed⟩ := exists_sealed vault "main" "users" "a"
    (fun _ => ⟨List.replicate 24 0, rfl⟩) (.ofList [("a", .text "x")]) (by decide) (by decide +kernel)
  exact ⟨envelope, hsealed, rfl⟩

end Vault

end TableGate
