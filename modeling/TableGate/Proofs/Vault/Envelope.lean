import TableGate.Proofs.Bytes.Base64
import TableGate.Proofs.Cipher.RoundTrip
import TableGate.Proofs.Text.Decimal
import TableGate.Proofs.Text.Pieces
import TableGate.Proofs.Vault.KeyRing

/-! # Envelopes are opened again

What a vault seals under one of its keys it opens, as long as the value is bound to the same data. -/

namespace TableGate

theorem CipherAlgorithm.ofTag?_tag (a : CipherAlgorithm) : ofTag? a.tag = some a := by
  cases a <;> rfl

theorem CipherAlgorithm.nonceLength_le (a : CipherAlgorithm) : a.nonceLength ≤ 24 := by
  cases a <;> decide

/-- A cipher finds as many random bytes as it needs. -/
theorem Nonce.length_take (nonce : Nonce) (a : CipherAlgorithm) :
    (nonce.bytes.take a.nonceLength).length = a.nonceLength := by
  have hle := a.nonceLength_le
  rw [List.length_take, nonce.length_eq]
  omega

namespace Envelope

theorem parts?_chars (e : Envelope) :
    parts? e.chars = some (mark, e.algorithm.tag.toList, Text.digits e.version.toNat,
      Base64.encodeChars .standard true e.body) := by
  have hmark : ∀ c ∈ mark, (c == ':') = false := by simp [mark]
  have htag : ∀ c ∈ e.algorithm.tag.toList, (c == ':') = false := by
    cases e.algorithm <;> simp [CipherAlgorithm.tag]
  have hversion : ∀ c ∈ Text.digits e.version.toNat, (c == ':') = false := by
    intro c hc
    have hdigit := Text.isDigit_of_mem_digits hc
    rw [beq_eq_false_iff_ne]
    rintro rfl
    exact absurd hdigit (by decide)
  rw [parts?, chars, Text.cut?_append hmark rfl]
  simp only [Option.bind_eq_bind, Option.bind_some]
  rw [Text.cut?_append htag rfl]
  simp only [Option.bind_some]
  rw [Text.cut?_append hversion rfl]
  rfl

/-- An envelope is read from its text, with the key of its version. -/
theorem read_text {ring : KeyRing} {e : Envelope} {key : KeyMaterial}
    (hkey : ring.get? e.version = some key) (hbody : e.algorithm.nonceLength ≤ e.body.length) :
    read ring e.text = .ok (e, key) := by
  have hversion : e.version.toNat ≤ Text.maxUInt32 := by
    have hlt := e.version.toNat_lt
    simp only [Text.maxUInt32, UInt32.size]
    omega
  rw [read, text, String.toList_ofList, parts?_chars]
  simp only [ne_eq, not_true_eq_false, if_false, String.ofList_toList, CipherAlgorithm.ofTag?_tag,
    Text.toNat?_digits hversion, UInt32.ofNat_toNat, hkey, Base64.decodeChars?_encodeChars,
    if_neg (Nat.not_lt.mpr hbody)]

end Envelope

namespace Vault

variable {v : Vault}

/-- What was sealed under a key of the vault is opened by decrypting it under that key. -/
theorem openEnvelope_sealBytes_eq (hkeys : v.keys.Valid) {key : KeyMaterial} (hkey : key ∈ v.keys.keys)
    (algorithm : CipherAlgorithm) (nonce : Nonce) (aad plaintext other : Bytes) :
    v.openEnvelope other (v.sealBytes algorithm key nonce aad plaintext).text =
      (v.suite.decrypt algorithm key.bytes (nonce.bytes.take algorithm.nonceLength) other
        (v.suite.encrypt algorithm key.bytes (nonce.bytes.take algorithm.nonceLength) aad plaintext)).elim
        (.error (.decryption .authentication)) .ok := by
  have hlength := nonce.length_take algorithm
  have hread := Envelope.read_text (e := v.sealBytes algorithm key nonce aad plaintext)
    (hkeys.get? hkey) (by simp [sealBytes, hlength])
  rw [openEnvelope, hread]
  simp only [sealBytes]
  rw [List.take_left' hlength, List.drop_left' hlength]
  cases v.suite.decrypt algorithm key.bytes _ other _ <;> rfl

/-- What was sealed under a key of the vault is opened under the same binding. -/
theorem openEnvelope_sealBytes (hsuite : v.suite.Sound) (hkeys : v.keys.Valid) {key : KeyMaterial}
    (hkey : key ∈ v.keys.keys) (algorithm : CipherAlgorithm) (nonce : Nonce) (aad plaintext : Bytes) :
    v.openEnvelope aad (v.sealBytes algorithm key nonce aad plaintext).text = .ok plaintext := by
  rw [openEnvelope_sealBytes_eq hkeys hkey,
    hsuite algorithm key.bytes _ aad plaintext (hkeys.lengths key hkey) (nonce.length_take algorithm),
    Option.elim_some]

/-- The key that a column is encrypted with is one of the vault. -/
theorem keyFor_mem (hkeys : v.keys.Valid) {table : String} {e : EncryptedColumn} {key : KeyMaterial}
    (h : v.keyFor table e = .ok key) : key ∈ v.keys.keys := by
  unfold keyFor at h
  split at h
  · cases h
    exact hkeys.active_mem
  · split at h
    · rename_i hget
      cases h
      exact (KeyRing.mem_of_lookup? hget).1
    · cases h

end Vault

end TableGate
