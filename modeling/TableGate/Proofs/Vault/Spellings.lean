import TableGate.Proofs.Vault.Bindings

/-! # How an envelope may be spelled

A text that opens is the text of an envelope, but for the version of the key: in front of its decimal digits there may
be zeros, and a plus sign before them. Every such spelling opens to the same bytes, and no other text does. -/

namespace TableGate

namespace Envelope

/-- The text of an envelope with the given characters for the version of its key. -/
def spelled (e : Envelope) (version : List Char) : String :=
  String.ofList (mark ++ ':' :: (e.algorithm.tag.toList ++ ':' :: (version ++ ':' ::
    Base64.encodeChars .standard true e.body)))

/-- A text is parted at its first three colons and nowhere else. -/
theorem parts?_eq_some {cs opening tag version body : List Char} :
    parts? cs = some (opening, tag, version, body) ↔
      (':' ∉ opening ∧ ':' ∉ tag ∧ ':' ∉ version) ∧
        cs = opening ++ ':' :: (tag ++ ':' :: (version ++ ':' :: body)) := by
  constructor
  · intro h
    simp only [parts?, Option.bind_eq_bind, Option.bind_eq_some_iff, pure, Option.some.injEq, Prod.mk.injEq] at h
    obtain ⟨⟨o, cs₁⟩, h₁, ⟨t, cs₂⟩, h₂, ⟨v, b⟩, h₃, rfl, rfl, rfl, rfl⟩ := h
    have hcut {before after cs : List Char} (h : Text.cut? (· == ':') cs = some (before, after)) :
        ':' ∉ before ∧ cs = before ++ ':' :: after := by
      obtain ⟨c, hc, hbefore, rfl⟩ := Text.cut?_eq_some.mp h
      obtain rfl := eq_of_beq hc
      exact ⟨fun hmem => absurd (hbefore _ hmem) (by simp), rfl⟩
    obtain ⟨ho, rfl⟩ := hcut h₁
    obtain ⟨ht, rfl⟩ := hcut h₂
    obtain ⟨hv, rfl⟩ := hcut h₃
    exact ⟨⟨ho, ht, hv⟩, rfl⟩
  · rintro ⟨⟨ho, ht, hv⟩, rfl⟩
    rw [parts?, Text.cut?_append (Text.beq_eq_false_of_notMem ho) rfl]
    simp only [Option.bind_eq_bind, Option.bind_some]
    rw [Text.cut?_append (Text.beq_eq_false_of_notMem ht) rfl]
    simp only [Option.bind_some]
    rw [Text.cut?_append (Text.beq_eq_false_of_notMem hv) rfl]
    rfl

theorem tag_of_ofTag? {tag : String} {algorithm : CipherAlgorithm}
    (h : CipherAlgorithm.ofTag? tag = some algorithm) : algorithm.tag = tag := by
  unfold CipherAlgorithm.ofTag? at h
  split at h <;> cases h <;> rfl

theorem colon_notMem_tag (algorithm : CipherAlgorithm) : ':' ∉ algorithm.tag.toList := by
  cases algorithm <;> decide

variable {ring : KeyRing} {s : String} {e : Envelope} {key : KeyMaterial}

/-- Envelopes are read from their spellings, with the key of their version, and from nothing else. -/
theorem read_eq_ok : read ring s = .ok (e, key) ↔
    (∃ version, Text.Numeral e.version.toNat version ∧ s = e.spelled version) ∧ ring.get? e.version = some key ∧
      e.algorithm.nonceLength ≤ e.body.length := by
  constructor
  · intro h
    unfold read at h
    split at h
    · cases h
    rename_i opening tag version characters hparts
    split at h
    · cases h
    rename_i hopening
    dsimp only at h
    split at h
    · cases h
    rename_i algorithm htag
    split at h
    · cases h
    rename_i n hversion
    split at h
    · cases h
    rename_i hkey
    split at h
    · cases h
    rename_i bytes hbody
    split at h
    · cases h
    rename_i hlength
    cases h
    obtain ⟨-, hs⟩ := parts?_eq_some.mp hparts
    obtain ⟨hnumeral, hle⟩ := Text.toNat?_eq_some.mp hversion
    have hlt : n < UInt32.size := Nat.lt_of_le_pred (by decide) hle
    have hn : (UInt32.ofNat n).toNat = n := UInt32.toNat_ofNat_of_lt' hlt
    refine ⟨⟨version, hn.symm ▸ hnumeral, ?_⟩, hkey, Nat.not_lt.mp hlength⟩
    refine String.toList_inj.mp ?_
    rw [spelled, String.toList_ofList, hs, not_not.mp hopening, tag_of_ofTag? htag, String.toList_ofList,
      Base64.encodeChars_of_decodeChars? hbody]
  · rintro ⟨⟨version, hversion, rfl⟩, hkey, hbody⟩
    have hplain : ':' ∉ version := hversion.notMem (by decide) rfl
    have hle : e.version.toNat ≤ Text.maxUInt32 := by
      have hlt := e.version.toNat_lt
      simp only [Text.maxUInt32, UInt32.size]
      omega
    have hparts : parts? (e.spelled version).toList = some (mark, e.algorithm.tag.toList, version,
        Base64.encodeChars .standard true e.body) :=
      parts?_eq_some.mpr ⟨⟨by decide, colon_notMem_tag e.algorithm, hplain⟩, String.toList_ofList⟩
    rw [read, hparts]
    simp only [ne_eq, not_true_eq_false, if_false, String.ofList_toList, CipherAlgorithm.ofTag?_tag,
      Text.toNat?_eq_some.mpr ⟨hversion, hle⟩, UInt32.ofNat_toNat, hkey, Base64.decodeChars?_encodeChars,
      if_neg (Nat.not_lt.mpr hbody)]

theorem spelled_eq_text_iff {version : List Char} :
    e.spelled version = e.text ↔ version = Text.digits e.version.toNat := by
  refine ⟨fun h => ?_, fun h => by rw [h, spelled, text, chars]⟩
  have hchars := String.ofList_injective h
  rw [chars, List.append_cancel_left_eq, List.cons.injEq, List.append_cancel_left_eq, List.cons.injEq] at hchars
  exact List.append_cancel_right hchars.2.2

end Envelope

namespace Vault

variable {v : Vault} {aad plaintext : Bytes} {s : String}

/-- The vault has the key of the envelope, and the cipher accepts its nonce and its ciphertext. -/
def Accepts (v : Vault) (aad : Bytes) (e : Envelope) (plaintext : Bytes) : Prop :=
  ∃ key, v.keys.get? e.version = some key ∧ e.algorithm.nonceLength ≤ e.body.length ∧
    v.suite.decrypt e.algorithm key.bytes (e.body.take e.algorithm.nonceLength) aad
      (e.body.drop e.algorithm.nonceLength) = some plaintext

/-- The texts that open are the spellings of the envelopes that the vault accepts. -/
theorem openEnvelope_eq_ok : v.openEnvelope aad s = .ok plaintext ↔
    ∃ e version, Text.Numeral e.version.toNat version ∧ s = e.spelled version ∧ v.Accepts aad e plaintext := by
  constructor
  · intro h
    unfold openEnvelope at h
    split at h
    · cases h
    rename_i e key hread
    obtain ⟨⟨version, hversion, hs⟩, hkey, hlength⟩ := Envelope.read_eq_ok.mp hread
    dsimp only at h
    split at h
    · rename_i hdecrypt
      cases h
      exact ⟨e, version, hversion, hs, key, hkey, hlength, hdecrypt⟩
    · cases h
  · rintro ⟨e, version, hversion, hs, key, hkey, hlength, hdecrypt⟩
    rw [openEnvelope, Envelope.read_eq_ok.mpr ⟨⟨version, hversion, hs⟩, hkey, hlength⟩]
    simp only [hdecrypt]

/-- A text is opened for a connection, or in an encrypted column of a row that is decrypted. What does not look like
an envelope is left in the row as it is, and a hash is taken away unread. -/
inductive Opens (v : Vault) : Bytes → String → Prop
  | text {connection s plaintext : String} (h : v.decrypt connection s = .ok plaintext) :
      v.Opens (Bytes.ofText connection) s
  | column {connection table column s : String} {row opened : Row} (h : v.decryptRow connection table row = .ok opened)
      (hmem : column ∈ (v.columns.get connection table).map (·.column)) (hrow : row.get? column = some (.text s))
      (henvelope : Envelope.opens s = true)
      (hkept : ¬EncryptedColumn.TakenAway column (v.columns.get connection table)) :
      v.Opens (columnBinding table column) s

theorem Opens.openEnvelope (h : v.Opens aad s) : ∃ plaintext, v.openEnvelope aad s = .ok plaintext := by
  cases h with
  | text h =>
      simp only [decrypt, Except.bind_eq_ok] at h
      obtain ⟨bytes, hbytes, -⟩ := h
      exact ⟨bytes, hbytes⟩
  | @column connection table column s row opened h hmem hrow henvelope hkept =>
      cases hopen : v.openEnvelope (columnBinding table column) s with
      | ok plaintext => exact ⟨plaintext, rfl⟩
      | error fault =>
          obtain ⟨later, herror⟩ := error_of_unopened hopen henvelope hmem hkept hrow
          rw [decryptRow, herror] at h
          cases h

/-- A vault accepts what it has sealed. -/
theorem accepts_sealBytes (hsuite : v.suite.Sound) (hkeys : v.keys.Valid) {key : KeyMaterial} (hkey : key ∈ v.keys.keys)
    (algorithm : CipherAlgorithm) (nonce : Nonce) (aad plaintext : Bytes) :
    v.Accepts aad (v.sealBytes algorithm key nonce aad plaintext) plaintext := by
  have hlength := nonce.length_take algorithm
  refine ⟨key, hkeys.get? hkey, by simp [sealBytes, hlength], ?_⟩
  simp only [sealBytes]
  rw [List.take_left' hlength, List.drop_left' hlength]
  exact hsuite algorithm key.bytes _ aad plaintext (hkeys.lengths key hkey) hlength

theorem openEnvelope_spelled {e : Envelope} (h : v.Accepts aad e plaintext) {version : List Char}
    (hversion : Text.Numeral e.version.toNat version) : v.openEnvelope aad (e.spelled version) = .ok plaintext :=
  openEnvelope_eq_ok.mpr ⟨e, version, hversion, rfl, h⟩

/-- What is opened is the text of the envelope that it is opened as, but for zeros and a plus sign in front of the
version. With any of these it opens alike, and nothing else is read as that envelope. -/
theorem spelling_of_opened (h : v.Opens aad s) :
    ∃ (e : Envelope) (version : List Char) (plaintext : Bytes),
      s = e.spelled version ∧ Text.Numeral e.version.toNat version ∧
      (s = e.text ↔ version = Text.digits e.version.toNat) ∧ v.Accepts aad e plaintext ∧
      (∀ spelling, Text.Numeral e.version.toNat spelling → v.openEnvelope aad (e.spelled spelling) = .ok plaintext) ∧
      ∀ other, (∃ key, Envelope.read v.keys other = .ok (e, key)) ↔
        ∃ spelling, Text.Numeral e.version.toNat spelling ∧ other = e.spelled spelling := by
  obtain ⟨plaintext, hopen⟩ := h.openEnvelope
  obtain ⟨e, version, hversion, hs, haccepts⟩ := openEnvelope_eq_ok.mp hopen
  refine ⟨e, version, plaintext, hs, hversion, ?_, haccepts, fun _ => openEnvelope_spelled haccepts, fun other => ?_⟩
  · rw [hs, Envelope.spelled_eq_text_iff]
  · obtain ⟨key, hkey, hlength, -⟩ := haccepts
    refine ⟨fun ⟨key, hread⟩ => (Envelope.read_eq_ok.mp hread).1, fun hspelled => ?_⟩
    exact ⟨key, Envelope.read_eq_ok.mpr ⟨hspelled, hkey, hlength⟩⟩

/-- A text that was encrypted is opened, and it is spelled as it was written. -/
theorem spelling_of_opened_encrypted :
    let keys : KeyRing := ⟨[⟨1, List.replicate 32 7⟩], ⟨1, List.replicate 32 7⟩⟩
    let vault := Vault.new .standard keys [] .chacha20Poly1305
    let s := vault.encrypt "central" "x" ⟨List.replicate 24 9, rfl⟩
    vault.decrypt "central" s = .ok "x" ∧
      ∃ (e : Envelope) (version : List Char), s = e.spelled version ∧ Text.Numeral e.version.toNat version := by
  intro keys vault s
  have hring : KeyRing.ofKeys? [] none (List.replicate 32 7) = .ok keys := rfl
  have hvalid : vault.keys.Valid := .ofKeys? hring
  have hkeeps : vault.Keeps vault := ⟨rfl, hvalid, fun _ h => h⟩
  have hopen : vault.decrypt "central" s = .ok "x" :=
    hkeeps.decrypt_encrypt CipherSuite.standard_sound hvalid "central" "x" _
  obtain ⟨e, version, plaintext, hs, hversion, -⟩ := spelling_of_opened (.text hopen)
  exact ⟨hopen, e, version, hs, hversion⟩

/-- With a plus sign in front of the version, the text still opens. -/
theorem opens_with_plus_sign :
    let keys : KeyRing := ⟨[⟨1, List.replicate 32 7⟩], ⟨1, List.replicate 32 7⟩⟩
    let vault := Vault.new .standard keys [] .chacha20Poly1305
    let e := vault.sealBytes .chacha20Poly1305 ⟨1, List.replicate 32 7⟩ ⟨List.replicate 24 9, rfl⟩
      (Bytes.ofText "central") (Bytes.ofText "x")
    vault.decrypt "central" (e.spelled ['+', '1']) = .ok "x" ∧ e.spelled ['+', '1'] ≠ e.text := by
  intro keys vault e
  have hring : KeyRing.ofKeys? [] none (List.replicate 32 7) = .ok keys := rfl
  have hplus : Text.Numeral e.version.toNat ['+', '1'] := ⟨['+'], ['1'], .inr rfl, ⟨by simp, by simp, rfl⟩, rfl⟩
  have hopen : vault.openEnvelope (Bytes.ofText "central") (e.spelled ['+', '1']) = .ok (Bytes.ofText "x") := by
    exact openEnvelope_spelled
      (accepts_sealBytes CipherSuite.standard_sound (.ofKeys? hring) List.mem_cons_self _ _ _ _) hplus
  refine ⟨?_, fun h => absurd (Envelope.spelled_eq_text_iff.mp h) ?_⟩
  · rw [Vault.decrypt, hopen, Except.ok_bind, Bytes.toText?_ofText]
  · have hversion : e.version.toNat = 1 := rfl
    rw [hversion, Text.digits]
    decide

end Vault

end TableGate
