import TableGate.Cipher.Suite
import TableGate.Proofs.Bytes.Parts

/-! # What is encrypted can be decrypted

The key stream is as long as the text and depends on the key and the nonce alone, so combining a text
with it twice changes nothing. -/

namespace TableGate

/-- Each text is decrypted to what it was encrypted from, for keys and nonces of the right lengths. -/
def CipherSuite.Sound (suite : CipherSuite) : Prop :=
  ∀ algorithm key nonce aad plaintext, key.length = 32 →
    nonce.length = CipherAlgorithm.nonceLength algorithm →
    suite.decrypt algorithm key nonce aad (suite.encrypt algorithm key nonce aad plaintext) =
      some plaintext

namespace ChaCha20

theorem size_quarterAt (s : Array UInt32) (i j k l : ℕ) : (quarterAt s i j k l).size = s.size := by
  simp [quarterAt]

theorem size_rounds (n : ℕ) (s : Array UInt32) : (rounds n s).size = s.size := by
  induction n generalizing s with
  | zero => rfl
  | succ n ih => rw [rounds, ih, doubleRound]; simp only [size_quarterAt]

theorem length_wordBytes (words : List UInt32) : (wordBytes words).length = 4 * words.length := by
  induction words with
  | nil => rfl
  | cons w words ih =>
      rw [wordBytes, List.flatMap_cons, List.length_append, Bytes.length_littleEndian]
      rw [wordBytes] at ih
      rw [ih, List.length_cons]
      omega

variable {key nonce : Bytes}

theorem length_block (hkey : key.length = 32) (hnonce : nonce.length = 12) (counter : ℕ) :
    (block key nonce counter).length = 64 := by
  have hkeyWords := Bytes.length_littleEndianWords 8 hkey
  have hnonceWords := Bytes.length_littleEndianWords 3 hnonce
  rw [block, length_wordBytes, List.length_zipWith, Array.length_toList, size_rounds]
  simp [hkeyWords, hnonceWords, opening]

theorem length_deriveKey (hkey : key.length = 32) (hnonce : nonce.length = 16) :
    (deriveKey key nonce).length = 32 := by
  have hkeyWords := Bytes.length_littleEndianWords 8 hkey
  have hnonceWords := Bytes.length_littleEndianWords 4 hnonce
  rw [deriveKey, length_wordBytes, List.length_append, List.length_take, List.length_drop,
    Array.length_toList, size_rounds]
  simp [hkeyWords, hnonceWords, opening]

/-- Bytes combined twice with a stream that is long enough. -/
theorem zipWith_xor_zipWith_xor {bs stream : Bytes} (h : bs.length ≤ stream.length) :
    List.zipWith (· ^^^ ·) (List.zipWith (· ^^^ ·) bs stream) stream = bs := by
  induction bs generalizing stream with
  | nil => rfl
  | cons b bs ih =>
      cases stream with
      | nil => simp at h
      | cons s stream =>
          have hle : bs.length ≤ stream.length := by simpa using h
          have hrest := ih hle
          rw [List.zipWith_cons_cons, List.zipWith_cons_cons, hrest, UInt8.xor_assoc, UInt8.xor_self,
            UInt8.xor_zero]

theorem applyFrom_applyFrom (hkey : key.length = 32) (hnonce : nonce.length = 12) (bs : Bytes) :
    ∀ counter, applyFrom key nonce counter
      (Bytes.parts 64 (applyFrom key nonce counter (Bytes.parts 64 bs))) = bs := by
  induction hn : bs.length using Nat.strongRecOn generalizing bs with
  | ind n ih =>
      intro counter
      have hblock := length_block hkey hnonce counter
      by_cases hne : bs = []
      · subst hne
        rfl
      · by_cases hshort : bs.length ≤ 64
        · have hlength : (List.zipWith (· ^^^ ·) bs (block key nonce counter)).length = bs.length := by
            rw [List.length_zipWith]
            omega
          have hxor : List.zipWith (· ^^^ ·) bs (block key nonce counter) ≠ [] := by
            rw [← List.length_pos_iff, hlength]
            exact List.length_pos_iff.mpr hne
          rw [Bytes.parts_of_short (by decide) hne hshort, applyFrom, applyFrom, List.append_nil,
            Bytes.parts_of_short (by decide) hxor (by omega), applyFrom, applyFrom, List.append_nil,
            zipWith_xor_zipWith_xor (by omega)]
        · have htake : (bs.take 64).length = 64 := by
            rw [List.length_take]
            omega
          have hlength : (List.zipWith (· ^^^ ·) (bs.take 64) (block key nonce counter)).length = 64 := by
            rw [List.length_zipWith]
            omega
          have hrest := ih (bs.drop 64).length (by rw [List.length_drop]; omega) (bs.drop 64) rfl
            (counter + 1)
          rw [Bytes.parts_of_ne_nil (by decide) hne, applyFrom, Bytes.parts_append (by decide) hlength,
            applyFrom, hrest, zipWith_xor_zipWith_xor (by omega), List.take_append_drop]

theorem apply_apply (hkey : key.length = 32) (hnonce : nonce.length = 12) (bs : Bytes) :
    apply key nonce (apply key nonce bs) = bs :=
  applyFrom_applyFrom hkey hnonce bs 1

end ChaCha20

namespace ChaCha20Poly1305

theorem length_tag (key nonce aad ciphertext : Bytes) : (tag key nonce aad ciphertext).length = 16 := by
  rw [tag, Poly1305.tag, Bytes.length_littleEndian]

theorem decrypt_encrypt {key nonce : Bytes} (hkey : key.length = 32) (hnonce : nonce.length = 12)
    (aad plaintext : Bytes) : decrypt key nonce aad (encrypt key nonce aad plaintext) = some plaintext := by
  have htag := length_tag key nonce aad (ChaCha20.apply key nonce plaintext)
  have hlength : (encrypt key nonce aad plaintext).length - 16 =
      (ChaCha20.apply key nonce plaintext).length := by
    rw [encrypt, List.length_append, htag]
    omega
  have hlong : ¬(encrypt key nonce aad plaintext).length < 16 := by
    rw [encrypt, List.length_append, htag]
    omega
  rw [decrypt, if_neg hlong, hlength, encrypt, List.take_left, List.drop_left]
  simp [ChaCha20.apply_apply hkey hnonce]

end ChaCha20Poly1305

theorem CipherSuite.standard_sound : CipherSuite.standard.Sound := by
  intro algorithm key nonce aad plaintext hkey hnonce
  cases algorithm with
  | chacha20Poly1305 => exact ChaCha20Poly1305.decrypt_encrypt hkey hnonce aad plaintext
  | xchacha20Poly1305 =>
      have hlong : nonce.length = 24 := hnonce
      have htake : (nonce.take 16).length = 16 := by
        rw [List.length_take, hlong]
        rfl
      have hshort : (ChaCha20Poly1305.shortNonce nonce).length = 12 := by
        simp [ChaCha20Poly1305.shortNonce, hlong]
      exact ChaCha20Poly1305.decrypt_encrypt (ChaCha20.length_deriveKey hkey htake) hshort aad plaintext

end TableGate
