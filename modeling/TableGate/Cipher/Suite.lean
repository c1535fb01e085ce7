import TableGate.Cipher.ChaCha20
import TableGate.Cipher.Poly1305
import TableGate.Cipher.Sha256
import TableGate.Vault.EncryptedColumn

/-!
# Cipher suites

The cryptographic functions that the vault is built on: authenticated encryption with associated data,
and a hash function. The standard suite has ChaCha20-Poly1305, in both lengths of nonce, and SHA-256.
-/

namespace TableGate

/-- Authenticated encryption and hashing. A ciphertext carries its authenticator. -/
structure CipherSuite where
  encrypt (algorithm : CipherAlgorithm) (key nonce aad plaintext : Bytes) : Bytes
  decrypt (algorithm : CipherAlgorithm) (key nonce aad ciphertext : Bytes) : Option Bytes
  digest (message : Bytes) : Bytes

namespace ChaCha20Poly1305

/-- The bytes with zeros up to a multiple of sixteen. -/
def padded (bs : Bytes) : Bytes :=
  bs ++ List.replicate ((16 - bs.length % 16) % 16) 0

/-- The authenticator of a ciphertext and its associated data. -/
def tag (key nonce aad ciphertext : Bytes) : Bytes :=
  Poly1305.tag ((ChaCha20.block key nonce 0).take 32)
    (padded aad ++ padded ciphertext ++ Bytes.littleEndian 8 aad.length ++
      Bytes.littleEndian 8 ciphertext.length)

def encrypt (key nonce aad plaintext : Bytes) : Bytes :=
  let ciphertext := ChaCha20.apply key nonce plaintext
  ciphertext ++ tag key nonce aad ciphertext

/-- The plaintext, if the authenticator at the end fits. -/
def decrypt (key nonce aad bytes : Bytes) : Option Bytes :=
  if bytes.length < 16 then none
  else
    let ciphertext := bytes.take (bytes.length - 16)
    if bytes.drop (bytes.length - 16) = tag key nonce aad ciphertext then
      some (ChaCha20.apply key nonce ciphertext)
    else
      none

/-- The key that a long nonce leads to. -/
def longKey (key nonce : Bytes) : Bytes :=
  ChaCha20.deriveKey key (nonce.take 16)

/-- The short nonce that a long nonce leads to. -/
def shortNonce (nonce : Bytes) : Bytes :=
  [0, 0, 0, 0] ++ nonce.drop 16

end ChaCha20Poly1305

namespace CipherSuite

/-- ChaCha20-Poly1305 and SHA-256. -/
def standard : CipherSuite where
  encrypt
    | .chacha20Poly1305, key, nonce, aad, plaintext =>
      ChaCha20Poly1305.encrypt key nonce aad plaintext
    | .xchacha20Poly1305, key, nonce, aad, plaintext =>
      ChaCha20Poly1305.encrypt (ChaCha20Poly1305.longKey key nonce)
        (ChaCha20Poly1305.shortNonce nonce) aad plaintext
  decrypt
    | .chacha20Poly1305, key, nonce, aad, bytes =>
      ChaCha20Poly1305.decrypt key nonce aad bytes
    | .xchacha20Poly1305, key, nonce, aad, bytes =>
      ChaCha20Poly1305.decrypt (ChaCha20Poly1305.longKey key nonce)
        (ChaCha20Poly1305.shortNonce nonce) aad bytes
  digest := Sha256.hash

end CipherSuite

end TableGate
