import TableGate.Vault.KeyRing

/-!
# Envelopes

The text in which an encrypted value is stored: a mark, the tag of the cipher, the version of the key,
and the nonce and the ciphertext in base 64, with colons between them.
-/

namespace TableGate

/-- An encrypted value: the cipher and the version of the key, and the nonce with the ciphertext behind
it. -/
structure Envelope where
  algorithm : CipherAlgorithm
  version : UInt32
  body : Bytes
  deriving DecidableEq, Repr

namespace Envelope

def mark : List Char :=
  ['e', 'n', 'c']

/-- Whether a text opens like an envelope. -/
def opens (s : String) : Bool :=
  (Text.after? (mark ++ [':']) s.toList).isSome

def chars (e : Envelope) : List Char :=
  mark ++ ':' :: (e.algorithm.tag.toList ++ ':' :: (Text.digits e.version.toNat ++ ':' ::
    Base64.encodeChars .standard true e.body))

def text (e : Envelope) : String :=
  String.ofList e.chars

/-- The parts of a text between its first three colons. -/
def parts? (cs : List Char) : Option (List Char × List Char × List Char × List Char) := do
  let (opening, cs) ← Text.cut? (· == ':') cs
  let (tag, cs) ← Text.cut? (· == ':') cs
  let (version, body) ← Text.cut? (· == ':') cs
  return (opening, tag, version, body)

/-- Reads an envelope, with the key that it needs. -/
def read (ring : KeyRing) (s : String) : Except OpenFault (Envelope × KeyMaterial) :=
  match parts? s.toList with
  | none => .error .malformed
  | some (opening, tag, version, body) =>
    if opening ≠ mark then .error .malformed
    else
      let tag := String.ofList tag
      match CipherAlgorithm.ofTag? tag with
      | none => .error (.unknownAlgorithm tag)
      | some algorithm =>
        match Text.toNat? Text.maxUInt32 version with
        | none => .error .malformed
        | some version =>
          match ring.get? (UInt32.ofNat version) with
          | none => .error (.unknownKey version)
          | some key =>
            match Base64.decodeChars? body with
            | none => .error .malformed
            | some body =>
              if body.length < algorithm.nonceLength then .error .malformed
              else .ok (⟨algorithm, UInt32.ofNat version, body⟩, key)

end Envelope

end TableGate
