import TableGate.Bytes.Basic

/-!
# Poly1305

The one-time authenticator Poly1305.
-/

namespace TableGate.Poly1305

def modulus : Nat := Nat.pow 2 130 - 5

/-- The bits of the multiplier that are kept. -/
def mask : Nat := 0x0ffffffc0ffffffc0ffffffc0fffffff

/-- The sum after one more block of at most sixteen bytes. -/
def step (r sum : Nat) (block : Bytes) : Nat :=
  (sum + Bytes.littleEndianToNat (block ++ [1])) * r % modulus

/-- The tag of a message under a key of 32 bytes. -/
def tag (key message : Bytes) : Bytes :=
  let r := Bytes.littleEndianToNat (key.take 16) &&& mask
  let s := Bytes.littleEndianToNat (key.drop 16)
  let sum := (Bytes.parts 16 message).foldl (step r) 0
  Bytes.littleEndian 16 (sum + s)

end TableGate.Poly1305
