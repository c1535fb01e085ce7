import TableGate.Bytes.Basic

/-!
# ChaCha20

The stream cipher ChaCha20, and HChaCha20, which derives a key for the form with a long nonce.
-/

namespace TableGate.ChaCha20

def rotate (x n : UInt32) : UInt32 :=
  (x <<< n) ||| (x >>> (32 - n))

/-- The quarter round on four words. -/
def quarter (a b c d : UInt32) : UInt32 × UInt32 × UInt32 × UInt32 :=
  let a := a + b
  let d := rotate (d ^^^ a) 16
  let c := c + d
  let b := rotate (b ^^^ c) 12
  let a := a + b
  let d := rotate (d ^^^ a) 8
  let c := c + d
  let b := rotate (b ^^^ c) 7
  (a, b, c, d)

/-- The quarter round on the words at four places. -/
def quarterAt (s : Array UInt32) (i j k l : Nat) : Array UInt32 :=
  let (a, b, c, d) := quarter (s.getD i 0) (s.getD j 0) (s.getD k 0) (s.getD l 0)
  (((s.setIfInBounds i a).setIfInBounds j b).setIfInBounds k c).setIfInBounds l d

/-- A round on the columns and a round on the diagonals. -/
def doubleRound (s : Array UInt32) : Array UInt32 :=
  let s := quarterAt s 0 4 8 12
  let s := quarterAt s 1 5 9 13
  let s := quarterAt s 2 6 10 14
  let s := quarterAt s 3 7 11 15
  let s := quarterAt s 0 5 10 15
  let s := quarterAt s 1 6 11 12
  let s := quarterAt s 2 7 8 13
  quarterAt s 3 4 9 14

def rounds : Nat → Array UInt32 → Array UInt32
  | 0, s => s
  | n + 1, s => rounds n (doubleRound s)

/-- The words that open every state. -/
def opening : List UInt32 :=
  [0x61707865, 0x3320646e, 0x79622d32, 0x6b206574]

def wordBytes (words : List UInt32) : Bytes :=
  words.flatMap fun w => Bytes.littleEndian 4 w.toNat

/-- The block of the key stream with a number. -/
def block (key nonce : Bytes) (counter : Nat) : Bytes :=
  let s := (opening ++ Bytes.littleEndianWords key ++ [UInt32.ofNat counter] ++
    Bytes.littleEndianWords nonce).toArray
  wordBytes (List.zipWith (· + ·) (rounds 10 s).toList s.toList)

/-- The bytes combined with the key stream from a block on. -/
def applyFrom (key nonce : Bytes) : Nat → List Bytes → Bytes
  | _, [] => []
  | counter, part :: rest =>
    List.zipWith (· ^^^ ·) part (block key nonce counter) ++ applyFrom key nonce (counter + 1) rest

/-- The bytes combined with the key stream from its second block on; the first is kept for the key of
the authenticator. -/
def apply (key nonce bytes : Bytes) : Bytes :=
  applyFrom key nonce 1 (Bytes.parts 64 bytes)

/-- The key for the form with a long nonce, from a key and the first sixteen bytes of the nonce. -/
def deriveKey (key nonce : Bytes) : Bytes :=
  let s := rounds 10 (opening ++ Bytes.littleEndianWords key ++ Bytes.littleEndianWords nonce).toArray
  wordBytes (s.toList.take 4 ++ s.toList.drop 12)

end TableGate.ChaCha20
