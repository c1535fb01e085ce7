/-!
# Bytes

Byte strings as lists, their UTF-8 text, and the words written in them.
-/

namespace TableGate

abbrev Bytes := List UInt8

namespace Bytes

def ofText (s : String) : Bytes :=
  s.toUTF8.data.toList

def toText? (bs : Bytes) : Option String :=
  String.fromUTF8? ⟨bs.toArray⟩

theorem ofText_inj {s t : String} (h : ofText s = ofText t) : s = t := by
  have bytes : s.toUTF8 = t.toUTF8 := ByteArray.ext (Array.toList_inj.1 h)
  exact String.toByteArray_inj.1 bytes

/-- The given number of bytes of a number, the most significant first. -/
def bigEndian : Nat → Nat → Bytes
  | 0, _ => []
  | count + 1, n => bigEndian count (n / 256) ++ [UInt8.ofNat (n % 256)]

/-- The given number of bytes of a number, the least significant first. -/
def littleEndian : Nat → Nat → Bytes
  | 0, _ => []
  | count + 1, n => UInt8.ofNat (n % 256) :: littleEndian count (n / 256)

def bigEndianToNat (bs : Bytes) : Nat :=
  bs.foldl (fun n b => n * 256 + b.toNat) 0

def littleEndianToNat : Bytes → Nat
  | [] => 0
  | b :: bs => b.toNat + 256 * littleEndianToNat bs

/-- The list cut into parts of the given length; the last part may be shorter. The bound on the number of
parts is the length of the list. -/
def partsWithin (length : Nat) : Nat → Bytes → List Bytes
  | 0, _ => []
  | _, [] => []
  | bound + 1, bs => bs.take length :: partsWithin length bound (bs.drop length)

def parts (length : Nat) (bs : Bytes) : List Bytes :=
  partsWithin length bs.length bs

/-- The words of four bytes in a row of bytes, the least significant byte first. -/
def littleEndianWords (bs : Bytes) : List UInt32 :=
  (parts 4 bs).map fun w => UInt32.ofNat (littleEndianToNat w)

/-- The words of four bytes in a row of bytes, the most significant byte first. -/
def bigEndianWords (bs : Bytes) : List UInt32 :=
  (parts 4 bs).map fun w => UInt32.ofNat (bigEndianToNat w)

end Bytes

end TableGate
