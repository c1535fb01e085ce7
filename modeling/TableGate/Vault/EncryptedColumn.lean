import TableGate.Json.Record

/-!
# Encrypted columns

Which columns of a table are encrypted and how, and the list of them as it changes with the table.
-/

namespace TableGate

/-- A cipher for columns. -/
inductive CipherAlgorithm where
  | chacha20Poly1305
  | xchacha20Poly1305
  deriving DecidableEq, Repr

/-- How a column is encrypted. Without a key version the active key is used; without a hash column the
column cannot be searched. -/
structure EncryptedColumn where
  column : String
  algorithm : CipherAlgorithm
  keyVersion : Option UInt32
  hashColumn : Option String
  deriving DecidableEq, Repr

namespace CipherAlgorithm

def name : CipherAlgorithm → String
  | .chacha20Poly1305 => "chacha20poly1305"
  | .xchacha20Poly1305 => "xchacha20poly1305"

def title : CipherAlgorithm → String
  | .chacha20Poly1305 => "ChaCha20Poly1305"
  | .xchacha20Poly1305 => "XChaCha20Poly1305"

def ofName? : String → Option CipherAlgorithm
  | "chacha20poly1305" => some .chacha20Poly1305
  | "xchacha20poly1305" => some .xchacha20Poly1305
  | _ => none

def ofJsonAt? (place : Place) : Value → Option CipherAlgorithm :=
  Value.asNameAt? place ofName?

def ofJson? : Value → Option CipherAlgorithm :=
  ofJsonAt? .alone

def tag : CipherAlgorithm → String
  | .chacha20Poly1305 => "c20p"
  | .xchacha20Poly1305 => "xc20p"

def ofTag? : String → Option CipherAlgorithm
  | "c20p" => some .chacha20Poly1305
  | "xc20p" => some .xchacha20Poly1305
  | _ => none

def nonceLength : CipherAlgorithm → Nat
  | .chacha20Poly1305 => 12
  | .xchacha20Poly1305 => 24

end CipherAlgorithm

namespace EncryptedColumn

/-- The name of the hash column of a column. -/
def hashName (column : String) : String :=
  column ++ "_hash"

/-- A column that can be searched. -/
def searchable (column : String) : EncryptedColumn :=
  ⟨column, .chacha20Poly1305, none, some (hashName column)⟩

/-- A column that cannot be searched. -/
def sealed (column : String) : EncryptedColumn :=
  ⟨column, .chacha20Poly1305, none, none⟩

def ofJson? (v : Value) : Option EncryptedColumn := do
  let fields ← Fields.of? 4 v
  return {
    column := ← fields.required 0 "column" Value.asText?
    algorithm := ← fields.orDefault 1 ["algorithm"] .chacha20Poly1305 CipherAlgorithm.ofJson?
    keyVersion := ← fields.optional 2 ["keyVersion"] Value.asUInt32?
    hashColumn := ← fields.optional 3 ["hashColumn"] Value.asText? }

def toJson (e : EncryptedColumn) : Value :=
  .object [("algorithm", .text e.algorithm.name), ("column", .text e.column),
    ("hashColumn", .ofText? e.hashColumn), ("keyVersion", .ofNumber? (fun n => n.toNat) e.keyVersion)]

/-- The columns with one more at the end, in the place of an earlier one of its name. -/
def register (columns : List EncryptedColumn) (e : EncryptedColumn) : List EncryptedColumn :=
  columns.filter (fun old => old.column != e.column) ++ [e]

def unregister (columns : List EncryptedColumn) (column : String) : List EncryptedColumn :=
  columns.filter fun e => e.column != column

def rename (columns : List EncryptedColumn) (source target : String) : List EncryptedColumn :=
  columns.map fun e => if e.column = source then { e with column := target } else e

def find? (columns : List EncryptedColumn) (column : String) : Option EncryptedColumn :=
  columns.find? fun e => e.column == column

end EncryptedColumn

end TableGate
