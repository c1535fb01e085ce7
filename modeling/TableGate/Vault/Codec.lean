import TableGate.Bytes.Hex
import TableGate.Json.Embedded
import TableGate.Json.Text
import TableGate.PerTable
import TableGate.Vault.Envelope

/-!
# Encrypted values and rows

A vault holds the keys and knows the encrypted columns of every table. It encrypts and decrypts single
texts, bound to a connection, and the columns of rows, bound to their table and their name.
-/

namespace TableGate

/-- The random bytes of one encryption, of which a cipher uses as many as it needs. -/
structure Nonce where
  bytes : Bytes
  length_eq : bytes.length = 24

/-- The random bytes for the encryption of some rows, by the position of the row and of the column. -/
abbrev Nonces := Nat → Nat → Nonce

/-- The keys, the encrypted columns of each table, the secret that goes into hashes, and the cipher for
single texts and for new columns. -/
structure Vault where
  suite : CipherSuite
  keys : KeyRing
  columns : PerTable (List EncryptedColumn)
  pepper : Bytes
  algorithm : CipherAlgorithm

namespace Vault

def new (suite : CipherSuite) (keys : KeyRing) (pepper : Bytes) (algorithm : CipherAlgorithm) : Vault :=
  ⟨suite, keys, .const [], pepper, algorithm⟩

/-! ## Columns -/

def register (v : Vault) (connection table : String) (column : EncryptedColumn) : Vault :=
  { v with columns := v.columns.update connection table fun old => EncryptedColumn.register old column }

def unregister (v : Vault) (connection table column : String) : Vault :=
  { v with columns := v.columns.update connection table fun old => EncryptedColumn.unregister old column }

def rename (v : Vault) (connection table source target : String) : Vault :=
  { v with
    columns := v.columns.update connection table fun old => EncryptedColumn.rename old source target }

def unregisterTable (v : Vault) (connection table : String) : Vault :=
  { v with columns := v.columns.set connection table [] }

/-- The description of a column, if it is encrypted. -/
def column? (v : Vault) (connection table column : String) : Option EncryptedColumn :=
  EncryptedColumn.find? (v.columns.get connection table) column

/-! ## Keys -/

/-- The vault with a new active key, unless there is no result but a panic. -/
def rotate (v : Vault) (bytes : Bytes) : Option (Except Fault Vault) :=
  (v.keys.rotate bytes).map fun rotated => rotated.map fun keys => { v with keys }

/-- The vault with one more key, which is not active. -/
def addKey (v : Vault) (key : KeyMaterial) : Except Fault Vault := do
  return { v with keys := ← v.keys.add key }

/-! ## Single texts -/

/-- Encrypts bytes under a key, bound to the associated data. -/
def sealBytes (v : Vault) (algorithm : CipherAlgorithm) (key : KeyMaterial) (nonce : Nonce)
    (aad plaintext : Bytes) : Envelope :=
  let start := nonce.bytes.take algorithm.nonceLength
  ⟨algorithm, key.version, start ++ v.suite.encrypt algorithm key.bytes start aad plaintext⟩

/-- Decrypts the text of an envelope that was bound to the associated data. -/
def openEnvelope (v : Vault) (aad : Bytes) (text : String) : Except Fault Bytes :=
  match Envelope.read v.keys text with
  | .error cause => .error (.decryption cause)
  | .ok (e, key) =>
    let length := e.algorithm.nonceLength
    match v.suite.decrypt e.algorithm key.bytes (e.body.take length) aad (e.body.drop length) with
    | some plaintext => .ok plaintext
    | none => .error (.decryption .authentication)

/-- Encrypts a text, bound to a connection. -/
def encrypt (v : Vault) (connection text : String) (nonce : Nonce) : String :=
  (v.sealBytes v.algorithm v.keys.active nonce (Bytes.ofText connection) (Bytes.ofText text)).text

def decrypt (v : Vault) (connection text : String) : Except Fault String := do
  let bytes ← v.openEnvelope (Bytes.ofText connection) text
  match Bytes.toText? bytes with
  | some plaintext => .ok plaintext
  | none => .error (.decryption .invalidText)

/-! ## Hashes -/

/-- The bytes whose hash stands for a value in a search: the secret, a zero byte, and the JSON text. -/
def hashInput (pepper : Bytes) (value : Value) : Bytes :=
  pepper ++ 0 :: Bytes.ofText value.render

def hashValue (v : Vault) (value : Value) : String :=
  Hex.encode (v.suite.digest (hashInput v.pepper value))

/-! ## Rows -/

/-- The data that a value in a column is bound to. -/
def columnBinding (table column : String) : Bytes :=
  Bytes.ofText (table ++ "." ++ column)

/-- The key that a column is encrypted with. -/
def keyFor (v : Vault) (table : String) (e : EncryptedColumn) : Except Fault KeyMaterial :=
  match e.keyVersion with
  | none => .ok v.keys.active
  | some version =>
    match v.keys.get? version with
    | some key => .ok key
    | none => .error (.encryption (.keyNotConfigured version.toNat table e.column))

/-- The row with a value in the hash column of an encrypted column, if that has one. -/
def putHash (e : EncryptedColumn) (value : Value) (row : Row) : Row :=
  match e.hashColumn with
  | some hashColumn => row.insert hashColumn value
  | none => row

/-- Encrypts one column of a row and fills in its hash. A column that the row does not have is left out,
and null stays null. -/
def encryptColumn (v : Vault) (table : String) (row : Row) (e : EncryptedColumn) (nonce : Nonce) :
    Except Fault Row :=
  match row.get? e.column with
  | none => .ok row
  | some .null => .ok (putHash e .null row)
  | some value => do
    let key ← v.keyFor table e
    let envelope := v.sealBytes e.algorithm key nonce (columnBinding table e.column)
      (Bytes.ofText value.render)
    return (putHash e (.text (v.hashValue value)) row).insert e.column (.text envelope.text)

def encryptColumns (v : Vault) (table : String) (nonces : Nat → Nonce) :
    List EncryptedColumn → Row → Except Fault Row
  | [], row => .ok row
  | e :: rest, row => do
    encryptColumns v table (fun i => nonces (i + 1)) rest
      (← v.encryptColumn table row e (nonces 0))

def encryptRow (v : Vault) (connection table : String) (nonces : Nat → Nonce) (row : Row) :
    Except Fault Row :=
  v.encryptColumns table nonces (v.columns.get connection table) row

def encryptRows (v : Vault) (connection table : String) : Nonces → List Row → Except Fault (List Row)
  | _, [] => .ok []
  | nonces, row :: rest => do
    let sealedRow ← v.encryptRow connection table (nonces 0) row
    return sealedRow :: (← encryptRows v connection table (fun i => nonces (i + 1)) rest)

def dropHash (e : EncryptedColumn) (row : Row) : Row :=
  match e.hashColumn with
  | some hashColumn => row.erase hashColumn
  | none => row

/-- Decrypts one column of a row and removes its hash. What is not an envelope stays as it is. -/
def decryptColumn (v : Vault) (table : String) (row : Row) (e : EncryptedColumn) : Except Fault Row :=
  let row := dropHash e row
  match row.get? e.column with
  | some (.text text) =>
    if Envelope.opens text then do
      let bytes ← v.openEnvelope (columnBinding table e.column) text
      match (Bytes.toText? bytes).bind Json.parse? with
      | some value => return row.insert e.column value
      | none => .error (.decryption (.invalidValue table e.column))
    else
      .ok row
  | _ => .ok row

def decryptRow (v : Vault) (connection table : String) (row : Row) : Except Fault Row :=
  (v.columns.get connection table).foldlM (v.decryptColumn table) row

end Vault

end TableGate
