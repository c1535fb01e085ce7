import TableGate.Bytes.Base64
import TableGate.Cipher.Suite
import TableGate.Fault

/-!
# Key rings

The keys of a vault by their versions, one of which is active. Keys are only ever added, so that what was
encrypted under an earlier one can still be read.
-/

namespace TableGate

/-- The bytes of a key, under its version. -/
structure KeyMaterial where
  version : UInt32
  bytes : Bytes
  deriving DecidableEq, Repr

namespace KeyMaterial

def keyLength : Nat := 32

/-- The key, if it has the right number of bytes. -/
def checked (key : KeyMaterial) : Except Fault KeyMaterial :=
  if key.bytes.length = keyLength then
    .ok key
  else
    .error (.configuration (.keyLength key.version.toNat key.bytes.length))

/-- Reads an entry of a list of keys: the version, a colon, and the bytes in base 64. -/
def ofEntry? (entry : List Char) : Except Fault KeyMaterial :=
  match Text.cut? (· == ':') entry with
  | none => .error (.configuration .keyEntryShape)
  | some (version, encoded) =>
    match Text.toNat? Text.maxUInt32 (Text.trimChars version) with
    | none => .error (.configuration (.keyVersion (String.ofList version)))
    | some n =>
      match Base64.decodeChars? (Text.trimChars encoded) with
      | none => .error (.configuration (.keyEncoding n))
      | some bytes => .ok ⟨UInt32.ofNat n, bytes⟩

/-- Reads a list of keys, which commas separate. Blanks around the entries and empty entries do not
count. -/
def listOfText? (text : String) : Except Fault (List KeyMaterial) :=
  let entries := (Text.pieces (· == ',') text.toList).map Text.trimChars
  (entries.filter fun entry => !entry.isEmpty).mapM ofEntry?

/-- The text that shows a key and keeps its bytes secret. -/
def shown (key : KeyMaterial) : String :=
  "KeyMaterial \x7b version: " ++ Text.ofNat key.version.toNat ++ ", bytes: \"***\" \x7d"

/-- The name of a key: the beginning of the hash of its version and its bytes. -/
def id (suite : CipherSuite) (key : KeyMaterial) : String :=
  let hash := suite.digest (Bytes.bigEndian 4 key.version.toNat ++ key.bytes)
  String.ofList ((Base64.encodeUrl hash).toList.take 16)

end KeyMaterial

/-- Keys in increasing order of their versions, and the one that is used to encrypt. -/
structure KeyRing where
  keys : List KeyMaterial
  active : KeyMaterial
  deriving DecidableEq, Repr

namespace KeyRing

def lookup? (keys : List KeyMaterial) (version : UInt32) : Option KeyMaterial :=
  keys.find? fun key => key.version == version

/-- Puts a key in its place in a list that is in increasing order, instead of one of its version. -/
def put (key : KeyMaterial) : List KeyMaterial → List KeyMaterial
  | [] => [key]
  | head :: rest =>
    if key.version < head.version then
      key :: head :: rest
    else if head.version < key.version then
      head :: put key rest
    else
      key :: rest

/-- Puts keys of the right length and of new versions into a list, one after the other. -/
def collect (keys : List KeyMaterial) : List KeyMaterial → Except Fault (List KeyMaterial)
  | [] => .ok keys
  | next :: rest => do
    let key ← next.checked
    if (lookup? keys key.version).isSome then
      .error (.configuration (.duplicateKey key.version.toNat))
    else
      collect (put key keys) rest

/-- The ring of some keys. The active one is that of the given version, or of the highest one. Without
any key, the given bytes are the key of version 1. -/
def ofKeys? (keys : List KeyMaterial) (active : Option UInt32) (random : Bytes) :
    Except Fault KeyRing := do
  let keys ← collect [] (if keys.isEmpty then [⟨1, random⟩] else keys)
  match active with
  | some version =>
    match lookup? keys version with
    | some key => .ok ⟨keys, key⟩
    | none => .error (.configuration (.activeKeyMissing version.toNat))
  | none =>
    match keys.getLast? with
    | some key => .ok ⟨keys, key⟩
    | none => .error (.configuration (.described "no encryption keys"))

def get? (ring : KeyRing) (version : UInt32) : Option KeyMaterial :=
  lookup? ring.keys version

def versions (ring : KeyRing) : List UInt32 :=
  ring.keys.map (·.version)

/-- The version behind the last one, if there is one left. -/
def nextVersion? (ring : KeyRing) : Option UInt32 :=
  let last := (ring.keys.getLast?.map (·.version)).getD 0
  if last.toNat < Text.maxUInt32 then some (last + 1) else none

/-- Adds a key under the next version and makes it active. Where no version is left, counting on overflows
before the key is looked at: there is no result but a panic. -/
def rotate (ring : KeyRing) (bytes : Bytes) : Option (Except Fault KeyRing) :=
  ring.nextVersion?.map fun version => do
    let key ← KeyMaterial.checked ⟨version, bytes⟩
    return ⟨put key ring.keys, key⟩

/-- Adds a key of a new version, which does not become active. -/
def add (ring : KeyRing) (key : KeyMaterial) : Except Fault KeyRing := do
  let key ← key.checked
  if (ring.get? key.version).isSome then
    .error (.configuration (.keyExists key.version.toNat))
  else
    return { ring with keys := put key ring.keys }

end KeyRing

end TableGate
