import TableGate.Fault

/-!
# Paths into JSON columns

The path to a value inside a JSON column: keys and positions, read from text and written in the two
forms that the dialects understand.
-/

namespace TableGate

inductive JsonStep where
  | key (name : String)
  | index (n : Nat)
  deriving DecidableEq

namespace JsonStep

/-- The positions in brackets that follow a key. Outside of brackets the state is `none`; inside it
holds, in reverse, what was read since the opening bracket. -/
def indicesFrom : Option (List Char) → List Char → Option (List Nat)
  | none, [] => some []
  | none, c :: cs => if c = '[' then indicesFrom (some []) cs else none
  | some _, [] => none
  | some inside, c :: cs =>
    if c = ']' then do
      let n ← Text.toNat? Text.maxUInt64 inside.reverse
      let rest ← indicesFrom none cs
      return n :: rest
    else
      indicesFrom (some (c :: inside)) cs

/-- The steps of the part of a path between two dots: a key, positions, or a key and positions. -/
def ofPart? (part : List Char) : Option (List JsonStep) := do
  let key := part.takeWhile (· != '[')
  let indices ← indicesFrom none (part.dropWhile (· != '['))
  if part.isEmpty || !key.all Text.isWordChar then none
  else
    let steps := indices.map .index
    return if key.isEmpty then steps else .key (String.ofList key) :: steps

def dropFirst (c : Char) : List Char → List Char
  | [] => []
  | first :: rest => if first = c then rest else first :: rest

/-- The path that a text is. It may open with a dollar sign and a dot. -/
def pathOf? (path : String) : Except Fault (List JsonStep) :=
  let body := dropFirst '.' (dropFirst '$' (Text.trimChars path.toList))
  match (Text.pieces (· == '.') body).mapM ofPart? with
  | some parts => .ok parts.flatten
  | none => .error (.querySpec (.jsonPath path))

def dollarStep : JsonStep → String
  | .key name => "." ++ name
  | .index n => "[" ++ Text.ofNat n ++ "]"

/-- The path behind a dollar sign, with dots and brackets. -/
def dollarPath (steps : List JsonStep) : String :=
  steps.foldl (fun s step => s ++ step.dollarStep) "$"

def element : JsonStep → String
  | .key name => name
  | .index n => Text.ofNat n

/-- The path as a list in braces. -/
def bracePath (steps : List JsonStep) : String :=
  "\x7b" ++ String.intercalate "," (steps.map element) ++ "\x7d"

end JsonStep

end TableGate
