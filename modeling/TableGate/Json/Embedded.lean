import TableGate.Json.Reader
import TableGate.NameMap

/-!
# Embedded texts

An object whose first entry has a name set aside for the purpose stands for the value of the JSON text
that this entry holds. A value is settled once such objects are replaced by what they stand for, and the
entries of every object are in increasing order of their names.
-/

namespace TableGate

namespace Value

/-- The name set aside for an embedded text. -/
def embeddedName : String := "$serde_json::private::RawValue"

/-- Whether entries are those of an object that stands for an embedded text. Only the first name tells. -/
def isEmbedding : List (String × Value) → Bool
  | (name, _) :: _ => name == embeddedName
  | [] => false

/-- The embedded text. There has to be a text, and nothing beside it. -/
def embeddedText? : List (String × Value) → Option String
  | [(_, .text s)] => some s
  | _ => none

mutual
/-- The value with every embedded text replaced by its value and with the entries of every object in
increasing order of their names. Of two entries under one name the later counts. -/
def settleWith (valueOf : String → Option Value) : Value → Option Value
  | .array items => (settleItems valueOf items).map .array
  | .object entries =>
    if isEmbedding entries then
      (embeddedText? entries).bind valueOf
    else
      (settleEntries valueOf entries).map fun entries => .object (NameMap.ofList entries).entries
  | v => some v
def settleItems (valueOf : String → Option Value) : List Value → Option (List Value)
  | [] => some []
  | v :: vs => do return (← v.settleWith valueOf) :: (← settleItems valueOf vs)
def settleEntries (valueOf : String → Option Value) :
    List (String × Value) → Option (List (String × Value))
  | [] => some []
  | (name, v) :: rest => do return (name, ← v.settleWith valueOf) :: (← settleEntries valueOf rest)
end

end Value

namespace Json

/-- The settled value of a text in which texts are embedded in each other at most to the given depth. -/
def parseWithin? : Nat → String → Option Value
  | 0, _ => none
  | depth + 1, s => (document? s).bind (Value.settleWith (parseWithin? depth))

/-- The settled value of a text. An embedded text is shorter than the one around it, which bounds the
depth. -/
def parse? (s : String) : Option Value :=
  parseWithin? (s.length + 1) s

end Json

/-- The settled form of a value. -/
def Value.settled? : Value → Option Value :=
  Value.settleWith Json.parse?

end TableGate
