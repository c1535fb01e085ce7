import TableGate.Fault
import TableGate.Json.Text

/-!
# Literals

Values written into SQL where a statement cannot have parameters.
-/

namespace TableGate

namespace Literal

/-- The characters of a literal's content: a quotation mark is written twice. -/
def doubled : List Char → List Char
  | [] => []
  | c :: cs => if c = '\'' then '\'' :: '\'' :: doubled cs else c :: doubled cs

def ofText (s : String) : String :=
  "'" ++ String.ofList (doubled s.toList) ++ "'"

/-- The default of a column as a literal. -/
def ofDefault? : Value → Except Fault String
  | .null => .ok "NULL"
  | .bool true => .ok "TRUE"
  | .bool false => .ok "FALSE"
  | .int n => .ok (Text.ofInt n)
  | .real x => .ok (String.ofList x.chars)
  | .text s => .ok (ofText s)
  | _ => .error (.querySpec .defaultNotScalar)

end Literal

end TableGate
