import TableGate.Json.Record
import TableGate.Text.Ascii
import TableGate.Text.Blank

/-!
# Settings of the log

What is logged, and whether in colour.
-/

namespace TableGate

/-- What is logged, as a filter, and whether the output is coloured. -/
structure LoggingSettings where
  level : String := "info"
  ansi : Bool := true
  deriving DecidableEq, Repr

namespace LoggingSettings

def ofJson? (v : Value) : Option LoggingSettings := do
  let fields ← Fields.of? 2 v
  return {
    level := ← fields.required 0 "level" Value.asText?
    ansi := ← fields.required 1 "ansi" Value.asBool? }

def toJson (s : LoggingSettings) : Value :=
  .object [("ansi", .bool s.ansi), ("level", .text s.level)]

/-- The settings that two variables give; a blank level does not count, and only the word `false`, in
any case, turns colours off. -/
def ofVariables (level ansi : Option String) : LoggingSettings where
  level :=
    match level with
    | some text => if Text.trim text = "" then "info" else Text.trim text
    | none => "info"
  ansi :=
    match ansi with
    | some text => Text.lower text != "false"
    | none => true

end LoggingSettings

end TableGate
