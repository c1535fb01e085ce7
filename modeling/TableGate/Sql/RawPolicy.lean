import TableGate.Sql.Template

/-!
# Raw fragments

Fragments of SQL in the caller's words, and the policy under which they are let through.
-/

namespace TableGate

/-- Whether raw fragments are printed as they are, or refused when they hold a statement separator or
the start of a comment. -/
inductive RawPolicy where
  | trusted
  | guarded
  deriving DecidableEq, Repr

namespace RawPolicy

def name : RawPolicy → String
  | .trusted => "trusted"
  | .guarded => "guarded"

def ofName? : String → Option RawPolicy
  | "trusted" => some .trusted
  | "guarded" => some .guarded
  | _ => none

def ofJson? : Value → Option RawPolicy :=
  Value.asName? ofName?

/-- The policy that a setting names, in any case and with blanks around it. -/
def ofText? (s : String) : Except Fault RawPolicy :=
  let word := Text.lower (Text.trim s)
  match ofName? word with
  | some policy => .ok policy
  | none => .error (.configuration (.unknownPolicy word))

/-- Whether a text holds a statement separator or the start of a comment. -/
def isUnsafeText (cs : List Char) : Bool :=
  Text.occursIn [';'] cs || Text.occursIn ['-', '-'] cs || Text.occursIn ['/', '*'] cs

/-- The fragment without the blanks around it, if the policy lets it through. -/
def check (policy : RawPolicy) (fragment context : String) : Except Fault String :=
  let trimmed := Text.trimChars fragment.toList
  if trimmed.isEmpty then
    .error (.querySpec (.emptyFragment context))
  else if policy = .guarded && isUnsafeText trimmed then
    .error (.querySpec (.unsafeFragment context))
  else
    .ok (String.ofList trimmed)

end RawPolicy

end TableGate
