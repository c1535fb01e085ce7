import TableGate.Fault

/-!
# Connection URLs

The dialect that a URL names, and the form of a URL that may be shown.
-/

namespace TableGate.Url

/-- The characters of a URL with its password, if it has one, replaced by asterisks. The password
stands between the first colon behind the scheme and the first at sign. -/
def redactedChars (url : List Char) : List Char :=
  match Text.cutAt? [':', '/', '/'] url with
  | none => url
  | some (scheme, rest) =>
    match Text.cut? (· == '@') rest with
    | none => url
    | some (credentials, host) =>
      match Text.cut? (· == ':') credentials with
      | none => url
      | some (user, _) => scheme ++ [':', '/', '/'] ++ user ++ [':', '*', '*', '*', '@'] ++ host

def redacted (url : String) : String :=
  String.ofList (redactedChars url.toList)

def dialectOfScheme? : String → Option Dialect
  | "mysql" | "mariadb" => some .mysql
  | "postgres" | "postgresql" => some .postgres
  | "sqlite" => some .sqlite
  | _ => none

def dialect? (url : String) : Except Fault Dialect :=
  match Text.cut? (· == ':') url.toList with
  | none => .error (.configuration (.noScheme (redacted url)))
  | some (before, _) =>
    let scheme := Text.lower (String.ofList before)
    match dialectOfScheme? scheme with
    | some d => .ok d
    | none => .error (.configuration (.unsupportedScheme scheme))

end TableGate.Url
