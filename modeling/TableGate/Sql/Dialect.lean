import TableGate.Json.Record

/-!
# Dialects of SQL

The three dialects and what they write differently at the level of single tokens.
-/

namespace TableGate

/-- A dialect of SQL. -/
inductive Dialect where
  | mysql
  | postgres
  | sqlite
  deriving DecidableEq, Repr

namespace Dialect

def name : Dialect → String
  | .mysql => "mysql"
  | .postgres => "postgres"
  | .sqlite => "sqlite"

def title : Dialect → String
  | .mysql => "MySql"
  | .postgres => "Postgres"
  | .sqlite => "Sqlite"

/-- The dialect with a name or one of its other names. -/
def ofName? : String → Option Dialect
  | "mysql" | "mariadb" => some .mysql
  | "postgres" | "pgsql" | "postgresql" => some .postgres
  | "sqlite" => some .sqlite
  | _ => none

def ofJson? : Value → Option Dialect :=
  Value.asName? ofName?

def quote : Dialect → Char
  | .mysql => '\x60'
  | .postgres => '"'
  | .sqlite => '"'

/-- The mark for the parameter at a position, counted from one. -/
def placeholder (d : Dialect) (position : Nat) : String :=
  match d with
  | .postgres => "$" ++ Text.ofNat position
  | .mysql => "?"
  | .sqlite => "?"

/-- The clause that limits the rows. Where a dialect has no offset without a limit, the limit is
written so that it never binds. -/
def limitClause (d : Dialect) : Option Nat → Option Nat → String
  | none, none => ""
  | some limit, none => " LIMIT " ++ Text.ofNat limit
  | some limit, some offset => " LIMIT " ++ Text.ofNat limit ++ " OFFSET " ++ Text.ofNat offset
  | none, some offset =>
    match d with
    | .mysql => " LIMIT 18446744073709551615 OFFSET " ++ Text.ofNat offset
    | .sqlite => " LIMIT -1 OFFSET " ++ Text.ofNat offset
    | .postgres => " OFFSET " ++ Text.ofNat offset

end Dialect

end TableGate
