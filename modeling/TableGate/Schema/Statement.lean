import TableGate.Schema.Blueprint
import TableGate.Sql.Literal
import TableGate.Sql.Template

/-!
# Schema statements

The statements that create and change tables, and their SQL. They have no parameters.
-/

namespace TableGate

/-- A column as a statement defines it. A column that the database counts itself is the primary key and
says nothing about null or a default. -/
structure ColumnClause where
  name : Identifier
  type : String
  autoIncrement : Bool
  nullable : Bool
  default : Option String
  unique : Bool

/-- Who gets or loses a privilege: a user at a host, or a role. -/
inductive Principal where
  | account (user host : String)
  | role (name : Identifier)

/-- A schema statement. -/
inductive SchemaStatement where
  | createTable (table : Identifier) (columns : List ColumnClause)
  | dropTable (table : Identifier)
  | addColumn (table : Identifier) (column : ColumnClause)
  | modifyColumn (table : Identifier) (column : ColumnClause)
  | setType (table column : Identifier) (type : String)
  | setNullable (table column : Identifier) (nullable : Bool)
  | setDefault (table column : Identifier) (literal : String)
  | dropColumn (table column : Identifier)
  | renameColumn (table source target : Identifier)
  | createIndex (unique : Bool) (name table column : Identifier)
  | dropIndex (name : Identifier)
  | createView (view : Identifier) (body : String)
  | dropView (view : Identifier)
  | grant (privileges : List String) (table : Identifier) (principal : Principal)
  | revoke (privileges : List String) (table : Identifier) (principal : Principal)

namespace ColumnClause

/-- Whether the values of the column differ by the clause itself. -/
def isUnique (c : ColumnClause) : Bool :=
  c.unique || c.autoIncrement

def nullability (d : Dialect) (nullable : Bool) : String :=
  if !nullable then " NOT NULL" else if d = .mysql then " NULL" else ""

def print (d : Dialect) (c : ColumnClause) : String :=
  let named := d.quoted c.name ++ " " ++ c.type
  let filled :=
    if c.autoIncrement then named
    else
      named ++ nullability d c.nullable ++
        match c.default with
        | some literal => " DEFAULT " ++ literal
        | none => ""
  if c.unique then filled ++ " UNIQUE" else filled

end ColumnClause

namespace Principal

def print (d : Dialect) : Principal → String
  | .account user host => Literal.ofText user ++ "@" ++ Literal.ofText host
  | .role name => d.quoted name

end Principal

namespace SchemaStatement

def alter (d : Dialect) (table : Identifier) : String :=
  "ALTER TABLE " ++ d.quoted table

def print (d : Dialect) : SchemaStatement → String
  | .createTable table columns =>
    "CREATE TABLE " ++ d.quoted table ++ " (" ++
      String.intercalate ", " (columns.map (ColumnClause.print d)) ++ ")"
  | .dropTable table => "DROP TABLE IF EXISTS " ++ d.quoted table
  | .addColumn table column => alter d table ++ " ADD COLUMN " ++ column.print d
  | .modifyColumn table column => alter d table ++ " MODIFY COLUMN " ++ column.print d
  | .setType table column type => alter d table ++ " ALTER COLUMN " ++ d.quoted column ++ " TYPE " ++ type
  | .setNullable table column nullable =>
    alter d table ++ " ALTER COLUMN " ++ d.quoted column ++
      (if nullable then " DROP NOT NULL" else " SET NOT NULL")
  | .setDefault table column literal =>
    alter d table ++ " ALTER COLUMN " ++ d.quoted column ++ " SET DEFAULT " ++ literal
  | .dropColumn table column => alter d table ++ " DROP COLUMN " ++ d.quoted column
  | .renameColumn table source target =>
    alter d table ++ " RENAME COLUMN " ++ d.quoted source ++ " TO " ++ d.quoted target
  | .createIndex unique name table column =>
    (if unique then "CREATE UNIQUE INDEX " else "CREATE INDEX ") ++ d.quoted name ++ " ON " ++
      d.quoted table ++ " (" ++ d.quoted column ++ ")"
  | .dropIndex name => "DROP INDEX IF EXISTS " ++ d.quoted name
  | .createView view body => "CREATE VIEW " ++ d.quoted view ++ " AS " ++ body
  | .dropView view => "DROP VIEW IF EXISTS " ++ d.quoted view
  | .grant privileges table principal =>
    "GRANT " ++ String.intercalate ", " privileges ++ " ON " ++ d.quoted table ++ " TO " ++ principal.print d
  | .revoke privileges table principal =>
    "REVOKE " ++ String.intercalate ", " privileges ++ " ON " ++ d.quoted table ++ " FROM " ++
      principal.print d

end SchemaStatement

end TableGate
