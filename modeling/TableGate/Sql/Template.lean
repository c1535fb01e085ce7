import TableGate.Fault

/-!
# Templates

SQL before its dialect is chosen: a row of pieces, in which the identifiers and the parameters are
still recognisable. Printing quotes the identifiers and numbers the parameters from left to right, so
the parameters of a statement stand in the order of their marks.
-/

namespace TableGate

/-- A name that may stand in SQL: ASCII letters, digits and underscores, not opening with a digit. -/
structure Identifier where
  text : String
  valid : Text.isIdentifier text.toList = true
  deriving DecidableEq

def Identifier.of? (s : String) : Except Fault Identifier :=
  if h : Text.isIdentifier s.toList = true then .ok ⟨s, h⟩
  else .error (.querySpec (.invalidIdentifier s))

/-- A piece of SQL: fixed text, an identifier, a fragment in the caller's words, the content of a
string literal, or a parameter. -/
inductive Piece where
  | text (s : String)
  | name (n : Identifier)
  | raw (fragment : String)
  | literal (content : String)
  | param (value : Value)

/-- SQL as a row of pieces. -/
abbrev Template := List Piece

/-- A statement as it is sent: its text and its parameters. -/
structure Statement where
  sql : String
  params : List Value

def Dialect.quoted (d : Dialect) (n : Identifier) : String :=
  d.quote.toString ++ n.text ++ d.quote.toString

namespace Template

/-- The templates one after the other, with a text between any two of them. -/
def joined (separator : String) : List Template → Template
  | [] => []
  | [t] => t
  | t :: ts => t ++ .text separator :: joined separator ts

def parenthesized (t : Template) : Template :=
  .text "(" :: t ++ [.text ")"]

def params : Template → List Value
  | [] => []
  | .param v :: rest => v :: params rest
  | _ :: rest => params rest

/-- The text of a template whose first parameter has the given position. -/
def printFrom (d : Dialect) : Nat → Template → String
  | _, [] => ""
  | n, .text s :: rest => s ++ printFrom d n rest
  | n, .name i :: rest => d.quoted i ++ printFrom d n rest
  | n, .raw s :: rest => s ++ printFrom d n rest
  | n, .literal s :: rest => "'" ++ s ++ "'" ++ printFrom d n rest
  | n, .param _ :: rest => d.placeholder n ++ printFrom d (n + 1) rest

def print (d : Dialect) (t : Template) : String :=
  printFrom d 1 t

def statement (d : Dialect) (t : Template) : Statement :=
  ⟨t.print d, params t⟩

theorem params_append (s t : Template) : params (s ++ t) = params s ++ params t := by
  induction s with
  | nil => rfl
  | cons p s ih => cases p <;> simp [params, ih]

end Template

end TableGate
