/-!
# Type expressions

A type expression as a source file writes it: its form, its text on one line, the byte offset at
which it starts, and the type names that occur in it. A form keeps what a caller of the type may
want to look into; every other type is `TypeForm.other` and only its text counts.
-/

namespace IpcWiring.Script

/-- A type name as it is written, `User` or qualified as in `ns.User`. -/
structure TypeName where
  /-- The first segment, which is the name that a module scope binds. -/
  head : String
  /-- The segments behind it. -/
  rest : List String
deriving DecidableEq, Repr, Inhabited

namespace TypeName

/-- A name of one segment. -/
def simple (name : String) : TypeName := ⟨name, []⟩

/-- The segments in order. -/
def segments (n : TypeName) : List String := n.head :: n.rest

/-- The last segment. -/
def last (n : TypeName) : String := n.rest.getLast?.getD n.head

/-- The name has one segment. -/
def isSimple (n : TypeName) : Bool := n.rest.isEmpty

/-- The name with one more segment. -/
def dot (n : TypeName) (segment : String) : TypeName := ⟨n.head, n.rest ++ [segment]⟩

/-- How the name is written. -/
def text (n : TypeName) : String := String.intercalate "." n.segments

end TypeName

/-- How a parameter binds its argument. -/
inductive Pattern where
  | name (name : String)
  | object
  | array
  /-- A rest parameter, with its name if it has one. -/
  | rest (name? : Option String)
deriving DecidableEq, Repr, Inhabited

mutual

/-- The form of a type expression. -/
inductive TypeForm where
  | keyword (name : String)
  | reference (name : TypeName) (args : List TypeExpr)
  /-- A type literal; it is opaque if it has an index, call or construct signature. -/
  | object (members : List Member) (isOpaque : Bool)
  | union (options : List TypeExpr)
  | intersection (parts : List TypeExpr)
  | paren (inner : TypeExpr)
  | function (params : List Param) (result : TypeExpr)
  /-- `typeof name` -/
  | query (name : TypeName)
  /-- A string literal type, by its value. -/
  | literal (value : String)
  | other

/-- A type expression with its text, its start, and the type names in it in order. -/
structure TypeExpr where
  form : TypeForm
  text : String
  start : Nat
  names : List TypeName

/-- A property of a type literal or an interface. -/
structure Member where
  name : String
  optional : Bool
  type : TypeExpr
  start : Nat

/-- A parameter of a function; one with a default value is optional. -/
structure Param where
  pattern : Pattern
  type? : Option TypeExpr
  optional : Bool

end

namespace TypeExpr

/-- A keyword type that is not written in the source. -/
def ofKeyword (name : String) (start : Nat) : TypeExpr := ⟨.keyword name, name, start, []⟩

instance : Inhabited TypeExpr := ⟨ofKeyword "any" 0⟩

/-- The type without outer parentheses. -/
def stripParens : TypeExpr → TypeExpr
  | ⟨.paren inner, _, _, _⟩ => inner.stripParens
  | t => t

end TypeExpr

/-- The name that a parameter binds, if it is a plain name. -/
def Param.name? (p : Param) : Option String :=
  match p.pattern with
  | .name n => some n
  | .rest n? => n?
  | .object | .array => none

/-- A type parameter with its default. -/
structure TypeParam where
  name : String
  default? : Option TypeExpr

end IpcWiring.Script
