import IpcWiring.Script.TypeExpr

/-!
# Expressions and statements

What is kept of a source file: the parts of expressions that a schema can be made of, and the
top-level statements that declare, import or export names. Bodies, classes and control flow are
read and dropped.
-/

namespace IpcWiring.Script

/-! ## Expressions -/

mutual

/-- An expression. Parentheses, casts and non-null marks are not kept. -/
inductive Expr where
  | name (name : String)
  /-- `receiver.name` -/
  | member (receiver : Expr) (name : String)
  /-- A call; an argument that is spread is none. -/
  | call (callee : Expr) (args : List (Option Expr))
  /-- An object, with its properties of a known name. -/
  | object (entries : List Entry)
  /-- An array; a hole or a spread element is none. -/
  | array (items : List (Option Expr))
  /-- A string, number, boolean or null, as it is written. -/
  | literal (text : String)
  /-- Any other expression that can be assigned to. -/
  | place
  | other

/-- A property of an object expression. -/
structure Entry where
  key : String
  value : Expr

end

instance : Inhabited Expr := ⟨.other⟩

namespace Expr

/-- The expression can stand before an assignment operator. -/
def isAssignable : Expr → Bool
  | name _ | member .. | object _ | array _ | place => true
  | call .. | literal _ | other => false

/-- The dotted name that an expression writes. -/
def typeName? : Expr → Option TypeName
  | name n => some (.simple n)
  | member receiver n => receiver.typeName?.map (·.dot n)
  | _ => none

end Expr

/-! ## Statements -/

/-- What an import binding stands for in its module. -/
inductive ImportKind where
  | named (imported : String)
  | default
  | wholeModule
deriving DecidableEq, Repr

/-- A local name with what it is imported as. -/
structure ImportItem where
  name : String
  kind : ImportKind
deriving DecidableEq, Repr

/-- A function declaration or overload signature. -/
structure FunctionDecl where
  name : String
  start : Nat
  params : List Param

/-- A type alias. -/
structure AliasDecl where
  name : String
  typeParams : List TypeParam
  type : TypeExpr
  start : Nat

/-- An interface. It is opaque if it has an index, call or construct signature. -/
structure InterfaceDecl where
  name : String
  typeParams : List TypeParam
  members : List Member
  bases : List TypeExpr
  isOpaque : Bool

/-- A declaration of a top-level name. -/
inductive Declaration where
  /-- Variables, each with its name if the pattern is one, and its initial value. -/
  | values (vars : List (Option String × Option Expr))
  | function (f : FunctionDecl)
  | classLike (name : String)
  | typeAlias (a : AliasDecl)
  | interface (i : InterfaceDecl)

/-- A top-level statement. -/
inductive Statement where
  | declare (exported : Bool) (d : Declaration)
  | imports (specifier : String) (items : List ImportItem)
  /-- `export { local as exported }`, with the specifier if there is one. -/
  | exportNames (names : List (String × String)) (specifier? : Option String)
  /-- `export *`, with the name of the namespace if there is one. -/
  | exportAll (exported? : Option String) (specifier : String)
  | exportDefaultFunction (name? : Option String)
  | other

end IpcWiring.Script
