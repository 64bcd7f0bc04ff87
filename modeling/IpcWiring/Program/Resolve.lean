import IpcWiring.Program.Basic

/-!
# Resolving type names

A type name leads to a declaration through the declarations, imports and exports of modules. Every
import, re-export and local export on the way is one hop; `Program.resolveLocal` and
`Program.resolveExport` take the number of hops that are left, and give up when there are none.
-/

namespace IpcWiring

open Script

/-- What a type name leads to. -/
inductive Symbol where
  /-- An interface, with the file that declares it. -/
  | interface (file : Path) (decl : InterfaceDecl)
  /-- A type alias, with the file that declares it. -/
  | typeAlias (file : Path) (decl : AliasDecl)
  /-- An enumeration or a class. -/
  | opaqueType (name : String)
  /-- A name of a module that is not part of the program. -/
  | external (name : String)

/-- The name that the symbol was declared under. -/
def Symbol.name : Symbol → String
  | interface _ decl => decl.name
  | typeAlias _ decl => decl.name
  | opaqueType name | external name => name

/-- The number of steps that a chain of aliases, imports or bases may have. -/
def maxSteps : Nat := 17

namespace Program

variable (p : Program)

/-- The symbol that a name exported by the module of a specifier leads to, where `exported` follows
the exports of a file. -/
def viaSpecifier (exported : Path → String → Option Symbol) (file : Path)
    (specifier name : String) : Option Symbol :=
  match p.targetOf file specifier with
  | some target => exported target name
  | none => some (.external name)

/-- The symbol that the re-exports of a file give a name, in order. A re-export of that name
settles it; `export *` is passed over where it does not lead to the name. -/
def viaReExports (exported : Path → String → Option Symbol) (file : Path) (name : String) :
    List ReExport → Option Symbol
  | [] => none
  | .named as imported specifier :: rest =>
    if as == name then p.viaSpecifier exported file specifier imported
    else viaReExports exported file name rest
  | .all specifier :: rest =>
    match (p.targetOf file specifier).bind (exported · name) with
    | some symbol => some symbol
    | none => viaReExports exported file name rest
  | .wholeModule .. :: rest => viaReExports exported file name rest

/-- The name under which an import binding is known in its module; none for a whole module. -/
def importedName? : ImportKind → Option String
  | .named imported => some imported
  | .default => some "default"
  | .wholeModule => none

mutual

/-- The symbol that a name leads to inside a file. -/
def resolveLocal (steps : Nat) (file : Path) (name : String) : Option Symbol :=
  match steps with
  | 0 => none
  | n + 1 => do
    let m ← p.module? file
    if let some i := m.interfaces.find? name then return .interface m.path i
    if let some a := m.aliases.find? name then return .typeAlias m.path a
    if m.opaqueTypes.contains name then return .opaqueType name
    let binding ← m.imports.find? name
    let imported ← importedName? binding.kind
    p.viaSpecifier (resolveExport n) file binding.specifier imported

/-- The symbol that a name leads to among the exports of a file. -/
def resolveExport (steps : Nat) (file : Path) (name : String) : Option Symbol :=
  match steps with
  | 0 => none
  | n + 1 => do
    let m ← p.module? file
    match m.exports.find? name with
    | some inner => resolveLocal n file inner
    | none => p.viaReExports (resolveExport n) file name m.reexports

end

/-- The symbol that a type name leads to inside a file. A name of two segments is looked up in the
module that the first one stands for; a longer one leads nowhere. -/
def resolve (steps : Nat) (file : Path) (name : TypeName) : Option Symbol :=
  match name.rest with
  | [] => p.resolveLocal steps file name.head
  | [member] => do
    let m ← p.module? file
    let binding ← m.imports.find? name.head
    if binding.kind != .wholeModule then failure
    p.viaSpecifier (p.resolveExport (steps - 1)) file binding.specifier member
  | _ => none

/-- The type is a name without arguments. -/
def isPlainReference (t : TypeExpr) : Bool :=
  match t.stripParens.form with
  | .reference _ [] => true
  | _ => false

/-- The declared name behind a type, within a number of steps. -/
def declaredNameWithin : Nat → Path → TypeExpr → Option String
  | 0, _, _ => none
  | n + 1, file, t =>
    match t.stripParens.form with
    | .keyword k => some k
    | .reference name args =>
      match p.resolve (n + 1) file name with
      | some (.typeAlias path a) =>
        if args.isEmpty && a.typeParams.isEmpty && isPlainReference a.type then
          declaredNameWithin n path a.type
        else some a.name
      | some symbol => some symbol.name
      | none => some name.last
    | _ => none

/-- The declared name behind a type: a keyword itself, the declaration that a name leads to through
imports and plain aliases, or the last segment of a name that leads nowhere. -/
def declaredName (file : Path) (t : TypeExpr) : Option String :=
  p.declaredNameWithin maxSteps file t

end Program

end IpcWiring
