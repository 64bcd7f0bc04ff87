import IpcWiring.Program.Resolve
import IpcWiring.Program.Substitution
import IpcWiring.TypeImport

/-!
# Types outside their files

A type that is pasted into another file needs imports for the names in it. `Program.renderIn` gives
the text with the imports, and with the local names that no other file can import. A `Scope` binds
type parameters to arguments, each with the file and scope that it was written in.
-/

namespace IpcWiring

open Script

/-- A type text that is ready to be pasted. -/
structure Rendered where
  text : String
  imports : List TypeImport
  /-- Local declarations that the text names and that are not exported. -/
  unexported : List String
deriving Inhabited

/-- A text that names nothing. -/
def Rendered.plain (text : String) : Rendered := ⟨text, [], []⟩

mutual

/-- Type parameters with what they are bound to, the latest binding first. -/
inductive Scope where
  | of (bindings : List (String × Binding))

/-- A type argument, rendered and as it was written in its file and scope. -/
structure Binding where
  rendered : Rendered
  file : Path
  type : TypeExpr
  scope : Scope

end

namespace Scope

/-- The scope without type parameters. -/
def empty : Scope := .of []

/-- The bindings, the latest one first. -/
def bindings : Scope → List (String × Binding)
  | .of bs => bs

/-- What a name is bound to. -/
def find? (s : Scope) (name : String) : Option Binding := s.bindings.lookup name

/-- Binds a name. -/
def bind (s : Scope) (name : String) (b : Binding) : Scope := .of ((name, b) :: s.bindings)

end Scope

/-- Where a type name of a file comes from. -/
inductive NameSource where
  | imported (i : TypeImport)
  /-- The file declares it and does not export it. -/
  | unexported
  /-- The name is global, a type parameter or unknown. -/
  | elsewhere

namespace Program

variable (p : Program)

/-- The source behind a specifier in a file: the file that it leads to or would lead to, or a module
by its specifier. -/
def sourceBehind (file : Path) (specifier : String) : TypeSource :=
  if Specifier.isRelative specifier then
    .file ((p.targetOf file specifier).getD (Specifier.target file specifier))
  else .module specifier

/-- Where a type name of a file comes from. -/
def sourceOf (file : Path) (name : TypeName) : NameSource :=
  match p.module? file with
  | none => .elsewhere
  | some m =>
    match m.imports.find? name.head with
    | some binding =>
      let source := p.sourceBehind file binding.specifier
      .imported <| match importedName? binding.kind with
        | some imported => ⟨imported, name.head, source, false⟩
        | none => .whole name.head source
    | none =>
      if m.declares name.head then
        match m.exportNameOf? name.head with
        | some exported => .imported ⟨exported, name.head, .file file, false⟩
        | none => .unexported
      else .elsewhere

/-- Adds to a rendered text what a name in it needs. -/
def needName (file : Path) (scope : Scope) (r : Rendered) (name : TypeName) : Rendered :=
  let bound? := if name.isSimple then scope.find? name.head else none
  match bound? with
  | some b =>
    { r with
      imports := appendNew r.imports b.rendered.imports
      unexported := appendNew r.unexported b.rendered.unexported }
  | none =>
    match p.sourceOf file name with
    | .imported i => { r with imports := addNew r.imports i }
    | .unexported => { r with unexported := addNew r.unexported name.head }
    | .elsewhere => r

/-- Renders a type of a file in a scope. -/
def renderIn (file : Path) (t : TypeExpr) (scope : Scope) : Rendered :=
  let text := if scope.bindings.isEmpty then t.text
    else TypeText.substitute (fun name => (scope.find? name).map (·.rendered.text)) t.text
  t.names.foldl (p.needName file scope) (.plain text)

/-- Renders a type of a file. -/
def render (file : Path) (t : TypeExpr) : Rendered := p.renderIn file t .empty

/-- The import of a single type name of a file. -/
def importFor? (file : Path) (name : String) : Option TypeImport :=
  match p.sourceOf file (.simple name) with
  | .imported i => some i
  | _ => none

end Program

end IpcWiring
