import IpcWiring.Extract.Api

/-!
# Extracting events

An event is an exported alias of a function type that takes one parameter of a named type and
returns nothing.
-/

namespace IpcWiring

open Script

/-- The type, parentheses aside, is the keyword. -/
def isKeyword (t : TypeExpr) (keyword : String) : Bool :=
  match t.stripParens.form with
  | .keyword k => k == keyword
  | _ => false

/-- The name that a parameter has as its type. -/
def namedPayload? (param : Param) : Option TypeName :=
  if Grammar.isRest param then none
  else do
    let t ← param.type?
    match t.stripParens.form with
    | .reference name [] => some name
    | _ => none

/-- The event of an alias, or the first reason to skip it. -/
def apiEvent (p : Program) (m : SourceModule) (path : Path) (a : AliasDecl) :
    Except SkipReason ApiEvent := do
  if !m.exportsAsItself a.name then throw .notExported
  let .function params result := a.type.stripParens.form | throw .notAFunctionType
  if !isKeyword result "void" then throw .returnNotVoid
  let [param] := params | throw (.parameterCount params.length)
  match namedPayload? param with
  | some name => return ⟨a.name, name.text, p.importFor? path name.head⟩
  | none => throw .parameterNotNamedReference

/-- The events of a module in the order of their declarations, with what was skipped. -/
def apiEvents (p : Program) (path : Path) (m : SourceModule) : List ApiEvent × List Skipped :=
  let aliases := m.aliases.values.mergeSort fun a b => a.start ≤ b.start
  partitionOutcomes path (aliases.map fun a => (a.name, apiEvent p m path a))

/-- Extracts the events of files of a program. -/
def extractEvents (p : Program) (paths : List Path) : Extraction ApiEvent :=
  extractFiles p (apiEvents p) (paths.map Path.normalize)

end IpcWiring
