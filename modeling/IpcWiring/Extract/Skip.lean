import IpcWiring.WorkingSet.Record

/-!
# Skipped declarations

Extraction leaves out what does not fit and tells why. A `Skipped` names a file, or a declaration in
it, with the reason.
-/

namespace IpcWiring

/-- Why a file or declaration was left out. -/
inductive SkipReason where
  | unreadableFile
  /-- The function is on the ignore list. -/
  | ignored
  /-- The declaration is not exported under its own name. -/
  | notExported
  | noParameters
  /-- The first parameter is no plain name with a type. -/
  | unsupportedContextParameter
  /-- The first parameter has another type than the context. -/
  | contextMismatch (found : String)
  /-- The function's name was declared before. -/
  | overload
  /-- The request names a local type that is not exported. -/
  | unexportedType (typeName : String)
  | defaultExport
  | notAFunctionType
  | returnNotVoid
  /-- The event's function type has not one parameter but another number. -/
  | parameterCount (count : Nat)
  | parameterNotNamedReference
deriving DecidableEq, Repr

/-- The reason in words. -/
def SkipReason.text : SkipReason → String
  | unreadableFile => "file could not be read or parsed"
  | ignored => "listed in the ignore list"
  | notExported => "not exported"
  | noParameters => "has no parameters"
  | unsupportedContextParameter => "first parameter is destructured, rest or untyped"
  | contextMismatch found => "first parameter type '" ++ found ++ "' is not the context type"
  | overload => "repeated declaration of an earlier function"
  | unexportedType typeName => "refers to type '" ++ typeName ++ "', which is not exported"
  | defaultExport => "default export has no channel name"
  | notAFunctionType => "not a function type"
  | returnNotVoid => "does not return void"
  | parameterCount count => "takes " ++ toString count ++ " parameters instead of one"
  | parameterNotNamedReference => "parameter is not a named type reference"

/-- A file that was skipped, or a declaration in it. -/
structure Skipped where
  path : Path
  name? : Option String
  reason : SkipReason

/-- What was extracted, and what was skipped on the way. -/
structure Extraction (α : Type) where
  records : List (Record α)
  skipped : List Skipped

/-- Splits outcomes into entries and the declarations that were skipped, each in order. -/
def partitionOutcomes {α : Type} (path : Path) :
    List (String × Except SkipReason α) → List α × List Skipped
  | [] => ([], [])
  | (name, outcome) :: rest =>
    let (entries, skipped) := partitionOutcomes path rest
    match outcome with
    | .ok a => (a :: entries, skipped)
    | .error reason => (entries, ⟨path, some name, reason⟩ :: skipped)

end IpcWiring
