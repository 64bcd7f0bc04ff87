import IpcWiring.TypeImport

/-!
# Functions and events

What is known of an extracted function: the fields of the request that a caller sends, how each
parameter is filled from them, and its companions. An event is known by its payload type.
-/

namespace IpcWiring

/-! ## Optional types -/

/-- One of the alternatives of a type text is `undefined`. -/
def admitsUndefined (text : String) : Bool :=
  (Text.splitOn '|' text).any fun part => Text.trim part == "undefined"

/-- The type text with `undefined` as one more alternative, unless it has that. -/
def withUndefined (text : String) : String :=
  if admitsUndefined text then text else text ++ " | undefined"

/-! ## Functions -/

/-- A field of a request. -/
structure RequestField where
  name : String
  /-- The type text; of an optional field it admits `undefined`. -/
  typeText : String
  optional : Bool
  imports : List TypeImport
deriving Inhabited

namespace RequestField

/-- A field that may be left out. -/
def relaxed (name typeText : String) (imports : List TypeImport) : RequestField :=
  ⟨name, withUndefined typeText, true, imports⟩

/-- A field that may be left out, or must not be. -/
def of (optional : Bool) (name typeText : String) (imports : List TypeImport) : RequestField :=
  if optional then relaxed name typeText imports else ⟨name, typeText, false, imports⟩

end RequestField

/-- What a parameter behind the context is given. -/
inductive ParamBinding where
  /-- The whole request. -/
  | bag
  /-- One field of the request. -/
  | field (name : String)
  /-- The elements of one field of the request. -/
  | spread (name : String)
deriving DecidableEq, Repr, Inhabited

/-- A function that can be called from another process. Its name is also its channel. -/
structure ApiFunction where
  name : String
  request : List RequestField
  /-- One binding for each parameter behind the context. -/
  bindings : List ParamBinding
  validator? : Option String
  errorHandler? : Option String
deriving Inhabited

/-- The imports of all request fields. -/
def ApiFunction.typeImports (f : ApiFunction) : List TypeImport := f.request.flatMap (·.imports)

/-! ## Events -/

/-- An event that is sent to another process. Its name is also its channel. -/
structure ApiEvent where
  name : String
  payload : String
  payloadImport? : Option TypeImport
deriving Inhabited

/-! ## Names -/

/-- Values that have a name. -/
class Named (α : Type) where
  name : α → String

instance : Named ApiFunction := ⟨ApiFunction.name⟩

instance : Named ApiEvent := ⟨ApiEvent.name⟩

end IpcWiring
