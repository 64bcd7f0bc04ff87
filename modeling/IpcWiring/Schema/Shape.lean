import IpcWiring.Schema.Basic
import IpcWiring.Text.Braces
import IpcWiring.Text.Key

/-!
# The type that a schema describes

`Schema.shape` renders a schema as a type text with its optionality, `Schema.fields?` lists the
properties of an object schema. Both follow the schema's own structure: the object helpers
(`extend`, `pick`, `partial` and so on) act on the list of rendered fields.
-/

namespace IpcWiring

/-- What a schema describes: a type text, and whether a property of that type is optional. `lasting`
tells whether it stays so after `required`, which takes back outermost `optional` calls only. -/
structure Shape where
  text : String
  optional : Bool
  lasting : Bool
deriving DecidableEq, Repr

/-- A property of an object schema. -/
structure SchemaField where
  name : String
  shape : Shape
deriving DecidableEq, Repr

namespace Shape

/-- A shape whose optionality does not come from an outermost `optional` call. -/
def of (text : String) (optional : Bool) : Shape := ⟨text, optional, optional⟩

/-- A required shape. -/
def plain (text : String) : Shape := of text false

end Shape

/-- A type that needs no brackets before `[]`. -/
def isSimpleElement (text : String) : Bool :=
  text.toList.all fun c => Text.isAlphanumeric c || ['_', '$', '.', '<', '>', '[', ']'].contains c

/-- The array type of an element type. -/
def arrayOf (element : String) : String :=
  if isSimpleElement element then element ++ "[]" else "Array<" ++ element ++ ">"

/-- The union of type texts; the empty union is `never`. -/
def unionText (options : List String) : String :=
  if options.isEmpty then "never" else Text.joinWith " | " options

namespace SchemaField

/-- How the field is written in an object type. -/
def member (f : SchemaField) : String :=
  Text.propertyKey f.name ++ (if f.shape.optional then "?" else "") ++ ": " ++ f.shape.text

/-- The object type with these fields. -/
def objectText (fields : List SchemaField) : String := Text.braced (fields.map member)

/-- Puts a field in the place of the first one of its name, or at the end. -/
def upsert (fields : List SchemaField) (f : SchemaField) : List SchemaField :=
  match fields with
  | [] => [f]
  | g :: rest => if g.name = f.name then f :: rest else g :: upsert rest f

/-- The field as an outer `optional` call makes it. -/
def relaxed (f : SchemaField) : SchemaField := { f with shape := { f.shape with optional := true } }

/-- The field without its outer `optional` calls. -/
def tightened (f : SchemaField) : SchemaField :=
  { f with shape := { f.shape with optional := f.shape.lasting } }

end SchemaField

namespace Schema

/-- What the first argument of an object helper gives it. -/
inductive Patch where
  | absent
  | entries (fields : List SchemaField)
  | fields (fields? : Option (List SchemaField))
  | other

/-- The builders of object schemas. -/
def objectBuilders : List String := ["object", "strictObject", "looseObject"]

/-- The methods that change which fields an object schema has. -/
def objectHelpers : List String := ["extend", "merge", "pick", "omit", "partial", "required"]

/-- The fields after a method on an object schema, or none if the result is no object schema that
can be listed. -/
def reshape (method : String) (patch : Patch) (base : List SchemaField) :
    Option (List SchemaField) :=
  match method, patch with
  | "extend", .entries more => some (more.foldl SchemaField.upsert base)
  | "extend", .fields more? => more?.map (·.foldl SchemaField.upsert base)
  | "merge", .fields more? => more?.map (·.foldl SchemaField.upsert base)
  | "pick", .entries keys => some (base.filter fun f => keys.any (·.name == f.name))
  | "omit", .entries keys => some (base.filter fun f => !keys.any (·.name == f.name))
  | "partial", .absent => some (base.map SchemaField.relaxed)
  | "required", .absent => some (base.map SchemaField.tightened)
  | name, _ =>
    if ["strict", "passthrough", "strip", "describe", "refine", "superRefine", "check",
        "meta"].contains name then some base
    else none

/-- The type of a builder that takes no account of its arguments. -/
def constantText? (builder : String) : Option String :=
  if ["string", "email", "uuid", "url", "cuid", "cuid2", "ulid", "iso", "base64", "ipv4",
      "ipv6"].contains builder then some "string"
  else if ["number", "int", "float", "nan"].contains builder then some "number"
  else if ["boolean", "bigint", "symbol", "any", "null", "undefined", "void",
      "never"].contains builder then some builder
  else if builder = "date" then some "Date"
  else none

/-- The texts of the literals among the arguments. -/
def literals : List SchemaArg → List String
  | [] => []
  | .literal text :: rest => text :: literals rest
  | _ :: rest => literals rest

mutual

/-- The type that a schema describes in `mode`. -/
def shape (mode : SchemaMode) : Schema → Shape
  | builder name args =>
    match constantText? name with
    | some text => .plain text
    | none =>
      if objectBuilders.contains name then
        match propertiesOf mode args with
        | some fields => .plain (SchemaField.objectText fields)
        | none => .plain "unknown"
      else match name, args with
        | "literal", .literal text :: _ => .plain text
        | "enum", .array values :: _ => .plain (unionText (literals values))
        | "enum", _ => .plain "string"
        | "array", arg :: _ => .plain (arrayOf (argText mode arg))
        | "array", [] => .plain (arrayOf "unknown")
        | "union", .array options :: _ => .plain (unionText (argTexts mode options))
        | "discriminatedUnion", _ :: .array options :: _ =>
          .plain (unionText (argTexts mode options))
        | "intersection", left :: right :: _ =>
          .plain (argText mode left ++ " & " ++ argText mode right)
        | "intersection", [left] => .plain (argText mode left ++ " & unknown")
        | "intersection", [] => .plain "unknown & unknown"
        | "tuple", .array items :: _ =>
          .plain ("[" ++ Text.joinWith ", " (argTexts mode items) ++ "]")
        | "tuple", _ => .plain "unknown[]"
        | "record", [] => .plain "Record<string, unknown>"
        | "record", [value] => .plain ("Record<string, " ++ argText mode value ++ ">")
        | "record", key :: value :: _ =>
          .plain ("Record<" ++ argText mode key ++ ", " ++ argText mode value ++ ">")
        | "optional", arg :: _ => .of (argText mode arg) true
        | "optional", [] => .of "unknown" true
        | "nullable", arg :: _ => .plain (argText mode arg ++ " | null")
        | "nullable", [] => .plain "unknown | null"
        | _, _ => .plain "unknown"
  | method receiver name args =>
    let inner := shape mode receiver
    if objectHelpers.contains name then
      match (fields? mode receiver).bind (reshape name (patch mode args)) with
      | some fields => .plain (SchemaField.objectText fields)
      | none => .plain "unknown"
    else match name, args with
      | "optional", _ => { inner with optional := true }
      | "nullable", _ => .of (inner.text ++ " | null") inner.optional
      | "nullish", _ => .of (inner.text ++ " | null") true
      | "default", _ => .of inner.text (mode == .input)
      | "catch", _ => .of inner.text (mode == .input)
      | "prefault", _ => .of inner.text (mode == .input)
      | "array", _ => .plain (arrayOf inner.text)
      | "or", arg :: _ => .of (inner.text ++ " | " ++ argText mode arg) inner.optional
      | "or", [] => .of (inner.text ++ " | unknown") inner.optional
      | "and", arg :: _ => .of (inner.text ++ " & " ++ argText mode arg) inner.optional
      | "and", [] => .of (inner.text ++ " & unknown") inner.optional
      | _, _ => .of inner.text inner.optional
  | ref _ => .plain "unknown"
  | unknown => .plain "unknown"

/-- The fields of an object schema in `mode`, in order; none if it is no object schema. -/
def fields? (mode : SchemaMode) : Schema → Option (List SchemaField)
  | builder name args => if objectBuilders.contains name then propertiesOf mode args else none
  | method receiver name args =>
    (fields? mode receiver).bind (reshape name (patch mode args))
  | ref _ => none
  | unknown => none

/-- The fields that the arguments of an object builder declare. -/
def propertiesOf (mode : SchemaMode) : List SchemaArg → Option (List SchemaField)
  | [] => some []
  | .object entries :: _ => some (entryFields mode entries)
  | _ :: _ => none

/-- What the arguments of an object helper give it. -/
def patch (mode : SchemaMode) : List SchemaArg → Patch
  | [] => .absent
  | .object entries :: _ => .entries (entryFields mode entries)
  | .schema s :: _ => .fields (fields? mode s)
  | _ :: _ => .other

/-- The fields that the properties of an object argument declare. -/
def entryFields (mode : SchemaMode) : List SchemaEntry → List SchemaField
  | [] => []
  | ⟨key, value⟩ :: rest => ⟨key, shape mode value⟩ :: entryFields mode rest

/-- The type text of an argument. -/
def argText (mode : SchemaMode) : SchemaArg → String
  | .schema s => (shape mode s).text
  | .literal text => text
  | _ => "unknown"

/-- The type texts of arguments. -/
def argTexts (mode : SchemaMode) : List SchemaArg → List String
  | [] => []
  | arg :: rest => argText mode arg :: argTexts mode rest

end

end Schema

end IpcWiring
