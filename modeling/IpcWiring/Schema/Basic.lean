/-!
# Schema expressions

The builder calls that declare a runtime schema, such as `z.object({ id: z.string() }).partial()`:
a builder of the schema library, then methods on it. A `Schema` keeps the names and arguments of
the calls and nothing else.
-/

namespace IpcWiring

mutual

/-- A schema expression. -/
inductive Schema where
  /-- `z.name(args)` -/
  | builder (name : String) (args : List SchemaArg)
  /-- `receiver.name(args)` -/
  | method (receiver : Schema) (name : String) (args : List SchemaArg)
  /-- Another schema constant, by its local name. -/
  | ref (name : String)
  | unknown

/-- An argument of a builder or method. -/
inductive SchemaArg where
  | schema (s : Schema)
  | object (entries : List SchemaEntry)
  | array (items : List SchemaArg)
  /-- A literal as it is written, such as `'admin'` or `42`. -/
  | literal (text : String)
  | other

/-- A property of an object argument. -/
structure SchemaEntry where
  key : String
  value : Schema

end

instance : Inhabited Schema := ⟨.unknown⟩

instance : Inhabited SchemaArg := ⟨.other⟩

/-- The schema that an argument is, if it is one. -/
def SchemaArg.schema? : SchemaArg → Option Schema
  | .schema s => some s
  | _ => none

/-- Which side of a schema that transforms its input is described. -/
inductive SchemaMode where
  | input
  | output
deriving DecidableEq, Repr

namespace Schema

/-- The chain of methods starts at a builder, or at a name that `isSchema` knows. -/
def isRooted (isSchema : String → Bool) : Schema → Bool
  | builder .. => true
  | method receiver .. => receiver.isRooted isSchema
  | ref name => isSchema name
  | unknown => false

end Schema

end IpcWiring
