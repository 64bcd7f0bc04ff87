import IpcWiring.Program.Resolve

/-!
# Schema constants

A schema constant is found through imports and exports like a type. `Program.inlineSchema` puts the
definitions of other constants in the place of their names; every constant, receiver, argument and
property that it enters takes one of a number of steps, and there is nothing to see behind the last.
-/

namespace IpcWiring

/-- A schema with the file that declares it. -/
structure FoundSchema where
  file : Path
  schema : Schema

namespace Program

variable (p : Program)

/-- The first re-export of a file that leads to a schema of that name. -/
def schemaViaReExports (exported : Path → String → Option FoundSchema) (file : Path)
    (name : String) (reexports : List ReExport) : Option FoundSchema :=
  reexports.findSome? fun
    | .named as imported specifier =>
      if as == name then (p.targetOf file specifier).bind (exported · imported) else none
    | .all specifier => (p.targetOf file specifier).bind (exported · name)
    | .wholeModule .. => none

mutual

/-- The schema that a name stands for inside a file. -/
def schemaLocal (steps : Nat) (file : Path) (name : String) : Option FoundSchema :=
  match steps with
  | 0 => none
  | n + 1 => do
    let m ← p.module? file
    if let some s := m.schemas.find? name then return ⟨m.path, s⟩
    let binding ← m.imports.find? name
    let imported ← importedName? binding.kind
    let target ← p.targetOf file binding.specifier
    schemaExport n target imported

/-- The schema that a file exports under a name. -/
def schemaExport (steps : Nat) (file : Path) (name : String) : Option FoundSchema :=
  match steps with
  | 0 => none
  | n + 1 => do
    let m ← p.module? file
    match m.exports.find? name with
    | some inner => schemaLocal n file inner
    | none => p.schemaViaReExports (schemaExport n) file name m.reexports

end

/-! ## Inlining -/

/-- One step less on something smaller comes first. -/
theorem lex_pred {steps size bound : Nat} (h : size < bound) :
    Prod.Lex (· < ·) (· < ·) (steps - 1, size) (steps, bound) := by
  cases steps with
  | zero => exact Prod.Lex.right _ h
  | succ n => exact Prod.Lex.left _ _ (Nat.lt_succ_self n)

mutual

/-- The schema with the constants that it names replaced by their definitions. -/
def inlineSchema (steps : Nat) (file : Path) (s : Schema) : Schema :=
  match steps, s with
  | 0, _ => .unknown
  | n + 1, .ref name =>
    match p.schemaLocal maxSteps file name with
    | some found => inlineSchema n found.file found.schema
    | none => .ref name
  | n + 1, .builder name args => .builder name (inlineArgs (n + 1) file args)
  | n + 1, .method receiver name args =>
    .method (inlineSchema n file receiver) name (inlineArgs (n + 1) file args)
  | _ + 1, .unknown => .unknown
termination_by (steps, sizeOf s)

/-- Arguments with the constants in them replaced. -/
def inlineArgs (steps : Nat) (file : Path) (args : List SchemaArg) : List SchemaArg :=
  match args with
  | [] => []
  | .schema s :: rest =>
    .schema (inlineSchema (steps - 1) file s) :: inlineArgs steps file rest
  | .object entries :: rest =>
    .object (inlineEntries (steps - 1) file entries) :: inlineArgs steps file rest
  | .array items :: rest =>
    .array (inlineArgs (steps - 1) file items) :: inlineArgs steps file rest
  | arg :: rest => arg :: inlineArgs steps file rest
termination_by (steps, sizeOf args)
decreasing_by
  · exact lex_pred (by simp only [List.cons.sizeOf_spec, SchemaArg.schema.sizeOf_spec]; omega)
  · exact Prod.Lex.right _ (by simp only [List.cons.sizeOf_spec]; omega)
  · exact lex_pred (by simp only [List.cons.sizeOf_spec, SchemaArg.object.sizeOf_spec]; omega)
  · exact Prod.Lex.right _ (by simp only [List.cons.sizeOf_spec]; omega)
  · exact lex_pred (by simp only [List.cons.sizeOf_spec, SchemaArg.array.sizeOf_spec]; omega)
  · exact Prod.Lex.right _ (by simp only [List.cons.sizeOf_spec]; omega)
  · exact Prod.Lex.right _ (by simp only [List.cons.sizeOf_spec]; omega)

/-- Properties with the constants in them replaced. -/
def inlineEntries (steps : Nat) (file : Path) (entries : List SchemaEntry) : List SchemaEntry :=
  match entries with
  | [] => []
  | ⟨key, value⟩ :: rest =>
    ⟨key, inlineSchema steps file value⟩ :: inlineEntries steps file rest
termination_by (steps, sizeOf entries)

end

end Program

end IpcWiring
