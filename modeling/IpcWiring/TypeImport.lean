import IpcWiring.Distinct
import IpcWiring.Path

/-!
# Type imports

The imports that a type text needs where it is pasted: a name, or a whole module under a local
name.
-/

namespace IpcWiring

/-- Where a type can be imported from: a source file, or a module by its specifier. -/
inductive TypeSource where
  | file (path : Path)
  | module (specifier : String)
deriving Repr, Inhabited

namespace TypeSource

/-- Files compare as paths. -/
def beq : TypeSource → TypeSource → Bool
  | file p, file q => p == q
  | module s, module t => s == t
  | _, _ => false

instance : BEq TypeSource := ⟨beq⟩

end TypeSource

/-- A type-only import. -/
structure TypeImport where
  /-- The name that the module exports. -/
  imported : String
  /-- The name that stands for it in the text. -/
  localName : String
  source : TypeSource
  /-- The whole module is imported under the local name. -/
  wholeModule : Bool
deriving BEq, Repr, Inhabited

namespace TypeImport

/-- The import of a name as itself. -/
def named (name : String) (source : TypeSource) : TypeImport := ⟨name, name, source, false⟩

/-- The import of a whole module. -/
def whole (name : String) (source : TypeSource) : TypeImport := ⟨name, name, source, true⟩

end TypeImport

end IpcWiring
