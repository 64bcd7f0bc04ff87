import IpcWiring.Specifier
import IpcWiring.Text.Braces
import IpcWiring.TypeImport

/-!
# Import blocks

The imports of a generated module, built from requests one after another. A local name is bound
once, by the first request for it; a later one for the same export can only make it a value. There
is one line for the named imports of each module, in the order of their first names.
-/

namespace IpcWiring.Emit

/-! ## Requests -/

/-- A wish for a local name in a generated module. -/
structure ImportRequest where
  specifier : String
  /-- The exported name, or none for the whole module. -/
  imported? : Option String
  localName : String
  /-- The name is needed when the code runs. -/
  isValue : Bool
deriving DecidableEq, Repr

namespace ImportRequest

/-- A value of a module. -/
def moduleValue (specifier name : String) : ImportRequest := ⟨specifier, some name, name, true⟩

/-- A type of a module. -/
def moduleType (specifier name : String) : ImportRequest := ⟨specifier, some name, name, false⟩

/-- A value of a file, seen from a directory. -/
def fileValue (fromDir file : Path) (name : String) : ImportRequest :=
  ⟨Specifier.relative fromDir file, some name, name, true⟩

/-- A type of a file, seen from a directory. -/
def fileType (fromDir file : Path) (name : String) : ImportRequest :=
  ⟨Specifier.relative fromDir file, some name, name, false⟩

/-- An import of a type text, seen from a directory. -/
def ofType (fromDir : Path) (i : TypeImport) : ImportRequest :=
  let specifier := match i.source with
    | .file path => Specifier.relative fromDir path
    | .module specifier => specifier
  ⟨specifier, if i.wholeModule then none else some i.imported, i.localName, false⟩

end ImportRequest

/-! ## Blocks -/

/-- A name in an import line. -/
structure ImportedName where
  imported : String
  localName : String
  isValue : Bool
deriving DecidableEq, Repr

/-- A line of an import block. -/
inductive ImportLine where
  /-- A whole module under a local name. -/
  | whole (specifier localName : String)
  /-- Names of a module. -/
  | names (specifier : String) (names : List ImportedName)
deriving DecidableEq, Repr

/-- What a local name stands for: an export of a module, or the whole of it. -/
structure ImportOrigin where
  specifier : String
  imported? : Option String
deriving DecidableEq, Repr

namespace ImportLine

/-- What the line binds a local name to. -/
def originOf? (localName : String) : ImportLine → Option ImportOrigin
  | whole specifier name => if name = localName then some ⟨specifier, none⟩ else none
  | names specifier ns =>
    (ns.find? (·.localName = localName)).map fun n => ⟨specifier, some n.imported⟩

/-- The line imports names of the module. -/
def isNamesOf (specifier : String) : ImportLine → Bool
  | whole .. => false
  | names s _ => s = specifier

/-- Adds a name to the line, if it has names. -/
def addName (n : ImportedName) : ImportLine → ImportLine
  | names s ns => names s (ns ++ [n])
  | line => line

/-- Makes a local name of the line a value. -/
def upgrade (localName : String) : ImportLine → ImportLine
  | names s ns =>
    names s (ns.map fun n => if n.localName = localName then { n with isValue := true } else n)
  | line => line

end ImportLine

/-- The import lines of a generated module. -/
structure ImportBlock where
  lines : List ImportLine
deriving DecidableEq, Repr

namespace ImportBlock

/-- The block without imports. -/
def empty : ImportBlock := ⟨[]⟩

/-- No name was added. -/
def isEmpty (b : ImportBlock) : Bool := b.lines.isEmpty

/-- What a local name is bound to. -/
def originOf? (b : ImportBlock) (localName : String) : Option ImportOrigin :=
  b.lines.findSome? (·.originOf? localName)

/-- Adds a name to the line of its module, or a new line to the lines. -/
def insertName (specifier : String) (n : ImportedName) : List ImportLine → List ImportLine
  | [] => [.names specifier [n]]
  | line :: rest =>
    if line.isNamesOf specifier then line.addName n :: rest
    else line :: insertName specifier n rest

/-- Adds a local name that is not bound yet. -/
def bind (b : ImportBlock) (r : ImportRequest) : ImportBlock :=
  match r.imported? with
  | none => ⟨b.lines ++ [.whole r.specifier r.localName]⟩
  | some imported => ⟨insertName r.specifier ⟨imported, r.localName, r.isValue⟩ b.lines⟩

/-- Makes a local name of a module a value. -/
def upgrade (b : ImportBlock) (specifier localName : String) : ImportBlock :=
  ⟨b.lines.map fun line => if line.isNamesOf specifier then line.upgrade localName else line⟩

/-- Grants a request if its local name is free. If the name already stands for what is asked for,
it can become a value; otherwise the request is dropped. -/
def add (b : ImportBlock) (r : ImportRequest) : ImportBlock :=
  match b.originOf? r.localName with
  | none => b.bind r
  | some origin =>
    if origin = ⟨r.specifier, r.imported?⟩ && r.isValue then b.upgrade r.specifier r.localName
    else b

/-- The block that grants requests one after another. -/
def ofRequests (requests : List ImportRequest) : ImportBlock := requests.foldl add empty

end ImportBlock

/-! ## Text -/

namespace ImportedName

/-- The name in a line that says what kind of names it has. -/
def text (n : ImportedName) : String :=
  if n.imported = n.localName then n.localName else n.imported ++ " as " ++ n.localName

/-- The name in a line of types and values. -/
def markedText (n : ImportedName) : String :=
  if n.isValue then n.text else "type " ++ n.text

end ImportedName

/-- The line as it is written. -/
def ImportLine.text : ImportLine → String
  | whole specifier name => "import type * as " ++ name ++ " from '" ++ specifier ++ "';"
  | names specifier ns =>
    let (head, items) := if ns.any (·.isValue) then ("import \x7b", ns.map ImportedName.markedText)
      else ("import type \x7b", ns.map ImportedName.text)
    head ++ " " ++ Text.joinWith ", " items ++ " \x7d from '" ++ specifier ++ "';"

/-- The lines with an empty one behind them, if there are any. -/
def ImportBlock.text (b : ImportBlock) : String :=
  if b.isEmpty then "" else Text.unlines (b.lines.map ImportLine.text ++ [""])

end IpcWiring.Emit
