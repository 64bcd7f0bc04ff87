import IpcWiring.Path

/-!
# Module specifiers

How the text after `from` names a file, and how a file is named from another directory. A relative
specifier stands for the first of its `candidates` that exists; `relative` writes a specifier that
leads from a directory to a file.
-/

namespace IpcWiring.Specifier

/-- The specifier is relative to the importing file. -/
def isRelative (specifier : String) : Bool :=
  specifier == "." || specifier == ".." ||
    Text.startsWith "./" specifier || Text.startsWith "../" specifier

/-- Extensions of the files that can declare functions and events. -/
def sourceExtensions : List String := ["ts", "tsx", "mts", "cts"]

/-- The path ends in a source extension. -/
def hasSourceExtension (p : Path) : Bool :=
  match p.extension? with
  | some ext => sourceExtensions.contains ext
  | none => false

/-- A source file: a source extension, and not a declaration file. -/
def isSourceFile (p : Path) : Bool :=
  match p.fileName? with
  | none => false
  | some name =>
    !([".d.ts", ".d.mts", ".d.cts"].any fun ending => Text.endsWith ending name) &&
      hasSourceExtension p

/-- The path that a relative specifier points at, whether it exists or not. -/
def target (fromFile : Path) (specifier : String) : Path :=
  ((fromFile.parent?.getD ⟨""⟩).join ⟨specifier⟩).normalize

/-- Extensions tried, in order, behind a specifier. -/
def appendedExtensions : List String := ["ts", "tsx", "d.ts", "mts", "cts"]

/-- Extensions that take the place of a script extension. -/
def rewrittenExtensions (p : Path) : List String :=
  match p.extension? with
  | some "js" => ["ts", "tsx"]
  | some "jsx" => ["tsx"]
  | some "mjs" => ["mts"]
  | some "cjs" => ["cts"]
  | _ => []

/-- The files that `base` can stand for, in order of preference: itself if it is spelled as a
source file, then with an extension behind it, with its script extension replaced, and as a
directory with an index file. -/
def candidates (base : Path) : List Path :=
  (if hasSourceExtension base then [base] else []) ++
    appendedExtensions.map (fun ext => ⟨base.text ++ "." ++ ext⟩) ++
    (rewrittenExtensions base).map base.withExtension ++
    ["index.ts", "index.tsx"].map (fun name => base.join ⟨name⟩)

/-- The file that a specifier names, where `isFile` tells which files there are; a specifier that
is not relative names none. -/
def resolve (isFile : Path → Bool) (fromFile : Path) (specifier : String) : Option Path :=
  if isRelative specifier then (candidates (target fromFile specifier)).find? isFile else none

/-- Endings that a specifier leaves out, the first that fits. -/
def droppedEndings : List String := [".d.ts", ".ts", ".tsx", ".mts", ".cts"]

/-- A file name without its source extension. -/
def stripExtension (name : String) : String :=
  (droppedEndings.findSome? fun ending => Text.dropEnding? ending name).getD name

/-- How many components two lists share at their start. -/
def sharedLength : List Component → List Component → Nat
  | a :: as, b :: bs => if a = b then sharedLength as bs + 1 else 0
  | _, _ => 0

/-- Applies `f` to the last entry. -/
def mapLast (f : String → String) : List String → List String
  | [] => []
  | [s] => [f s]
  | s :: rest => s :: mapLast f rest

/-- The specifier of `file` in a module that stands in `fromDir`: steps up, then steps down, with
`./` in front unless it starts with a dot. -/
def relative (fromDir file : Path) : String :=
  let start := fromDir.normalize.components
  let goal := file.normalize.components
  let shared := sharedLength start goal
  let steps := List.replicate (start.length - shared) ".." ++
    (goal.drop shared).map Component.text
  let joined := Text.joinWith "/" (mapLast stripExtension steps)
  if Text.startsWith "." joined then joined else "./" ++ joined

end IpcWiring.Specifier
