import IpcWiring.Text.Basic

/-!
# Paths

A path is its written form. What it denotes is its list of components: repeated separators, a
trailing separator and inner `.` components do not count, so two spellings of one component list
are equal paths. `Path.normalize` resolves `.` and `..` without looking at any file, and the
remaining operations cut a written form between components and never respell what they keep.
-/

namespace IpcWiring

/-- A path as it is written, with `/` between its components. -/
structure Path where
  text : String
deriving Repr, Inhabited

/-- One step of a path: the root, a leading `.`, a `..`, or an entry of that name. -/
inductive Component where
  | root
  | here
  | up
  | name (s : String)
deriving DecidableEq, Repr

namespace Component

/-- How the component is written. -/
def text : Component → String
  | root => "/"
  | here => "."
  | up => ".."
  | name s => s

/-- The kinds of component in ascending order. -/
def rank : Component → Nat
  | root => 0
  | here => 1
  | up => 2
  | name _ => 3

/-- Components compare by kind, names among themselves by code point. -/
def cmp : Component → Component → Ordering
  | name s, name t => compare s t
  | a, b => compare a.rank b.rank

/-- The component that a piece between separators stands for, if any; only the first piece of a
path can be the root or a `.` that counts. -/
def ofSegment? (isFirst rooted : Bool) (s : String) : Option Component :=
  if s = "" then (if isFirst && rooted then some .root else none)
  else if s = "." then (if isFirst then some .here else none)
  else if s = ".." then some .up
  else some (.name s)

/-- Component lists compare like words. -/
def cmpList : List Component → List Component → Ordering
  | [], [] => .eq
  | [], _ :: _ => .lt
  | _ :: _, [] => .gt
  | a :: as, b :: bs => (a.cmp b).then (cmpList as bs)

end Component

namespace Path

/-! ## Components -/

/-- The path starts at the root. -/
def isAbsolute (p : Path) : Bool := p.text.toList.head? == some '/'

/-- The pieces between separators, each with the component it stands for. -/
def segments (p : Path) : List (String × Option Component) :=
  match Text.splitOn '/' p.text with
  | [] => []
  | first :: rest =>
    (first, Component.ofSegment? true p.isAbsolute first) ::
      rest.map fun s => (s, Component.ofSegment? false p.isAbsolute s)

/-- What the path denotes, step by step. -/
def components (p : Path) : List Component := p.segments.filterMap (·.2)

/-- Paths are equal when they denote the same steps. -/
instance : BEq Path := ⟨fun p q => p.components == q.components⟩

/-- Paths count as the same if their components are. -/
theorem beq_iff {p q : Path} : (p == q) = true ↔ p.components = q.components :=
  beq_iff_eq (a := p.components) (b := q.components)

/-- Comparing two paths decides whether their components are the same. -/
theorem beq_eq_decide (p q : Path) : (p == q) = decide (p.components = q.components) := by
  rw [Bool.eq_iff_iff, beq_iff, decide_eq_true_iff]

/-- Paths compare by their components. -/
def cmp (p q : Path) : Ordering := Component.cmpList p.components q.components

/-- `p` does not come after `q`. -/
def le (p q : Path) : Bool := p.cmp q != .gt

/-- The components of `dir` start those of `p`: `p` is `dir` or lies below it. -/
def isWithin (dir p : Path) : Bool := dir.components.isPrefixOf p.components

/-! ## Cutting the written form -/

/-- Drops pieces that stand for no component from the end. -/
def trimSegments (segs : List (String × Option Component)) : List (String × Option Component) :=
  (segs.reverse.dropWhile (·.2.isNone)).reverse

/-- Writes pieces as a path; a lone root piece is written `/`. -/
def ofSegments (segs : List (String × Option Component)) : Path :=
  match segs with
  | [(_, some .root)] => ⟨"/"⟩
  | _ => ⟨Text.joinWith "/" (segs.map (·.1))⟩

/-- The path without its last component; the root and the empty path have no parent. -/
def parent? (p : Path) : Option Path :=
  match p.segments.reverse.dropWhile (·.2.isNone) with
  | [] => none
  | (_, some .root) :: _ => none
  | _ :: before => some (ofSegments (trimSegments before.reverse))

/-- The pieces after the first `n` components. -/
def dropComponents : Nat → List (String × Option Component) → List (String × Option Component)
  | 0, segs => segs
  | _, [] => []
  | n + 1, (_, none) :: rest => dropComponents (n + 1) rest
  | n + 1, (_, some _) :: rest => dropComponents n rest

/-- What is left of `p` after the components of `dir`, if `p` lies within it. -/
def relativeTo? (dir p : Path) : Option Path :=
  if dir.isWithin p then
    let n := dir.components.length
    let rest := dropComponents n p.segments
    let rest := if n = 0 then rest else rest.dropWhile (·.2.isNone)
    some (ofSegments (trimSegments rest))
  else none

/-- The last component, if it is a name. -/
def fileName? (p : Path) : Option String :=
  match p.components.getLast? with
  | some (.name s) => some s
  | _ => none

/-- A file name cut at its last dot; a name with no dot but a leading one has no extension. -/
def splitFileName (name : String) : String × Option String :=
  match Text.splitAtLast? '.' name with
  | none => (name, none)
  | some ("", _) => (name, none)
  | some (stem, ext) => (stem, some ext)

/-- The file name up to its last dot. -/
def fileStem? (p : Path) : Option String := p.fileName?.map fun n => (splitFileName n).1

/-- The file name after its last dot. -/
def extension? (p : Path) : Option String := p.fileName?.bind fun n => (splitFileName n).2

/-! ## Building -/

/-- `q` seen from `p`: an absolute `q` stands for itself. -/
def join (p q : Path) : Path :=
  if q.isAbsolute then q
  else if p.text = "" || Text.endsWith "/" p.text then ⟨p.text ++ q.text⟩
  else ⟨p.text ++ "/" ++ q.text⟩

/-- Writes components with single separators. -/
def ofComponents : List Component → Path
  | .root :: rest => ⟨"/" ++ Text.joinWith "/" (rest.map Component.text)⟩
  | cs => ⟨Text.joinWith "/" (cs.map Component.text)⟩

/-- One step of normalizing, on the components kept so far, last first. A `..` takes the last one
back, whatever it is, and is itself kept at the root or where nothing was kept. -/
def normalizeStep (kept : List Component) : Component → List Component
  | .here => kept
  | .up =>
    match kept with
    | [] => [.up]
    | .root :: _ => .up :: kept
    | _ :: before => before
  | c => c :: kept

/-- The components left when `.` and `..` are resolved. -/
def normalComponents (cs : List Component) : List Component :=
  (cs.foldl normalizeStep []).reverse

/-- Resolves `.` and `..` without touching any file. -/
def normalize (p : Path) : Path := ofComponents (normalComponents p.components)

/-- Writes another extension in place of the last one. -/
def withExtension (p : Path) (ext : String) : Path :=
  match p.fileStem?, p.parent? with
  | some stem, some dir => dir.join ⟨stem ++ "." ++ ext⟩
  | _, _ => p

end Path

end IpcWiring
