import IpcWiring.Toml.Value

/-!
# Tables in the making

A document names its tables piece by piece. A draft remembers how each table came to be, because
that decides whether a later header or key may still add to it.
-/

namespace IpcWiring.Toml

/-- How a table came to be. -/
inductive Origin where
  /-- By a header of its own. -/
  | declared
  /-- By the header of a table below it. -/
  | implied
  /-- By a key with dots. -/
  | dotted
deriving DecidableEq, Repr

/-- What a key of a table in the making stands for. -/
inductive Draft where
  /-- A value, to which nothing can be added. -/
  | value (v : Value)
  | table (origin : Origin) (entries : List (String × Draft))
  /-- A list of tables with a header each, the last one first. -/
  | tables (items : List (List (String × Draft)))

namespace Draft

/-- The entries of a table in the making. -/
abbrev Drafts := List (String × Draft)

/-- What a key stands for. -/
def lookup? (key : String) (es : Drafts) : Option Draft := (es.find? (·.1 == key)).map (·.2)

/-- Puts a draft in the place of that of a key, or behind all others. -/
def put (key : String) (d : Draft) (es : Drafts) : Drafts :=
  if es.any (·.1 == key) then es.map fun e => if e.1 == key then (key, d) else e
  else es ++ [(key, d)]

/-- Changes the table that a path leads to. The tables on the way are made if they are missing; the
way goes through the last table of a list, and through no value. A way along the dots of a key does
not go through tables that have a header. -/
def change (viaDots : Bool) (f : Origin → Drafts → Option Drafts) :
    List String → Origin → Drafts → Option Drafts
  | [], origin, es => f origin es
  | key :: path, _, es =>
    match lookup? key es with
    | none =>
      let origin := if viaDots then Origin.dotted else .implied
      (change viaDots f path origin []).map fun inner => put key (.table origin inner) es
    | some (.table origin inner) =>
      if viaDots && origin = .declared then none
      else (change viaDots f path origin inner).map fun inner => put key (.table origin inner) es
    | some (.tables (last :: before)) =>
      (change viaDots f path .declared last).map fun last => put key (.tables (last :: before)) es
    | some _ => none

/-- Opens a table by its header. Only a table that headers below it imply can be there already. -/
def declare (path : List String) (key : String) (es : Drafts) : Option Drafts :=
  change false (fun _ es =>
    match lookup? key es with
    | none => some (put key (.table .declared []) es)
    | some (.table .implied inner) => some (put key (.table .declared inner) es)
    | some _ => none) path .declared es

/-- Opens one more table of a list by its header. -/
def declareItem (path : List String) (key : String) (es : Drafts) : Option Drafts :=
  change false (fun _ es =>
    match lookup? key es with
    | none => some (put key (.tables [[]]) es)
    | some (.tables items) => some (put key (.tables ([] :: items)) es)
    | some _ => none) path .declared es

/-- Adds a value under a new key; the dots of its path lead only to tables that other dots made. -/
def addValue (path : List String) (key : String) (v : Value) (es : Drafts) : Option Drafts :=
  change true (fun origin es =>
    if !path.isEmpty && origin != .dotted || (lookup? key es).isSome then none
    else some (put key (.value v) es)) path .declared es

/-- Adds a value to the table under a header. -/
def addValueUnder (header path : List String) (key : String) (v : Value) (es : Drafts) :
    Option Drafts :=
  change false (fun _ es => addValue path key v es) header .declared es

mutual

/-- The value that is made. -/
def finish : Draft → Value
  | .value v => v
  | .table _ es => .table (finishAll es)
  | .tables items => .array (finishItems items)

/-- The values of a table's entries. -/
def finishAll : Drafts → Entries
  | [] => []
  | (key, d) :: rest => (key, finish d) :: finishAll rest

/-- The values of the tables of a list, the last one first. -/
def finishItems : List Drafts → List Value
  | [] => []
  | es :: before => finishItems before ++ [.table (finishAll es)]

end

end Draft

end IpcWiring.Toml
