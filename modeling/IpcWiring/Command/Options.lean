import IpcWiring.Text.Basic

/-!
# Options on a command line

Arguments in front of the first plain one are options: long ones behind two dashes, short ones
behind one, where several can share the dash. A value follows its option as an argument of its own,
behind an equals sign, or right behind a short option.
-/

namespace IpcWiring.Command

/-- What an option takes. -/
inductive OptionKind where
  /-- Nothing, and it is given once at most. -/
  | flag
  /-- Nothing, and it can be given again. -/
  | counter
  /-- A value. -/
  | text
  /-- A value that is not empty. -/
  | path
deriving DecidableEq, Repr

/-- An option that a command knows. -/
structure OptionSpec where
  long : String
  short? : Option Char
  kind : OptionKind
deriving Repr

/-- An option that was given, with its value. -/
structure OptionUse where
  long : String
  value : String
deriving Repr

namespace OptionSpec

/-- The option takes a value. -/
def takesValue (o : OptionSpec) : Bool := o.kind = .text || o.kind = .path

/-- The use of the option with a value, if it can have that. -/
def useWith? (o : OptionSpec) (value : String) : Option OptionUse :=
  if o.takesValue && !(o.kind = .path && value.isEmpty) then some ⟨o.long, value⟩ else none

end OptionSpec

/-- What an argument says: the options it uses, and the one that still lacks its value. -/
structure ArgumentReading where
  uses : List OptionUse
  waiting? : Option OptionSpec

/-- Reads an argument behind two dashes. -/
def readLong? (specs : List OptionSpec) (body : List Char) : Option ArgumentReading := do
  let name := body.takeWhile (· != '=')
  let spec ← specs.find? (·.long == String.ofList name)
  match body.drop name.length with
  | _ :: value => return ⟨[← spec.useWith? (String.ofList value)], none⟩
  | [] => if spec.takesValue then some ⟨[], some spec⟩ else some ⟨[⟨spec.long, ""⟩], none⟩

/-- Reads an argument behind one dash. -/
def readShort? (specs : List OptionSpec) : List Char → Option ArgumentReading
  | [] => some ⟨[], none⟩
  | c :: rest => do
    let spec ← specs.find? (·.short? == some c)
    if spec.takesValue then
      match rest with
      | [] => some ⟨[], some spec⟩
      | '=' :: value => return ⟨[← spec.useWith? (String.ofList value)], none⟩
      | value => return ⟨[← spec.useWith? (String.ofList value)], none⟩
    else do
      let more ← readShort? specs rest
      return { more with uses := ⟨spec.long, ""⟩ :: more.uses }

/-- An argument that can be no value: a dash with something behind it. -/
def isDashed (argument : String) : Bool :=
  Text.startsWith "-" argument && argument != "-"

/-- Reads an argument that is dashed. -/
def readDashed? (specs : List OptionSpec) (argument : String) : Option ArgumentReading :=
  match argument.toList with
  | '-' :: '-' :: body => readLong? specs body
  | body => readShort? specs (body.drop 1)

/-- Puts the uses of an option in front of those behind it. -/
def addUses (uses : List OptionUse) :
    List OptionUse × Option (List String) → List OptionUse × Option (List String)
  | (more, plain?) => (uses ++ more, plain?)

/-- Reads the options in front of the first plain argument, and gives the arguments from there on.
Two dashes alone end the options; `none` stands for a plain argument that they make so. -/
def readOptions? (specs : List OptionSpec) :
    List String → Option (List OptionUse × Option (List String))
  | [] => some ([], some [])
  | argument :: rest =>
    if argument == "--" then some ([], if rest.isEmpty then some [] else none)
    else if !isDashed argument then some ([], some (argument :: rest))
    else match readDashed? specs argument with
      | none => none
      | some ⟨uses, none⟩ => (readOptions? specs rest).map (addUses uses)
      | some ⟨uses, some spec⟩ =>
        match rest with
        | [] => none
        | value :: rest =>
          if isDashed value then none
          else match spec.useWith? value with
            | some use => (readOptions? specs rest).map (addUses (uses ++ [use]))
            | none => none

namespace OptionUse

/-- The value of an option, if it was given. -/
def value? (uses : List OptionUse) (long : String) : Option String :=
  (uses.find? (·.long == long)).map (·.value)

/-- An option was given. -/
def isGiven (uses : List OptionUse) (long : String) : Bool := uses.any (·.long == long)

/-- No option but a counter is given twice. -/
def areSingle (specs : List OptionSpec) (uses : List OptionUse) : Bool :=
  specs.all fun o => o.kind = .counter || uses.countP (·.long == o.long) ≤ 1

end OptionUse

end IpcWiring.Command
