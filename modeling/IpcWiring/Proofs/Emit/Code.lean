import IpcWiring.Emit.Name

/-!
# Code with its names marked

Generated code as lines and blocks in which every name is marked by the part that it plays
(`Piece`): whether the code declares it, takes it as a parameter, uses it as a variable, or expects
to find it at the top level of its module. `Code.linesOf` gives the lines as they are written, and
`Code.outerUsesOf` tells for each name that is expected at the top level which names the code binds
around it. A name is visible in the function that it is a parameter of, and in all of the block that
declares it, also before its declaration.
-/

namespace IpcWiring.Emit

/-! ## Pieces of a line -/

/-- The part that a name plays in code. -/
inductive Role where
  /-- A use of a name that is imported, or declared at the top level of the module. -/
  | outer
  /-- A use of a variable that the code binds around it. -/
  | var
  /-- A declaration in the block that the line stands in. -/
  | declare
  /-- A parameter of the function whose head this is. -/
  | param
  /-- The key of an entry in a table, or the name of a method in a type. -/
  | entry
  /-- A key that is looked up in a table of another module. -/
  | lookup
  /-- A channel, in quotes. -/
  | channel
deriving DecidableEq, Repr

/-- A piece of a line of code. -/
inductive Piece where
  /-- Text without names that matter for scopes. -/
  | text (s : String)
  | name (role : Role) (name : String)
  /-- A member of a variable. -/
  | member (x key : String)
deriving DecidableEq, Repr

namespace Piece

/-- The piece as it is written. -/
def written : Piece → String
  | text s => s
  | name .channel n => "'" ++ n ++ "'"
  | name _ n => n
  | member x key => memberOf x key

/-- The pieces as they are written, one behind another. -/
def line : List Piece → String
  | [] => ""
  | p :: ps => p.written ++ line ps

/-- Groups of pieces with a text between neighbours. -/
def separated (sep : String) : List (List Piece) → List Piece
  | [] => []
  | [ps] => ps
  | ps :: qs :: rest => ps ++ .text sep :: separated sep (qs :: rest)

/-- The name of a piece, if that plays a certain part. -/
def nameAs? (role : Role) : Piece → Option String
  | name r n => if r = role then some n else none
  | _ => none

/-- The names among the pieces that play a certain part, in order. -/
def names (role : Role) (ps : List Piece) : List String := ps.filterMap (nameAs? role)

/-- The member of a variable that the piece reads, if it does. -/
def memberOf? (x : String) : Piece → Option String
  | member y key => if y = x then some key else none
  | _ => none

/-- The members of a variable that the pieces read, in order. -/
def members (x : String) (ps : List Piece) : List String := ps.filterMap (memberOf? x)

@[simp]
theorem line_nil : line [] = "" := rfl

@[simp]
theorem line_cons (p : Piece) (ps : List Piece) : line (p :: ps) = p.written ++ line ps := rfl

@[simp]
theorem line_append (ps qs : List Piece) : line (ps ++ qs) = line ps ++ line qs := by
  induction ps with
  | nil => simp
  | cons p ps ih => simp [ih, String.append_assoc]

/-- Groups with a text between neighbours are written with it between neighbours. -/
theorem line_separated (sep : String) : ∀ groups : List (List Piece),
    line (separated sep groups) = Text.joinWith sep (groups.map line)
  | [] => rfl
  | [ps] => by simp [separated, Text.joinWith]
  | ps :: qs :: rest => by
    rw [separated, line_append, line_cons, line_separated sep (qs :: rest)]
    simp [Text.joinWith, written, String.append_assoc]

/-- A name that is no channel is written as it is. -/
theorem line_name {role : Role} (h : role ≠ .channel) (n : String) :
    line [.name role n] = n := by
  cases role with
  | channel => contradiction
  | _ => simp [written]

/-- Names with a text between neighbours are written so. -/
theorem line_separated_names {role : Role} (h : role ≠ .channel) (sep : String)
    (names : List String) :
    line (separated sep (names.map fun n => [.name role n])) = Text.joinWith sep names := by
  rw [line_separated, List.map_map]
  exact congrArg _ ((List.map_congr_left fun n _ => line_name h n).trans (List.map_id _))

/-- Selecting from separated groups is selecting from each group, if texts are not selected. -/
theorem filterMap_separated {α : Type} {select : Piece → Option α} {sep : String}
    (h : select (.text sep) = none) : ∀ groups : List (List Piece),
    (separated sep groups).filterMap select = groups.flatMap (·.filterMap select)
  | [] => rfl
  | [ps] => by simp [separated]
  | ps :: qs :: rest => by
    rw [separated, List.filterMap_append, List.filterMap_cons_none h,
      filterMap_separated h (qs :: rest)]
    rfl

section
variable {role r : Role} {ps qs : List Piece} {n s x y key : String}

@[simp]
theorem names_nil : names role [] = [] := rfl

@[simp]
theorem names_append : names role (ps ++ qs) = names role ps ++ names role qs :=
  List.filterMap_append

@[simp]
theorem names_text_cons : names role (.text s :: ps) = names role ps := rfl

@[simp]
theorem names_member_cons : names role (.member x key :: ps) = names role ps := rfl

@[simp]
theorem names_name_cons : names role (.name r n :: ps) =
    if r = role then n :: names role ps else names role ps := by
  by_cases h : r = role <;> simp [names, nameAs?, h]

theorem names_separated (groups : List (List Piece)) :
    names role (separated s groups) = groups.flatMap (names role) :=
  filterMap_separated rfl groups

/-- Names with a text between neighbours are all names of the part that they play. -/
@[simp]
theorem names_separated_names (ns : List String) :
    names role (separated s (ns.map fun n => [.name r n])) = if r = role then ns else [] := by
  by_cases h : r = role <;> simp [names_separated, h, List.flatMap_map]

@[simp]
theorem members_nil : members x [] = [] := rfl

@[simp]
theorem members_append : members x (ps ++ qs) = members x ps ++ members x qs :=
  List.filterMap_append

@[simp]
theorem members_text_cons : members x (.text s :: ps) = members x ps := rfl

@[simp]
theorem members_name_cons : members x (.name r n :: ps) = members x ps := rfl

@[simp]
theorem members_member_cons : members x (.member y key :: ps) =
    if y = x then key :: members x ps else members x ps := by
  by_cases h : y = x <;> simp [members, memberOf?, h]

@[simp]
theorem members_separated (groups : List (List Piece)) :
    members x (separated s groups) = groups.flatMap (members x) :=
  filterMap_separated rfl groups

end

end Piece

/-! ## Code -/

/-- Lines of code. -/
inductive Code where
  | line (ps : List Piece)
  /-- A line with a function in it, and what stands before and behind that. -/
  | arrow (before inside after : List Piece)
  /-- Code in braces behind a head. The head can have lines before its last one; its parameters are
  bound in all of it. -/
  | block (opening : List (List Piece)) (head : List Piece) (body : List Code) (ending : String)
  /-- Code that is tried, and code for an error that it throws. -/
  | attempt (body : List Code) (error? : Option String) (recovery : List Code)

namespace Code

/-- A head with code in braces behind it, or with empty braces if there is none. -/
def blockOrEmpty (head : List Piece) (body : List Code) (ending : String) : Code :=
  if body.isEmpty then .line (head ++ [.text (" \x7b\x7d" ++ ending)])
  else .block [] head body ending

/-- How the handling of an error starts. -/
def catchText : Option String → String
  | some error => " catch (" ++ error ++ ") \x7b"
  | none => " catch \x7b"

mutual

/-- The code as it is written, line by line. -/
def lines : Code → List String
  | line ps => [Piece.line ps]
  | arrow before inside after => [Piece.line (before ++ inside ++ after)]
  | block opening head body ending =>
    opening.map Piece.line ++ Text.block (Piece.line head) (linesOf body) ending
  | attempt body error? recovery =>
    Text.block "try" (linesOf body) (catchText error?) ++
      (linesOf recovery).map ("  " ++ ·) ++ ["\x7d"]

/-- Code as it is written, line by line. -/
def linesOf : List Code → List String
  | [] => []
  | c :: cs => c.lines ++ linesOf cs

end

mutual

/-- All pieces of the code in order. -/
def pieces : Code → List Piece
  | line ps => ps
  | arrow before inside after => before ++ inside ++ after
  | block opening head body _ => opening.flatten ++ head ++ piecesOf body
  | attempt body _ recovery => piecesOf body ++ piecesOf recovery

/-- All pieces of code in order. -/
def piecesOf : List Code → List Piece
  | [] => []
  | c :: cs => c.pieces ++ piecesOf cs

end

/-! ## Scopes -/

/-- The names that the code declares in the block that it stands in. -/
def declared : Code → List String
  | line ps => Piece.names .declare ps
  | arrow before _ after => Piece.names .declare (before ++ after)
  | block opening head _ _ => Piece.names .declare (opening.flatten ++ head)
  | attempt .. => []

/-- The names that code declares in the block that it stands in. -/
def declaredOf (cs : List Code) : List String := cs.flatMap declared

/-- A use of a name that is expected at the top level, with the names that the code binds around
it. -/
structure OuterUse where
  name : String
  around : List String
deriving DecidableEq, Repr

/-- A name that the code binds around the use takes the place of the one at the top level. -/
def OuterUse.IsCaptured (u : OuterUse) : Prop := u.name ∈ u.around

instance (u : OuterUse) : Decidable u.IsCaptured := inferInstanceAs (Decidable (u.name ∈ u.around))

/-- The uses of names of the top level in pieces that some names are bound around. -/
def usesIn (around : List String) (ps : List Piece) : List OuterUse :=
  (Piece.names .outer ps).map (⟨·, around⟩)

mutual

/-- The uses of names of the top level in code that some names are bound around. -/
def outerUses (around : List String) : Code → List OuterUse
  | line ps => usesIn around ps
  | arrow before inside after =>
    usesIn around before ++ usesIn (Piece.names .param inside ++ around) inside ++
      usesIn around after
  | block opening head body _ =>
    let inner := Piece.names .param (opening.flatten ++ head) ++ around
    usesIn inner (opening.flatten ++ head) ++ outerUsesOf (declaredOf body ++ inner) body
  | attempt body error? recovery =>
    outerUsesOf (declaredOf body ++ around) body ++
      outerUsesOf (declaredOf recovery ++ (error?.toList ++ around)) recovery

/-- The uses of names of the top level in code that some names are bound around. -/
def outerUsesOf (around : List String) : List Code → List OuterUse
  | [] => []
  | c :: cs => c.outerUses around ++ outerUsesOf around cs

end

/-! ## Lists of code -/

variable {cs ds : List Code} {around : List String}

theorem linesOf_eq : linesOf cs = cs.flatMap lines := by
  induction cs with
  | nil => rfl
  | cons c cs ih => rw [linesOf, ih, List.flatMap_cons]

theorem piecesOf_eq : piecesOf cs = cs.flatMap pieces := by
  induction cs with
  | nil => rfl
  | cons c cs ih => rw [piecesOf, ih, List.flatMap_cons]

theorem outerUsesOf_eq : outerUsesOf around cs = cs.flatMap (outerUses around) := by
  induction cs with
  | nil => rfl
  | cons c cs ih => rw [outerUsesOf, ih, List.flatMap_cons]

theorem outerUsesOf_append :
    outerUsesOf around (cs ++ ds) = outerUsesOf around cs ++ outerUsesOf around ds := by
  simp only [outerUsesOf_eq, List.flatMap_append]

@[simp]
theorem declared_line (ps : List Piece) : (line ps).declared = Piece.names .declare ps := rfl

@[simp]
theorem declared_arrow (before inside after : List Piece) :
    (arrow before inside after).declared = Piece.names .declare (before ++ after) := rfl

@[simp]
theorem declared_block (opening : List (List Piece)) (head : List Piece) (body : List Code)
    (ending : String) : (block opening head body ending).declared =
      Piece.names .declare (opening.flatten ++ head) := rfl

@[simp]
theorem declared_attempt (body : List Code) (error? : Option String) (recovery : List Code) :
    (attempt body error? recovery).declared = [] := rfl

@[simp]
theorem declaredOf_nil : declaredOf [] = [] := rfl

@[simp]
theorem declaredOf_cons (c : Code) : declaredOf (c :: cs) = c.declared ++ declaredOf cs := rfl

@[simp]
theorem declaredOf_append : declaredOf (cs ++ ds) = declaredOf cs ++ declaredOf ds :=
  List.flatMap_append

/-- Code that declares nothing for any thing of a list declares nothing for the list. -/
theorem declaredOf_map_eq_nil {α : Type} {code : α → Code} (h : ∀ x, (code x).declared = [])
    (xs : List α) : declaredOf (xs.map code) = [] := by
  rw [declaredOf, List.flatMap_map, funext h]
  exact List.flatMap_eq_nil_iff.2 fun _ _ => rfl

theorem linesOf_append : linesOf (cs ++ ds) = linesOf cs ++ linesOf ds := by
  simp only [linesOf_eq, List.flatMap_append]

/-- Code for each thing of a list is written as the lines for each. -/
theorem linesOf_map {α : Type} {code : α → Code} {text : α → List String}
    (h : ∀ x, (code x).lines = text x) (xs : List α) :
    linesOf (xs.map code) = xs.flatMap text := by
  rw [linesOf_eq, List.flatMap_map, funext h]

/-- Code of one line for each thing of a list is written as the line for each. -/
theorem linesOf_map_line {α : Type} {code : α → Code} {text : α → String}
    (h : ∀ x, (code x).lines = [text x]) (xs : List α) :
    linesOf (xs.map code) = xs.map text := by
  rw [linesOf_map h, List.map_eq_flatMap]

/-- Every piece of code is written on some line. -/
theorem lines_ne_nil (c : Code) : c.lines ≠ [] := by
  cases c <;> simp [lines, Text.block]

/-- A block that is empty without code is written as such. -/
theorem lines_blockOrEmpty (head : List Piece) (body : List Code) (ending : String) :
    (blockOrEmpty head body ending).lines =
      Text.blockOrEmpty (Piece.line head) (linesOf body) ending := by
  rw [blockOrEmpty, Text.blockOrEmpty]
  cases body with
  | nil => simp [lines, linesOf, Piece.written, String.append_assoc]
  | cons c cs =>
    have hne : (linesOf (c :: cs)).isEmpty = false := by
      rw [List.isEmpty_eq_false_iff, linesOf]
      exact fun h => lines_ne_nil c (List.append_eq_nil_iff.1 h).1
    rw [hne]
    rfl

/-- A block declares the names in its head, also without code. -/
@[simp]
theorem declared_blockOrEmpty (head : List Piece) (body : List Code) (ending : String) :
    (blockOrEmpty head body ending).declared = Piece.names .declare head := by
  rw [blockOrEmpty]
  split <;> simp

/-- In a table that has no name of the top level in its head and declares nothing in its entries,
the uses of such names are those of the entries. -/
theorem outerUses_table {α : Type} {head : List Piece} {code : α → Code}
    (hhead : Piece.names .outer head = []) (hcode : ∀ x, (code x).declared = []) (xs : List α)
    (ending : String) : (blockOrEmpty head (xs.map code) ending).outerUses around =
      xs.flatMap fun x => (code x).outerUses (Piece.names .param head ++ around) := by
  have hbody : outerUsesOf (Piece.names .param head ++ around) (xs.map code) =
      xs.flatMap fun x => (code x).outerUses (Piece.names .param head ++ around) := by
    rw [outerUsesOf_eq, List.flatMap_map]
  rw [blockOrEmpty]
  cases xs with
  | nil => simp [outerUses, usesIn, hhead]
  | cons x xs =>
    rw [← hbody]
    simp [outerUses, usesIn, hhead, declaredOf_map_eq_nil hcode, hcode]

theorem names_piecesOf {role : Role} : Piece.names role (piecesOf cs) =
    cs.flatMap fun c => Piece.names role c.pieces := by
  rw [piecesOf_eq, Piece.names, List.filterMap_flatMap]
  rfl

/-- A table whose head has no name of a part, and whose entries have one each, has the names of its
entries. -/
theorem names_table {α : Type} {role : Role} {head : List Piece} {code : α → Code}
    {name : α → String} (hhead : Piece.names role head = [])
    (hcode : ∀ x, Piece.names role (code x).pieces = [name x]) (xs : List α) (ending : String) :
    Piece.names role (blockOrEmpty head (xs.map code) ending).pieces = xs.map name := by
  rw [blockOrEmpty]
  cases xs with
  | nil => simp [pieces, hhead]
  | cons x xs =>
    simp [pieces, names_piecesOf, List.flatMap_map, hhead, hcode, ← List.map_eq_flatMap]

end Code

end IpcWiring.Emit
