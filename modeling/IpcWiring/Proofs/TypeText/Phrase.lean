import IpcWiring.Program.Substitution

/-!
# Phrases of type texts

A type text is written in the grammar of `Phrase`: names, arrays, tuples, unions, intersections,
functions, object types, conditional types and type operators. `Phrase.atoms` writes a phrase as
words, marks and quoted texts, and `Phrase.Fits` says which phrase may stand at which place, so that
every operand binds at least as strongly as its place asks. `Phrase.subst` puts phrases in the place
of type parameters.
-/

namespace IpcWiring.TypeText

open IpcWiring.Text (startsIdentifier continuesIdentifier)

/-! ## Words and quoted texts -/

/-- A name or keyword. -/
structure Word where
  first : Char
  rest : List Char
  starts : startsIdentifier first = true
  continues : rest.all continuesIdentifier = true
deriving DecidableEq

namespace Word

/-- The characters of a word. -/
def chars (w : Word) : List Char := w.first :: w.rest

/-- The text of a word. -/
def text (w : Word) : String := String.ofList w.chars

end Word

/-- The words that belong to the grammar. -/
inductive Keyword where
  | extends | readonly | keyof | unique
deriving DecidableEq

/-- How a keyword is written. -/
def Keyword.word : Keyword → Word
  | .extends => ⟨'e', ['x', 't', 'e', 'n', 'd', 's'], by decide, by decide⟩
  | .readonly => ⟨'r', ['e', 'a', 'd', 'o', 'n', 'l', 'y'], by decide, by decide⟩
  | .keyof => ⟨'k', ['e', 'y', 'o', 'f'], by decide, by decide⟩
  | .unique => ⟨'u', ['n', 'i', 'q', 'u', 'e'], by decide, by decide⟩

/-- The type operators. -/
def operators : List Keyword := [.readonly, .keyof, .unique]

/-- The word can name a type. -/
def Word.IsName (w : Word) : Prop := w ∉ operators.map Keyword.word

instance (w : Word) : Decidable w.IsName := inferInstanceAs (Decidable (w ∉ _))

/-- The mark occurs behind a backslash only, and every backslash has a character behind it. -/
def isClosed (mark : Char) : List Char → Bool
  | [] => true
  | '\\' :: _ :: rest => isClosed mark rest
  | ['\\'] => false
  | c :: rest => c != mark && isClosed mark rest

/-- A text in quotes. -/
structure Quoted where
  mark : Char
  body : List Char
  isMark : (mark == '\'' || mark == '"' || mark == '`') = true
  closed : isClosed mark body = true
deriving DecidableEq

/-- The text with its quotes. -/
def Quoted.chars (q : Quoted) : List Char := q.mark :: q.body ++ [q.mark]

/-- There are three quotes. -/
theorem Quoted.mark_cases (q : Quoted) : q.mark = '\'' ∨ q.mark = '"' ∨ q.mark = '`' := by
  have h := q.isMark
  simp only [Bool.or_eq_true, beq_iff_eq] at h
  exact or_assoc.1 h

/-! ## Atoms -/

/-- What a word is there for. -/
inductive Role where
  /-- It names a type and can be a type parameter. -/
  | use
  /-- It names a type that is qualified or has type arguments. -/
  | head
  /-- It is no type: a key, the name of a parameter, a member of a namespace, a keyword. -/
  | fixed
deriving DecidableEq

/-- A piece of a type text. -/
inductive Atom where
  | word (role : Role) (w : Word)
  | mark (c : Char)
  | quoted (q : Quoted)

/-- The characters of an atom. -/
def Atom.chars : Atom → List Char
  | word _ w => w.chars
  | mark c => [c]
  | quoted q => q.chars

/-- The text of some atoms. -/
def spell (as : List Atom) : List Char := as.flatMap Atom.chars

/-- Marks one after the other. -/
def marks (cs : List Char) : List Atom := cs.map .mark

/-- Texts are written one after the other. -/
theorem spell_append (as bs : List Atom) : spell (as ++ bs) = spell as ++ spell bs :=
  List.flatMap_append

/-- Marks are written as they are. -/
theorem spell_marks (cs : List Char) : spell (marks cs) = cs := by
  rw [spell, marks, List.flatMap_map]
  exact List.flatMap_singleton' cs

/-- Texts with marks between them. -/
def separated (mark : List Char) : List (List Atom) → List Atom
  | [] => []
  | first :: rest => first ++ rest.flatMap (marks mark ++ ·)

/-! ## Phrases -/

/-- The key of a property or method. -/
inductive Key where
  | word (w : Word)
  | quoted (q : Quoted)
deriving DecidableEq

/-- The atom of a key. -/
def Key.atom : Key → Atom
  | word w => .word .fixed w
  | quoted q => .quoted q

/-- How a parameter takes its argument. -/
inductive Modifier where
  | plain | optional | rest

/-- A type, or a part of one that is no type by itself: an element of a tuple, a parameter, a member
of an object type, a type parameter of a method. -/
inductive Phrase where
  /-- A type by its name, which can be a type parameter. -/
  | use (name : Word)
  /-- A type by its qualified name or with type arguments. -/
  | applied (head : Word) (path : List Word) (args : List Phrase)
  | quoted (q : Quoted)
  | paren (inner : Phrase)
  | array (element : Phrase)
  | tuple (elements : List Phrase)
  /-- An element of a tuple that may be missing. -/
  | optional (element : Phrase)
  /-- The rest of a tuple. -/
  | spread (elements : Phrase)
  | union (left right : Phrase)
  | intersection (left right : Phrase)
  | operator (op : Keyword) (operand : Phrase)
  | conditional (check extended positive negative : Phrase)
  | function (parameters : List Phrase) (result : Phrase)
  | parameter (modifier : Modifier) (name : Word) (type : Phrase)
  | object (members : List Phrase)
  | property (isReadonly : Bool) (key : Key) (isOptional : Bool) (type : Phrase)
  | method (key : Key) (isOptional : Bool) (generics parameters : List Phrase) (result : Phrase)
  /-- A type parameter of a method. -/
  | generic (name : Word)
  /-- A type parameter of a method with its constraint. -/
  | bounded (name : Word) (constraint : Phrase)

namespace Phrase

/-- A question mark, if there is one. -/
def questionIf (isOptional : Bool) : List Atom := if isOptional then marks ['?'] else []

/-- Type arguments or type parameters, if there are any. -/
def angled : List (List Atom) → List Atom
  | [] => []
  | items => .mark '<' :: separated [',', ' '] items ++ [.mark '>']

/-- Parameters. -/
def listed (items : List (List Atom)) : List Atom :=
  .mark '(' :: separated [',', ' '] items ++ [.mark ')']

/-- Members. -/
def braced : List (List Atom) → List Atom
  | [] => marks ['\x7b', '\x7d']
  | items => marks ['\x7b', ' '] ++ separated [';', ' '] items ++ marks [' ', '\x7d']

/-- The name of a parameter with its modifier. -/
def parameterName (name : Word) : Modifier → List Atom
  | .plain => [.word .fixed name]
  | .optional => [.word .fixed name, .mark '?']
  | .rest => marks ['.', '.', '.'] ++ [.word .fixed name]

/-- The key of a property with its modifiers. -/
def propertyKey (isReadonly : Bool) (key : Key) (isOptional : Bool) : List Atom :=
  (if isReadonly then [.word .fixed Keyword.readonly.word, .mark ' '] else []) ++
    key.atom :: questionIf isOptional

mutual

/-- How a phrase is written. -/
def atoms : Phrase → List Atom
  | use name => [.word .use name]
  | applied head path args =>
    .word .head head :: path.flatMap (fun w => [.mark '.', .word .fixed w]) ++
      angled (atomsEach args)
  | quoted q => [.quoted q]
  | paren inner => .mark '(' :: atoms inner ++ [.mark ')']
  | array element => atoms element ++ marks ['[', ']']
  | tuple elements => .mark '[' :: separated [',', ' '] (atomsEach elements) ++ [.mark ']']
  | optional element => atoms element ++ [.mark '?']
  | spread elements => marks ['.', '.', '.'] ++ atoms elements
  | union left right => atoms left ++ marks [' ', '|', ' '] ++ atoms right
  | intersection left right => atoms left ++ marks [' ', '&', ' '] ++ atoms right
  | operator op operand => .word .fixed op.word :: .mark ' ' :: atoms operand
  | conditional check extended positive negative =>
    atoms check ++ .mark ' ' :: .word .fixed Keyword.extends.word :: .mark ' ' :: atoms extended ++
      marks [' ', '?', ' '] ++ atoms positive ++ marks [' ', ':', ' '] ++ atoms negative
  | function parameters result =>
    listed (atomsEach parameters) ++ marks [' ', '=', '>', ' '] ++ atoms result
  | parameter modifier name type =>
    parameterName name modifier ++ marks [':', ' '] ++ atoms type
  | object members => braced (atomsEach members)
  | property isReadonly key isOptional type =>
    propertyKey isReadonly key isOptional ++ marks [':', ' '] ++ atoms type
  | method key isOptional generics parameters result =>
    key.atom :: questionIf isOptional ++ angled (atomsEach generics) ++
      listed (atomsEach parameters) ++ marks [':', ' '] ++ atoms result
  | generic name => [.word .fixed name]
  | bounded name constraint =>
    .word .fixed name :: .mark ' ' :: .word .fixed Keyword.extends.word :: .mark ' ' ::
      atoms constraint

/-- How phrases are written. -/
def atomsEach : List Phrase → List (List Atom)
  | [] => []
  | t :: ts => atoms t :: atomsEach ts

end

/-- The characters of a phrase. -/
def chars (t : Phrase) : List Char := spell t.atoms

/-- The text of a phrase. -/
def text (t : Phrase) : String := String.ofList t.chars

/-- A name is written as it is. -/
theorem chars_use (name : Word) : (use name).chars = name.chars := List.append_nil _

/-- A text in quotes is written as it is. -/
theorem chars_quoted (q : Quoted) : (quoted q).chars = q.chars := List.append_nil _

/-- A type parameter is written as it is. -/
theorem chars_generic (name : Word) : (generic name).chars = name.chars := List.append_nil _

/-! ## Places -/

end Phrase

/-- Where a phrase may stand. -/
inductive Place where
  | member | parameter | generic | element | type
  /-- Behind the `extends` of a conditional type. -/
  | extended
  | union | intersection | operand
  /-- Before the brackets of an array or the question mark of an optional element. -/
  | tight
deriving DecidableEq

namespace Place

/-- How strongly a type at a place has to bind; none if no type stands there. -/
def strength? : Place → Option Nat
  | member | parameter | generic => none
  | element | type => some 0
  | extended => some 1
  | union => some 2
  | intersection => some 3
  | operand => some 4
  | tight => some 5

/-- The place takes types that bind with a strength. -/
def takes (p : Place) (strength : Nat) : Bool := p.strength?.any (· ≤ strength)

/-- Where the result of a function at a place stands. -/
def result : Place → Place
  | extended => extended
  | _ => type

end Place

namespace Phrase

mutual

/-- The phrase may stand at a place, and each of its parts at its own. -/
def Fits : Place → Phrase → Prop
  | p, use name => p.takes 5 ∧ name.IsName
  | p, applied head path args =>
    p.takes 5 ∧ head.IsName ∧ (path ≠ [] ∨ args ≠ []) ∧ FitsEach .type args
  | p, quoted _ => p.takes 5
  | p, paren inner => p.takes 5 ∧ Fits .type inner
  | p, array element => p.takes 5 ∧ Fits .tight element
  | p, tuple elements => p.takes 5 ∧ FitsEach .element elements
  | p, optional element => p = .element ∧ Fits .tight element
  | p, spread elements => p = .element ∧ Fits .type elements
  | p, union left right => p.takes 2 ∧ Fits .union left ∧ Fits .intersection right
  | p, intersection left right => p.takes 3 ∧ Fits .intersection left ∧ Fits .operand right
  | p, operator op operand => p.takes 4 ∧ op ∈ operators ∧ Fits .operand operand
  | p, conditional check extended positive negative =>
    p.takes 0 ∧ Fits .union check ∧ Fits .extended extended ∧ Fits .type positive ∧
      Fits .type negative
  | p, function parameters result =>
    p.takes 1 ∧ FitsEach .parameter parameters ∧ Fits p.result result
  | p, parameter _ _ type => p = .parameter ∧ Fits .type type
  | p, object members => p.takes 5 ∧ FitsEach .member members
  | p, property _ _ _ type => p = .member ∧ Fits .type type
  | p, method _ _ generics parameters result =>
    p = .member ∧ FitsEach .generic generics ∧ FitsEach .parameter parameters ∧
      Fits .type result
  | p, generic _ => p = .generic
  | p, bounded _ constraint => p = .generic ∧ Fits .type constraint

/-- Each of some phrases may stand at a place. -/
def FitsEach : Place → List Phrase → Prop
  | _, [] => True
  | p, t :: rest => Fits p t ∧ FitsEach p rest

end

/-! ## Substitution -/

/-- The type parameters that some type parameters of a method declare. -/
def genericNames (generics : List Phrase) : List String :=
  generics.filterMap fun
    | generic name | bounded name _ => some name.text
    | _ => none

mutual

/-- The names of types that a phrase takes from around it. A method declares its type parameters. -/
def freeNames : Phrase → List String
  | use name => [name.text]
  | applied head _ args => head.text :: freeNamesEach args
  | quoted _ | generic _ => []
  | paren t | array t | optional t | spread t | operator _ t | parameter _ _ t | property _ _ _ t
  | bounded _ t => freeNames t
  | tuple ts | object ts => freeNamesEach ts
  | union left right | intersection left right => freeNames left ++ freeNames right
  | conditional check extended positive negative =>
    freeNames check ++ freeNames extended ++ freeNames positive ++ freeNames negative
  | function parameters result => freeNamesEach parameters ++ freeNames result
  | method _ _ generics parameters result =>
    (freeNamesEach generics ++ freeNamesEach parameters ++ freeNames result).filter
      (!(genericNames generics).contains ·)

/-- The names of types that some phrases take from around them. -/
def freeNamesEach : List Phrase → List String
  | [] => []
  | t :: ts => freeNames t ++ freeNamesEach ts

end

end Phrase

/-- What type parameters stand for. -/
abbrev Arguments := List (String × Phrase)

namespace Arguments

/-- The arguments for other parameters than some. -/
def without (σ : Arguments) (names : List String) : Arguments :=
  σ.filter fun (name, _) => !names.contains name

/-- The free names of what a name stands for. -/
def freeNames (σ : Arguments) (name : String) : List String :=
  match σ.lookup name with
  | some t => t.freeNames
  | none => [name]

end Arguments

namespace Phrase

mutual

/-- Puts arguments in the place of type parameters. A type parameter of a method hides one of its
name. -/
def subst (σ : Arguments) : Phrase → Phrase
  | use name => (σ.lookup name.text).getD (use name)
  | applied head path args => applied head path (substEach σ args)
  | quoted q => quoted q
  | paren inner => paren (subst σ inner)
  | array element => array (subst σ element)
  | tuple elements => tuple (substEach σ elements)
  | optional element => optional (subst σ element)
  | spread elements => spread (subst σ elements)
  | union left right => union (subst σ left) (subst σ right)
  | intersection left right => intersection (subst σ left) (subst σ right)
  | operator op operand => operator op (subst σ operand)
  | conditional check extended positive negative =>
    conditional (subst σ check) (subst σ extended) (subst σ positive) (subst σ negative)
  | function parameters result => function (substEach σ parameters) (subst σ result)
  | parameter modifier name type => parameter modifier name (subst σ type)
  | object members => object (substEach σ members)
  | property isReadonly key isOptional type => property isReadonly key isOptional (subst σ type)
  | method key isOptional generics parameters result =>
    let inner := σ.without (genericNames generics)
    method key isOptional (substEach inner generics) (substEach inner parameters)
      (subst inner result)
  | generic name => generic name
  | bounded name constraint => bounded name (subst σ constraint)

/-- Puts arguments in the place of type parameters of some phrases. -/
def substEach (σ : Arguments) : List Phrase → List Phrase
  | [] => []
  | t :: ts => subst σ t :: substEach σ ts

end

/-! ## Lists of phrases -/

/-- Phrases are written one by one. -/
theorem atomsEach_eq_map (ts : List Phrase) : atomsEach ts = ts.map atoms := by
  induction ts with
  | nil => rfl
  | cons t ts ih => rw [atomsEach, ih, List.map_cons]

/-- Arguments are put into phrases one by one. -/
theorem substEach_eq_map (σ : Arguments) (ts : List Phrase) :
    substEach σ ts = ts.map (subst σ) := by
  induction ts with
  | nil => rfl
  | cons t ts ih => rw [substEach, ih, List.map_cons]

/-- Free names are those of each phrase. -/
theorem freeNamesEach_eq_flatMap (ts : List Phrase) : freeNamesEach ts = ts.flatMap freeNames := by
  induction ts with
  | nil => rfl
  | cons t ts ih => rw [freeNamesEach, ih, List.flatMap_cons]

/-- Phrases may stand at a place if each of them may. -/
theorem fitsEach_iff {p : Place} {ts : List Phrase} : FitsEach p ts ↔ ∀ t ∈ ts, Fits p t := by
  induction ts with
  | nil => exact iff_of_true trivial nofun
  | cons t ts ih => rw [FitsEach, ih, List.forall_mem_cons]

section

variable {P : Phrase → Prop} (use : ∀ name, P (.use name))
  (applied : ∀ head path args, (∀ t ∈ args, P t) → P (.applied head path args))
  (quoted : ∀ q, P (.quoted q)) (paren : ∀ inner, P inner → P (.paren inner))
  (array : ∀ element, P element → P (.array element))
  (tuple : ∀ elements, (∀ t ∈ elements, P t) → P (.tuple elements))
  (optional : ∀ element, P element → P (.optional element))
  (spread : ∀ elements, P elements → P (.spread elements))
  (union : ∀ left right, P left → P right → P (.union left right))
  (intersection : ∀ left right, P left → P right → P (.intersection left right))
  (operator : ∀ op operand, P operand → P (.operator op operand))
  (conditional : ∀ check extended positive negative, P check → P extended → P positive →
    P negative → P (.conditional check extended positive negative))
  (function : ∀ parameters result, (∀ t ∈ parameters, P t) → P result →
    P (.function parameters result))
  (parameter : ∀ modifier name type, P type → P (.parameter modifier name type))
  (object : ∀ members, (∀ t ∈ members, P t) → P (.object members))
  (property : ∀ isReadonly key isOptional type, P type →
    P (.property isReadonly key isOptional type))
  (method : ∀ key isOptional generics parameters result, (∀ t ∈ generics, P t) →
    (∀ t ∈ parameters, P t) → P result → P (.method key isOptional generics parameters result))
  (generic : ∀ name, P (.generic name))
  (bounded : ∀ name constraint, P constraint → P (.bounded name constraint))

include use applied quoted paren array tuple optional spread union intersection operator
include conditional function parameter object property method generic bounded

/-- What holds of a phrase whenever it holds of its parts holds of every phrase. -/
theorem induct (t : Phrase) : P t := by
  exact @Phrase.rec P (fun ts => ∀ t ∈ ts, P t) use applied quoted paren array tuple optional
    spread union intersection operator conditional function parameter object property method
    generic bounded nofun (fun t ts ht hts => List.forall_mem_cons.2 ⟨ht, hts⟩) t

end

end Phrase

end IpcWiring.TypeText
