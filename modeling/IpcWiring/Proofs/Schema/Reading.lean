import IpcWiring.Proofs.Schema.Types
import IpcWiring.Proofs.Script.Strings
import IpcWiring.Proofs.TypeText.Closing

/-!
# Reading the types that schemas describe

A reader for type texts on one line, by the rules of precedence: a union of intersections of types
with brackets behind them (`SchemaType.parse`). Other than the phrases of type texts, these types
have literals of all kinds for leaves. Words, literals and keys are tokens of a source, so a type is
read back only if its leaves and keys are read as such where they stand (`IsLeaf`, `IsKey`). A type
that groups as it is written is what is read from its text (`parse_text`): each level of the grammar
reads what it should up to what ends it (`ReadBack`), by induction on the type.
-/

namespace IpcWiring.SchemaType

open Script (Token Scans scanToken)

/-! ## Readers -/

/-- A reader of `α` at the start of a text, with what it leaves. -/
abbrev TypeReader (α : Type) := List Char → Option (α × List Char)

/-- The words that start types of other forms. -/
def otherWords : List String :=
  ["abstract", "asserts", "import", "infer", "keyof", "new", "readonly", "this", "typeof",
    "unique"]

/-- The token is a type. -/
def isLeafToken : Token → Bool
  | .word w => !otherWords.contains w
  | .string _ | .number _ => true
  | _ => false

/-- The name that a token stands for as a key. -/
def keyName? : Token → Option String
  | .word w => some w
  | .string value => some value
  | _ => none

section

variable {α : Type}

/-- Reads items with marks between them, at most `n`. -/
def chain (mark : List Char) (item : TypeReader α) : Nat → TypeReader (List α)
  | 0, _ => none
  | n + 1, cs => do
    let (a, rest) ← item cs
    match rest.dropPrefix? mark with
    | none => some ([a], rest)
    | some rest =>
      let (as, rest) ← chain mark item n rest
      some (a :: as, rest)

/-- Reads items with marks between them. -/
def joined (mark : List Char) (item : TypeReader α) : TypeReader (List α) := fun cs =>
  chain mark item (cs.length + 1) cs

end

/-- Reads a word or literal. -/
def readLeaf : TypeReader String := fun cs =>
  let (token, n) := scanToken cs
  if isLeafToken token then some (String.ofList (cs.take n), cs.drop n) else none

/-- The type of that name with type arguments. -/
def applied? : String → List SchemaType → Option SchemaType
  | "Array", [element] => some (.array element)
  | "Record", [key, value] => some (.record key value)
  | _, _ => none

section

variable (type : TypeReader SchemaType)

/-- Reads a property. -/
def readMember : TypeReader SchemaMember := fun cs => do
  let (token, n) := scanToken cs
  let name ← keyName? token
  let (optional, rest) := match (cs.drop n).dropPrefix? ['?'] with
    | some rest => (true, rest)
    | none => (false, cs.drop n)
  let rest ← rest.dropPrefix? [':', ' ']
  let (t, rest) ← type rest
  some (⟨name, optional, t⟩, rest)

/-- Reads an object type. -/
def readObject : TypeReader SchemaType := fun cs =>
  match cs.dropPrefix? ['\x7b', '\x7d'] with
  | some rest => some (.object [], rest)
  | none => do
    let cs ← cs.dropPrefix? ['\x7b', ' ']
    let (members, rest) ← joined [';', ' '] (readMember type) cs
    let rest ← rest.dropPrefix? [' ', '\x7d']
    some (.object members, rest)

/-- Reads a tuple behind its opening bracket. -/
def readTuple : TypeReader SchemaType := fun cs =>
  match joined [',', ' '] type cs with
  | some (items, rest) => (rest.dropPrefix? [']']).map fun rest => (.tuple items, rest)
  | none => (cs.dropPrefix? [']']).map fun rest => (.tuple [], rest)

/-- Reads a type in parentheses behind the opening one. -/
def readGroup : TypeReader SchemaType := fun cs => do
  let (t, rest) ← type cs
  let rest ← rest.dropPrefix? [')']
  some (t, rest)

/-- Reads what goes on behind a word or literal. -/
def readApplied (text : String) : TypeReader SchemaType := fun cs =>
  match cs.dropPrefix? ['<'] with
  | none => some (.leaf text, cs)
  | some cs => do
    let (args, rest) ← joined [',', ' '] type cs
    let rest ← rest.dropPrefix? ['>']
    let t ← applied? text args
    some (t, rest)

/-- Reads a type that is one word or literal, or in brackets of its own. -/
def readPrimary : TypeReader SchemaType := fun cs =>
  match readLeaf cs, cs with
  | some (text, rest), _ => readApplied type text rest
  | none, '[' :: rest => readTuple type rest
  | none, '(' :: rest => readGroup type rest
  | none, _ => readObject type cs

/-- Reads the brackets behind a type. -/
def readSuffixes (t : SchemaType) : List Char → SchemaType × List Char
  | '[' :: ']' :: rest => readSuffixes (.array t) rest
  | cs => (t, cs)

/-- Reads a type with the brackets behind it. -/
def readSuffixed : TypeReader SchemaType := fun cs =>
  (readPrimary type cs).map fun (t, rest) => readSuffixes t rest

/-- Reads an intersection. -/
def readParts : TypeReader SchemaType := fun cs =>
  (joined [' ', '&', ' '] (readSuffixed type) cs).map fun (ts, rest) =>
    (collapse intersection ts, rest)

/-- Reads a union of intersections. -/
def readOptions : TypeReader SchemaType := fun cs =>
  (joined [' ', '|', ' '] (readParts type) cs).map fun (ts, rest) => (collapse union ts, rest)

end

/-- Reads a type that nests at most `n` deep. -/
def readType : Nat → TypeReader SchemaType
  | 0 => fun _ => none
  | n + 1 => readOptions (readType n)

/-- The type that was read if nothing is left. -/
def wholly : Option (SchemaType × List Char) → Option SchemaType
  | some (t, []) => some t
  | _ => none

/-- Reads a type from the whole of a text. -/
def parse (text : String) : Option SchemaType :=
  wholly (readType (text.length + 1) text.toList)

/-! ## Types that can be read -/

/-- The characters that can follow a type. -/
def closers : List Char := [' ', ',', ';', '[', ']', '>']

/-- What follows does not go on with a word or literal. -/
def SetApart (rest : List Char) : Prop := ∀ c ∈ rest.head?, c ∈ closers

/-- The text is read as a type by itself wherever it is set apart. -/
def IsLeaf (text : String) : Prop :=
  ∃ token, isLeafToken token = true ∧ ∀ rest, SetApart rest → Scans text.toList rest token

/-- The key that is written for a name stands for it. -/
def IsKey (name : String) : Prop :=
  ∃ token, keyName? token = some name ∧ ∀ rest : List Char,
    (∀ c ∈ rest.head?, c = '?' ∨ c = ':') → Scans (Text.propertyKey name).toList rest token

/-- A type whose leaves and keys can be read, and whose unions and intersections have operands that
are none of their own kind, at least two of them. -/
def IsProper : SchemaType → Prop
  | leaf text => IsLeaf text
  | object members => ∀ m ∈ members, IsKey m.name
  | union options => 2 ≤ options.length ∧ ∀ t ∈ options, ¬ t.IsUnion
  | intersection parts => 2 ≤ parts.length ∧ ∀ t ∈ parts, ¬ t.IsIntersection
  | _ => True

/-- The type and all types inside of it are proper. -/
def Proper : SchemaType → Prop := Everywhere IsProper

/-! ## Readers of lists -/

/-- An item is read from its characters if what follows ends it. -/
def Reads {α : Type} (item : TypeReader α) (Ends : List Char → Prop) (cs : List Char) (a : α) :
    Prop :=
  ∀ rest, Ends rest → item (cs ++ rest) = some (a, rest)

section

variable {α : Type} {mark : List Char} {item : TypeReader α} {Ends : List Char → Prop}
  {f : α → List Char}

/-- A mark in front is read. -/
theorem dropPrefix?_self (mark rest : List Char) : (mark ++ rest).dropPrefix? mark = some rest :=
  TypeText.dropPrefix?_append mark rest

/-- Items are read up to what ends the last one and is no mark. -/
theorem chain_reads (hmark : ∀ rest, Ends (mark ++ rest)) {rest : List Char} (hends : Ends rest)
    (hstop : rest.dropPrefix? mark = none) : ∀ {as : List α} {n : Nat}, as ≠ [] →
      as.length ≤ n → (∀ a ∈ as, Reads item Ends (f a) a) →
      chain mark item n (mark.intercalate (as.map f) ++ rest) = some (as, rest)
  | [], _, hne, _, _ => (hne rfl).elim
  | [a], n + 1, _, _, h => by
    have hitem := h a (List.mem_singleton_self a) rest hends
    rw [List.map_singleton, List.intercalate_singleton, chain, hitem]
    simp only [Option.bind_eq_bind, Option.bind_some, hstop]
  | a :: b :: as, n + 1, _, hn, h => by
    obtain ⟨ha, hrest⟩ := List.forall_mem_cons.1 h
    have hchars : mark.intercalate ((a :: b :: as).map f) ++ rest =
        f a ++ (mark ++ (mark.intercalate ((b :: as).map f) ++ rest)) := by
      rw [List.map_cons, List.map_cons, List.intercalate_cons_cons, List.append_assoc,
        List.append_assoc]
    have hchain := chain_reads hmark hends hstop (List.cons_ne_nil b as)
      (Nat.le_of_succ_le_succ hn) hrest
    rw [hchars, chain, ha _ (hmark _)]
    simp only [Option.bind_eq_bind, Option.bind_some, dropPrefix?_self, hchain]
  | _ :: _, 0, _, hn, _ => (Nat.not_succ_le_zero _ hn).elim

/-- There are no more items than characters and one. -/
theorem length_le_intercalate (hmark : mark ≠ []) : ∀ as : List (List Char),
    as.length ≤ (mark.intercalate as).length + 1
  | [] => Nat.zero_le _
  | [a] => by
    rw [List.length_singleton]
    exact Nat.le_add_left 1 _
  | a :: b :: as => by
    have hrest := length_le_intercalate hmark (b :: as)
    have hpos := List.length_pos_iff.2 hmark
    rw [List.intercalate_cons_cons, List.length_append, List.length_append, List.length_cons]
    omega

/-- Items are read with the marks between them. -/
theorem reads_joined (hmark : mark ≠ []) (hends : ∀ rest, Ends (mark ++ rest)) {as : List α}
    (hne : as ≠ []) (h : ∀ a ∈ as, Reads item Ends (f a) a) :
    Reads (joined mark item) (fun rest => Ends rest ∧ rest.dropPrefix? mark = none)
      (mark.intercalate (as.map f)) as := by
  intro rest hrest
  refine chain_reads hends hrest.1 hrest.2 hne ?_ h
  have hlength := length_le_intercalate hmark (as.map f)
  rw [List.length_map] at hlength
  rw [List.length_append]
  omega

/-- An item is no longer than the text that it is in. -/
theorem length_le_of_mem (mark : List Char) {cs : List Char} :
    ∀ {as : List (List Char)}, cs ∈ as → cs.length ≤ (mark.intercalate as).length
  | [a], h => by
    have hlength : cs.length = (mark.intercalate [a]).length := by
      rw [List.mem_singleton.1 h, List.intercalate_singleton]
    exact Nat.le_of_eq hlength
  | a :: b :: as, h => by
    rw [List.intercalate_cons_cons, List.length_append, List.length_append]
    rcases List.mem_cons.1 h with rfl | h
    · omega
    · have hrest := length_le_of_mem mark h
      omega

end

/-! ## What ends a type -/

/-- What follows is no bracket behind a type. -/
def EndsSuffixed (rest : List Char) : Prop := SetApart rest ∧ rest.head? ≠ some '['

/-- What follows does not go on with an intersection. -/
def EndsParts (rest : List Char) : Prop :=
  EndsSuffixed rest ∧ rest.dropPrefix? [' ', '&', ' '] = none

/-- What follows does not go on with a type. -/
def EndsType (rest : List Char) : Prop :=
  EndsParts rest ∧ rest.dropPrefix? [' ', '|', ' '] = none

/-- A type is set apart by a character that can follow it. -/
theorem setApart_cons {c : Char} (h : c ∈ closers) (rest : List Char) : SetApart (c :: rest) := by
  intro d hd
  rwa [← Option.some.inj hd]

/-- A type ends where it is closed. -/
theorem endsType_cons {c : Char} (h : c ∈ [',', ';', ']', '>']) (rest : List Char) :
    EndsType (c :: rest) := by
  simp only [List.mem_cons, List.not_mem_nil, or_false] at h
  refine ⟨⟨⟨setApart_cons ?_ rest, ?_⟩, ?_⟩, ?_⟩
  · rcases h with rfl | rfl | rfl | rfl <;> decide
  · rcases h with rfl | rfl | rfl | rfl <;> nofun
  · rcases h with rfl | rfl | rfl | rfl <;> rfl
  · rcases h with rfl | rfl | rfl | rfl <;> rfl

/-- A type ends at the end. -/
theorem endsType_nil : EndsType [] := ⟨⟨⟨nofun, nofun⟩, rfl⟩, rfl⟩

/-- A type ends where an object type is closed. -/
theorem endsType_brace (rest : List Char) : EndsType (' ' :: '\x7d' :: rest) :=
  ⟨⟨⟨setApart_cons (by decide) _, nofun⟩, rfl⟩, rfl⟩

/-- What is in brackets ends at an `&`. -/
theorem endsSuffixed_and (rest : List Char) : EndsSuffixed ([' ', '&', ' '] ++ rest) :=
  ⟨setApart_cons (by decide) _, nofun⟩

/-- An intersection ends at a `|`. -/
theorem endsParts_or (rest : List Char) : EndsParts ([' ', '|', ' '] ++ rest) :=
  ⟨⟨setApart_cons (by decide) _, nofun⟩, rfl⟩

/-- A word or literal is not applied to types. -/
theorem SetApart.not_applied {rest : List Char} (h : SetApart rest) :
    rest.dropPrefix? ['<'] = none := by
  cases rest with
  | nil => rfl
  | cons c rest =>
    have hne : c ≠ '<' := fun heq => absurd (h c rfl) (heq ▸ by decide)
    exact if_neg (mt beq_iff_eq.1 hne)

/-! ## Leaves and marks -/

/-- A leaf is read where it is set apart. -/
theorem readLeaf_of_isLeaf {text : String} (h : IsLeaf text) {rest : List Char}
    (hrest : SetApart rest) : readLeaf (text.toList ++ rest) = some (text, rest) := by
  obtain ⟨token, htoken, hscan⟩ := h
  have hread : scanToken (text.toList ++ rest) = (token, text.toList.length) := hscan rest hrest
  simp only [readLeaf, hread, htoken, if_true, List.take_left, List.drop_left, String.ofList_toList]

/-- A word that is a type is read up to what does not go on with it. -/
theorem readLeaf_word {w : Script.Word} (hw : isLeafToken (.word w.text) = true)
    (rest : List Char) (hrest : Script.Apart rest) :
    readLeaf (w.chars ++ rest) = some (w.text, rest) := by
  simp only [readLeaf, Script.scanToken_word w hrest, hw, if_true, List.take_left, List.drop_left]
  rfl

/-- No word goes on where a type is set apart. -/
theorem SetApart.apart {rest : List Char} (h : SetApart rest) : Script.Apart rest := by
  have hall : closers.all (fun c => !Script.continuesName c && c != '\\') = true := by decide
  intro c hc
  have hclose := List.all_eq_true.1 hall c (h c hc)
  rwa [Bool.and_eq_true, Bool.not_eq_true', bne_iff_ne] at hclose

/-- The text is a name that is a type. -/
def isTypeName (text : String) : Bool :=
  match text.toList with
  | [] => false
  | c :: cs => Script.startsName c && cs.all Script.continuesName && !otherWords.contains text

/-- A name that is a type is a leaf. -/
theorem isLeaf_of_isTypeName {text : String} (h : isTypeName text = true) : IsLeaf text := by
  rw [isTypeName] at h
  split at h
  · cases h
  · next c cs hchars =>
    obtain ⟨hname, hleaf⟩ := Bool.and_eq_true_iff.1 h
    obtain ⟨hstart, hcontinues⟩ := Bool.and_eq_true_iff.1 hname
    have htext : String.ofList (c :: cs) = text := by rw [← hchars, String.ofList_toList]
    refine ⟨.word text, hleaf, fun rest hrest => ?_⟩
    have hscan := Script.scanToken_word ⟨c, cs, hstart, hcontinues⟩ hrest.apart
    rw [Script.Word.text, Script.Word.chars, htext] at hscan
    rw [Script.Scans, hchars]
    exact hscan

/-- A text in quotes is a leaf. -/
theorem isLeaf_quoted (q : Script.Quoted) : IsLeaf (String.ofList q.chars) :=
  ⟨.string q.text, rfl, fun rest _ => by
    rw [Script.Scans, String.toList_ofList]
    exact Script.scanToken_quoted q rest⟩

/-- A word that is written without quotes is a key. -/
theorem isKey_word {w : Script.Word} (h : Text.isIdentifier w.text = true) : IsKey w.text := by
  refine ⟨.word w.text, rfl, fun rest hrest => ?_⟩
  rw [Text.propertyKey, if_pos h, Script.Scans, Script.Word.text, String.toList_ofList]
  refine Script.scanToken_word w fun c hc => ?_
  rcases hrest c hc with rfl | rfl <;> decide

/-- A name on one line without backslashes that is written in quotes is a key. -/
theorem isKey_quoted {name : String} (hname : ¬ Text.isIdentifier name = true)
    (h : ∀ c ∈ name.toList, c ∉ ['\\', '\n', '\r']) : IsKey name := by
  refine ⟨.string name, rfl, fun rest _ => ?_⟩
  have hslash : '\\' ∉ name.toList := fun hmem => h _ hmem List.mem_cons_self
  have hline : (name.toList.all fun c => c != '\n' && c != '\r') = true := by
    refine List.all_eq_true.2 fun c hc => ?_
    have hnot := h c hc
    simp only [List.mem_cons, List.not_mem_nil, or_false, not_or] at hnot
    rw [Bool.and_eq_true, bne_iff_ne, bne_iff_ne]
    exact hnot.2
  have hbody := Script.stringBody?_escapedChar name.toList rest
  rw [if_pos hline] at hbody
  rw [Text.propertyKey, if_neg hname, Script.Scans, Script.toList_quoteName,
    Script.flatMap_quoteEscapedChar hslash, List.cons_append, List.append_assoc,
    List.singleton_append, Script.scanToken_quote, hbody]
  simp

/-- A mark is no leaf. -/
theorem readLeaf_mark {c : Char} (hc : c ∈ Script.loneChars) (rest : List Char) :
    readLeaf (c :: rest) = none := by
  simp only [readLeaf, Script.scanToken_lone hc rest]
  rfl

/-- Nothing is read where the first item is not read. -/
theorem joined_eq_none {α : Type} {mark cs : List Char} {item : TypeReader α}
    (h : item cs = none) : joined mark item cs = none := by
  rw [joined, chain, h]
  rfl

/-- No type starts with a closing bracket. -/
theorem readType_bracket (rest : List Char) : ∀ n, readType n (']' :: rest) = none
  | 0 => rfl
  | n + 1 => by
    have hprimary : readPrimary (readType n) (']' :: rest) = none := by
      simp only [readPrimary, readLeaf_mark (show ']' ∈ Script.loneChars by decide) rest]
      rfl
    have hsuffixed : readSuffixed (readType n) (']' :: rest) = none := by
      rw [readSuffixed, hprimary, Option.map_none]
    have hparts : readParts (readType n) (']' :: rest) = none := by
      rw [readParts, joined_eq_none hsuffixed, Option.map_none]
    rw [readType, readOptions, joined_eq_none hparts, Option.map_none]

/-! ## Characters -/

/-- The characters that a type is written with. -/
def chars (t : SchemaType) : List Char := t.text.toList

/-- The characters that a member is written with. -/
def memberChars (m : SchemaMember) : List Char :=
  (Text.propertyKey m.name).toList ++ ((if m.optional then ['?'] else []) ++
    ([':', ' '] ++ m.type.chars))

section

variable (ts : List SchemaType) (t u : SchemaType) (ms : List SchemaMember)

/-- The characters of texts with marks between them. -/
theorem toList_joinWith {α : Type} {sep : String} {f : α → String} {as : List α} :
    (Text.joinWith sep (as.map f)).toList =
      sep.toList.intercalate (as.map fun a => (f a).toList) := by
  rw [Text.joinWith, String.toList_intercalate, List.map_map]
  rfl

/-- The characters of an array of simple elements. -/
theorem chars_array (h : isSimpleElement t.text = true) :
    (array t).chars = t.chars ++ ['[', ']'] := by
  rw [chars, text, arrayOf, if_pos h, String.toList_append]
  rfl

/-- The characters of an array of elements that are not simple. -/
theorem chars_array_generic (h : ¬ isSimpleElement t.text = true) : (array t).chars =
    "Array".toList ++ '<' :: ([',', ' '].intercalate ([t].map chars) ++ ['>']) := by
  rw [chars, text, arrayOf, if_neg h, String.toList_append, String.toList_append,
    List.map_singleton, List.intercalate_singleton, List.append_assoc]
  rfl

/-- The characters of a tuple. -/
theorem chars_tuple :
    (tuple ts).chars = '[' :: ([',', ' '].intercalate (ts.map chars) ++ [']']) := by
  rw [chars, text, texts_eq_map, String.toList_append, String.toList_append, toList_joinWith,
    List.append_assoc]
  rfl

/-- The characters of a record. -/
theorem chars_record : (record t u).chars =
    "Record".toList ++ '<' :: ([',', ' '].intercalate ([t, u].map chars) ++ ['>']) := by
  simp [chars, text, List.intercalate_cons_cons, String.toList_append]

/-- The characters of a member. -/
theorem toList_memberText (m : SchemaMember) :
    (memberText m.name m.optional m.type.text).toList = memberChars m := by
  have hmark : (if m.optional then "?" else "").toList = if m.optional then ['?'] else [] := by
    cases m.optional <;> rfl
  simp only [memberText, memberChars, chars, String.toList_append, hmark, List.append_assoc]
  rfl

/-- The characters of an object type. -/
theorem chars_object (h : ms ≠ []) : (object ms).chars =
    ['\x7b', ' '] ++ ([';', ' '].intercalate (ms.map memberChars) ++ [' ', '\x7d']) := by
  have hne : (memberTexts ms).isEmpty = false := by
    rw [memberTexts_eq_map, List.isEmpty_map]
    exact List.isEmpty_eq_false_iff.2 h
  rw [chars, text, Text.braced, hne, memberTexts_eq_map]
  simp only [Bool.false_eq_true, if_false, String.toList_append, toList_joinWith,
    toList_memberText, List.append_assoc]
  rfl

/-- The characters of a union. -/
theorem chars_union : (union ts).chars = [' ', '|', ' '].intercalate (ts.map chars) := by
  rw [chars, text, texts_eq_map, toList_joinWith]
  rfl

/-- The characters of an intersection. -/
theorem chars_intersection :
    (intersection ts).chars = [' ', '&', ' '].intercalate (ts.map chars) := by
  rw [chars, text, texts_eq_map, toList_joinWith]
  rfl

end

/-! ## Reading back -/

section

variable {type : TypeReader SchemaType} {ts : List SchemaType} {t : SchemaType}

/-- Types in brackets are read. -/
theorem reads_bracketed (hne : ts ≠ []) (h : ∀ u ∈ ts, Reads type EndsType u.chars u) {c : Char}
    (hc : c ∈ [']', '>']) (rest : List Char) :
    joined [',', ' '] type ([',', ' '].intercalate (ts.map chars) ++ c :: rest) =
      some (ts, c :: rest) := by
  refine reads_joined (List.cons_ne_nil ',' [' '])
    (fun rest => endsType_cons (c := ',') (by decide) (' ' :: rest)) hne h (c :: rest)
    ⟨endsType_cons (List.mem_cons_of_mem _ (List.mem_cons_of_mem _ hc)) rest, ?_⟩
  rcases List.mem_cons.1 hc with rfl | hc
  · rfl
  · rw [List.mem_singleton.1 hc]
    rfl

/-- A word is read with the type arguments behind it. -/
theorem readSuffixed_applied {w : Script.Word} (hw : isLeafToken (.word w.text) = true)
    (ht : applied? w.text ts = some t) (hne : ts ≠ [])
    (h : ∀ u ∈ ts, Reads type EndsType u.chars u) (rest : List Char) :
    readSuffixed type
        (w.chars ++ '<' :: ([',', ' '].intercalate (ts.map chars) ++ ['>']) ++ rest) =
      some (readSuffixes t rest) := by
  have hargs := reads_bracketed hne h (c := '>') (by decide) rest
  have hleaf := readLeaf_word hw ('<' :: ([',', ' '].intercalate (ts.map chars) ++ '>' :: rest))
    (fun c hc => by
      rw [← Option.some.inj hc]
      decide)
  have hmark : ∀ cs, ('<' :: cs).dropPrefix? ['<'] = some cs := dropPrefix?_self ['<']
  have hclose : ('>' :: rest).dropPrefix? ['>'] = some rest := dropPrefix?_self ['>'] rest
  rw [List.append_assoc, List.cons_append, List.append_assoc, List.singleton_append]
  simp only [readSuffixed, readPrimary, hleaf, readApplied, hmark, hargs, hclose, ht,
    Option.bind_eq_bind, Option.bind_some, Option.map_some]

/-- A tuple is read. -/
theorem readSuffixed_tuple (hnone : ∀ rest, type (']' :: rest) = none)
    (h : ∀ u ∈ ts, Reads type EndsType u.chars u) (rest : List Char) :
    readSuffixed type ((tuple ts).chars ++ rest) = some (readSuffixes (.tuple ts) rest) := by
  have hleaf := readLeaf_mark (show '[' ∈ Script.loneChars by decide)
  have hclose : (']' :: rest).dropPrefix? [']'] = some rest := dropPrefix?_self [']'] rest
  have htuple : readTuple type ([',', ' '].intercalate (ts.map chars) ++ ']' :: rest) =
      some (.tuple ts, rest) := by
    cases ts with
    | nil =>
      have hitems : joined [',', ' '] type (']' :: rest) = none := joined_eq_none (hnone rest)
      rw [List.map_nil, List.intercalate_nil, List.nil_append, readTuple, hitems]
      simp only [hclose, Option.map_some]
    | cons u us =>
      have hitems := reads_bracketed (List.cons_ne_nil u us) h (c := ']') (by decide) rest
      rw [readTuple, hitems]
      simp only [hclose, Option.map_some]
  rw [chars_tuple, List.cons_append, List.append_assoc, List.singleton_append]
  simp only [readSuffixed, readPrimary, hleaf, htuple, Option.map_some]

/-- A member is read. -/
theorem reads_member {m : SchemaMember} (hkey : IsKey m.name)
    (h : Reads type EndsType m.type.chars m.type) :
    Reads (readMember type) EndsType (memberChars m) m := by
  obtain ⟨token, hname, hscan⟩ := hkey
  obtain ⟨name, optional, t⟩ := m
  intro rest hrest
  have hread := hscan ((if optional then ['?'] else []) ++ ([':', ' '] ++ (t.chars ++ rest))) (by
    cases optional with
    | true => exact fun c hc => .inl (Option.some.inj hc).symm
    | false => exact fun c hc => .inr (Option.some.inj hc).symm)
  rw [Script.Scans] at hread
  have hcolon := dropPrefix?_self [':', ' '] (t.chars ++ rest)
  rw [memberChars, List.append_assoc, List.append_assoc, List.append_assoc, readMember, hread]
  simp only [hname, Option.bind_eq_bind, Option.bind_some, List.drop_left]
  cases optional with
  | true =>
    have hquestion := dropPrefix?_self ['?'] ([':', ' '] ++ (t.chars ++ rest))
    simp only [if_true, hquestion, hcolon, Option.bind_some, h rest hrest]
  | false =>
    have hquestion : ([':', ' '] ++ (t.chars ++ rest)).dropPrefix? ['?'] = none := rfl
    simp only [Bool.false_eq_true, if_false, List.nil_append, hquestion, hcolon, Option.bind_some,
      h rest hrest]

/-- An object type is read from its braces on. -/
theorem readObject_chars {ms : List SchemaMember}
    (h : ∀ m ∈ ms, IsKey m.name ∧ Reads type EndsType m.type.chars m.type) (rest : List Char) :
    readObject type ((object ms).chars ++ rest) = some (.object ms, rest) := by
  cases ms with
  | nil =>
    have hempty : ((object []).chars ++ rest).dropPrefix? ['\x7b', '\x7d'] = some rest :=
      dropPrefix?_self ['\x7b', '\x7d'] rest
    rw [readObject, hempty]
  | cons m ms =>
    have hmembers := reads_joined (List.cons_ne_nil ';' [' '])
      (fun rest => endsType_cons (c := ';') (by decide) (' ' :: rest)) (List.cons_ne_nil m ms)
      (fun m hm => reads_member (h m hm).1 (h m hm).2) (' ' :: '\x7d' :: rest)
      ⟨endsType_brace rest, rfl⟩
    have hclose := dropPrefix?_self [' ', '\x7d'] rest
    have hopen := dropPrefix?_self ['\x7b', ' '] ([';', ' '].intercalate
      ((m :: ms).map memberChars) ++ (' ' :: '\x7d' :: rest))
    have hsome : ∀ cs : List Char,
        (['\x7b', ' '] ++ cs).dropPrefix? ['\x7b', '\x7d'] = none := fun _ => rfl
    rw [chars_object _ (List.cons_ne_nil m ms), List.append_assoc, List.append_assoc, readObject,
      hsome]
    simp only [List.cons_append, List.nil_append] at hopen hclose hmembers ⊢
    simp only [hopen, hmembers, hclose, Option.bind_eq_bind, Option.bind_some]

/-- An object type starts with a brace. -/
theorem exists_chars_object (ms : List SchemaMember) (rest : List Char) :
    ∃ cs, (object ms).chars ++ rest = '\x7b' :: cs := by
  cases ms with
  | nil => exact ⟨_, rfl⟩
  | cons m ms =>
    rw [chars_object _ (List.cons_ne_nil m ms)]
    exact ⟨_, rfl⟩

/-- An object type is read. -/
theorem readSuffixed_object {ms : List SchemaMember}
    (h : ∀ m ∈ ms, IsKey m.name ∧ Reads type EndsType m.type.chars m.type) (rest : List Char) :
    readSuffixed type ((object ms).chars ++ rest) = some (readSuffixes (.object ms) rest) := by
  have hleaf := readLeaf_mark (show '\x7b' ∈ Script.loneChars by decide)
  have hobject := readObject_chars h rest
  obtain ⟨cs, hcs⟩ := exists_chars_object ms rest
  rw [hcs] at hobject ⊢
  simp only [readSuffixed, readPrimary, hleaf, hobject]
  rfl

/-- Brackets are read as long as there are some. -/
theorem readSuffixes_of_ends {rest : List Char} (h : EndsSuffixed rest) :
    readSuffixes t rest = (t, rest) := by
  unfold readSuffixes
  split
  · exact (h.2 rfl).elim
  · rfl

/-- An intersection is read from its parts. -/
theorem reads_parts (hne : ts ≠ [])
    (h : ∀ u ∈ ts, Reads (readSuffixed type) EndsSuffixed u.chars u) :
    Reads (readParts type) EndsParts ([' ', '&', ' '].intercalate (ts.map chars))
      (collapse intersection ts) := by
  intro rest hrest
  have hparts := reads_joined (List.cons_ne_nil ' ' ['&', ' ']) endsSuffixed_and hne h rest hrest
  rw [readParts, hparts, Option.map_some]

/-- A union is read from its options. -/
theorem reads_options (hne : ts ≠ []) (h : ∀ u ∈ ts, Reads (readParts type) EndsParts u.chars u) :
    Reads (readOptions type) EndsType ([' ', '|', ' '].intercalate (ts.map chars))
      (collapse union ts) := by
  intro rest hrest
  have hoptions := reads_joined (List.cons_ne_nil ' ' ['|', ' ']) endsParts_or hne h rest hrest
  rw [readOptions, hoptions, Option.map_some]

/-- An operand is an intersection by itself. -/
theorem reads_part (h : Reads (readSuffixed type) EndsSuffixed t.chars t) :
    Reads (readParts type) EndsParts t.chars t := by
  have hone := reads_parts (List.cons_ne_nil t []) (List.forall_mem_singleton.2 h)
  rwa [List.map_singleton, List.intercalate_singleton] at hone

/-- An intersection is a union by itself. -/
theorem reads_option (h : Reads (readParts type) EndsParts t.chars t) :
    Reads (readOptions type) EndsType t.chars t := by
  have hone := reads_options (List.cons_ne_nil t []) (List.forall_mem_singleton.2 h)
  rwa [List.map_singleton, List.intercalate_singleton] at hone

/-- Several types make a new one. -/
theorem collapse_of_two_le {made : List SchemaType → SchemaType} (h : 2 ≤ ts.length) :
    collapse made ts = made ts := by
  unfold collapse
  split
  · exact absurd h (Nat.lt_irrefl 1)
  · rfl

end

/-- The type is neither a union nor an intersection. -/
def Tight (t : SchemaType) : Prop := ¬ t.IsUnion ∧ ¬ t.IsIntersection

/-- A type is read back from its characters, by the readers of all that it is. -/
structure ReadBack (t : SchemaType) : Prop where
  suffixed : t.Tight → ∀ {n rest}, t.chars.length ≤ n → SetApart rest →
    readSuffixed (readType n) (t.chars ++ rest) = some (readSuffixes t rest)
  parts : ¬ t.IsUnion → ∀ {n}, t.chars.length ≤ n →
    Reads (readParts (readType n)) EndsParts t.chars t
  whole : ∀ {n}, t.chars.length ≤ n → Reads (readType (n + 1)) EndsType t.chars t

namespace ReadBack

variable {t : SchemaType} {ts : List SchemaType}

/-- A type is read where it is nested. -/
theorem nested (h : t.ReadBack) {n : Nat} (hn : t.chars.length < n) :
    Reads (readType n) EndsType t.chars t := by
  obtain ⟨m, rfl⟩ := Nat.exists_eq_add_one.2 (Nat.zero_lt_of_lt hn)
  exact h.whole (Nat.le_of_lt_succ hn)

/-- An intersection that is not in brackets is read back if it is read as one. -/
theorem of_parts (ht : ¬ t.Tight)
    (h : ∀ {n}, t.chars.length ≤ n → Reads (readParts (readType n)) EndsParts t.chars t) :
    t.ReadBack where
  suffixed hsuffixed := (ht hsuffixed).elim
  parts _ _ hn := h hn
  whole hn := reads_option (h hn)

/-- A type in brackets of its own is read back if it is read as an operand. -/
theorem of_suffixed (h : ∀ {n rest}, t.chars.length ≤ n → SetApart rest →
    readSuffixed (readType n) (t.chars ++ rest) = some (readSuffixes t rest)) : t.ReadBack := by
  have hparts : ∀ {n}, t.chars.length ≤ n → Reads (readParts (readType n)) EndsParts t.chars t :=
    fun hn => reads_part fun rest hrest => by rw [h hn hrest.1, readSuffixes_of_ends hrest]
  exact ⟨fun _ _ _ => h, fun _ _ => hparts, fun hn => reads_option (hparts hn)⟩

/-- A leaf is read back. -/
theorem leaf {text : String} (h : IsLeaf text) : (leaf text).ReadBack := by
  refine of_suffixed fun {n rest} _ hrest => ?_
  have hleaf : readLeaf ((SchemaType.leaf text).chars ++ rest) = some (text, rest) :=
    readLeaf_of_isLeaf h hrest
  simp only [readSuffixed, readPrimary, hleaf, readApplied, hrest.not_applied, Option.map_some]

/-- An array of simple elements is read back, the element first and then the brackets. -/
theorem array (h : t.ReadBack) (ht : t.Tight) (hsimple : isSimpleElement t.text = true) :
    (array t).ReadBack := by
  refine of_suffixed fun {n rest} hn hrest => ?_
  rw [chars_array t hsimple] at hn ⊢
  rw [List.length_append] at hn
  have hbrackets : SetApart (['[', ']'] ++ rest) := setApart_cons (by decide) _
  rw [List.append_assoc, h.suffixed ht (Nat.le_of_add_right_le hn) hbrackets]
  rfl

/-- An array of elements that are not simple is read back. -/
theorem array_generic (h : t.ReadBack) (hsimple : ¬ isSimpleElement t.text = true) :
    (SchemaType.array t).ReadBack := by
  refine of_suffixed fun {n rest} hn _ => ?_
  rw [chars_array_generic t hsimple] at hn ⊢
  have hlength : t.chars.length < n := by
    rw [List.length_append, List.length_cons, List.length_append, List.map_singleton,
      List.intercalate_singleton] at hn
    omega
  exact readSuffixed_applied (w := ⟨'A', ['r', 'r', 'a', 'y'], by decide, by decide⟩) (by decide)
    rfl (List.cons_ne_nil t []) (List.forall_mem_singleton.2 (h.nested hlength)) rest

/-- A record is read back. -/
theorem record {u : SchemaType} (ht : t.ReadBack) (hu : u.ReadBack) : (record t u).ReadBack := by
  refine of_suffixed fun {n rest} hn _ => ?_
  rw [chars_record] at hn ⊢
  rw [List.length_append, List.length_cons, List.length_append] at hn
  have hlength : ∀ v ∈ [t, u], v.chars.length < n := fun v hv => by
    have hle := length_le_of_mem [',', ' '] (List.mem_map_of_mem (f := chars) hv)
    omega
  have hread : ∀ v ∈ [t, u], Reads (readType n) EndsType v.chars v := fun v hv =>
    nested (by
      rcases List.mem_pair.1 hv with rfl | rfl
      · exact ht
      · exact hu) (hlength v hv)
  exact readSuffixed_applied (w := ⟨'R', ['e', 'c', 'o', 'r', 'd'], by decide, by decide⟩)
    (by decide) rfl (List.cons_ne_nil t [u]) hread rest

/-- A tuple is read back. -/
theorem tuple (h : ∀ u ∈ ts, u.ReadBack) : (tuple ts).ReadBack := by
  refine of_suffixed fun {n rest} hn _ => ?_
  refine readSuffixed_tuple (fun rest => readType_bracket rest n) (fun u hu => ?_) rest
  refine (h u hu).nested (Nat.lt_of_lt_of_le ?_ hn)
  have hle := length_le_of_mem [',', ' '] (List.mem_map_of_mem (f := chars) hu)
  rw [chars_tuple, List.length_cons, List.length_append]
  omega

/-- An object type is read back. -/
theorem object {ms : List SchemaMember} (h : ∀ m ∈ ms, IsKey m.name ∧ m.type.ReadBack) :
    (object ms).ReadBack := by
  refine of_suffixed fun {n rest} hn _ => readSuffixed_object (fun m hm => ?_) rest
  refine ⟨(h m hm).1, (h m hm).2.nested (Nat.lt_of_lt_of_le ?_ hn)⟩
  have hle := length_le_of_mem [';', ' '] (List.mem_map_of_mem (f := memberChars) hm)
  have hmember : m.type.chars.length ≤ (memberChars m).length := by
    rw [memberChars, List.length_append, List.length_append, List.length_append]
    omega
  rw [chars_object _ (List.ne_nil_of_mem hm), List.length_append, List.length_append]
  rw [List.length_cons]
  omega

/-- An intersection is read back if none of its parts is a union. -/
theorem intersection (hlength : 2 ≤ ts.length) (h : ∀ u ∈ ts, u.ReadBack ∧ u.Tight) :
    (intersection ts).ReadBack := by
  refine of_parts (fun ht => ht.2 trivial) fun {n} hn => ?_
  rw [chars_intersection] at hn ⊢
  have hparts : Reads (readParts (readType n)) EndsParts ([' ', '&', ' '].intercalate
      (ts.map chars)) (collapse SchemaType.intersection ts) :=
    reads_parts (List.ne_nil_of_length_pos (by omega)) fun u hu rest hrest => by
      obtain ⟨hback, htight⟩ := h u hu
      have hle := length_le_of_mem [' ', '&', ' '] (List.mem_map_of_mem (f := chars) hu)
      rw [hback.suffixed htight (Nat.le_trans hle hn) hrest.1, readSuffixes_of_ends hrest]
  rwa [collapse_of_two_le hlength] at hparts

/-- A union is read back. -/
theorem union (hlength : 2 ≤ ts.length) (h : ∀ u ∈ ts, u.ReadBack ∧ ¬ u.IsUnion) :
    (union ts).ReadBack where
  suffixed ht := (ht.1 trivial).elim
  parts ht := (ht trivial).elim
  whole {n} hn := by
    rw [chars_union] at hn ⊢
    have hoptions : Reads (readOptions (readType n)) EndsType ([' ', '|', ' '].intercalate
        (ts.map chars)) (collapse SchemaType.union ts) :=
      reads_options (List.ne_nil_of_length_pos (by omega)) fun u hu => by
        obtain ⟨hback, hunion⟩ := h u hu
        have hle := length_le_of_mem [' ', '|', ' '] (List.mem_map_of_mem (f := chars) hu)
        exact hback.parts hunion (Nat.le_trans hle hn)
    rwa [collapse_of_two_le hlength] at hoptions

end ReadBack

/-- A mark stands between several items. -/
theorem mem_intercalate {c : Char} {mark : List Char} (hc : c ∈ mark) :
    ∀ {as : List (List Char)}, 2 ≤ as.length → c ∈ mark.intercalate as
  | a :: b :: as, _ => by
    rw [List.intercalate_cons_cons]
    exact List.mem_append_left _ (List.mem_append_right _ hc)

/-- A simple element is neither a union nor an intersection. -/
theorem tight_of_isSimpleElement {t : SchemaType} (h : t.IsProper)
    (hsimple : isSimpleElement t.text = true) : t.Tight := by
  have hblank : ' ' ∉ t.chars := fun hmem =>
    absurd (List.all_eq_true.1 hsimple ' ' hmem) (by decide)
  cases t with
  | union ts =>
    rw [chars_union] at hblank
    exact (hblank (mem_intercalate List.mem_cons_self (by rw [List.length_map]; exact h.1))).elim
  | intersection ts =>
    rw [chars_intersection] at hblank
    exact (hblank (mem_intercalate List.mem_cons_self (by rw [List.length_map]; exact h.1))).elim
  | leaf | array | tuple | record | object => exact ⟨id, id⟩

/-- A proper type that groups as it is written is read back. -/
theorem readBack {t : SchemaType} (h : t.Proper) (hgrouped : t.Grouped) : t.ReadBack := by
  induction t using induct with
  | h t ih =>
    obtain ⟨hproper, hinside⟩ := h
    obtain ⟨hhere, hparts⟩ := hgrouped
    have hback : ∀ u ∈ t.children, u.ReadBack := fun u hu => ih u hu (hinside u hu) (hparts u hu)
    cases t with
    | leaf text => exact .leaf hproper
    | array element =>
      have helement : element ∈ (array element).children := List.mem_singleton_self element
      by_cases hsimple : isSimpleElement element.text = true
      · exact (hback element helement).array
          (tight_of_isSimpleElement (hinside element helement).here hsimple) hsimple
      · exact (hback element helement).array_generic hsimple
    | tuple items => exact .tuple hback
    | record key value =>
      exact .record (hback key List.mem_cons_self)
        (hback value (List.mem_cons_of_mem _ (List.mem_singleton_self value)))
    | object members =>
      exact .object fun m hm => ⟨hproper m hm, hback m.type (List.mem_map_of_mem hm)⟩
    | union options => exact .union hproper.1 fun u hu => ⟨hback u hu, hproper.2 u hu⟩
    | intersection parts =>
      exact .intersection hproper.1 fun u hu => ⟨hback u hu, hhere parts rfl u hu, hproper.2 u hu⟩

/-- A proper type that groups as it is written is what is read from its text. -/
theorem parse_text {t : SchemaType} (h : t.Proper) (hgrouped : t.Grouped) :
    parse t.text = some t := by
  have hwhole := (readBack h hgrouped).whole (Nat.le_refl _) [] endsType_nil
  have hread : readType (t.text.length + 1) t.text.toList = some (t, []) := by
    rwa [List.append_nil, chars, String.length_toList] at hwhole
  rw [parse, hread, wholly]

end IpcWiring.SchemaType
