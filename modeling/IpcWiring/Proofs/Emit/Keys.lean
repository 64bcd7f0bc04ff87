import IpcWiring.Proofs.Emit.Identifiers
import IpcWiring.Proofs.Schema.Reading
import IpcWiring.Proofs.Script.Strings

/-!
# Keys and members that are read back

A property is written as a key in the type of a request and in an object type of a schema, and as a
member of the argument bag. Each is read back by tokens: a key is a word or a string, and a member
is a word behind a dot or a string in brackets. The names that are read back are those on one line,
and among the names of the form of an identifier those that are words (`IsReadable`). The key of an
object type has no backslash in front of those in the name, so it is read back only if there are
none (`readKey_propertyKey`).
-/

namespace IpcWiring.Emit

open Script (Token Apart Scans scanToken stringBody? scanToken_quote escapedChar quoteEscapedChar
  replaceChars_singleton toList_quoteName stringBody?_escapedChar count_quoteEscapedChar
  flatMap_quoteEscapedChar)
open SchemaType (keyName?)
open Text (startsIdentifier continuesIdentifier isIdentifier replaceChars)

/-! ## Readers -/

section

variable {α : Type}

/-- Reads one token that has a value, with what is left behind it. -/
def readToken (value? : Token → Option α) (cs : List Char) : Option (α × List Char) :=
  (value? (scanToken cs).1).map fun a => (a, cs.drop (scanToken cs).2)

end

/-- The text of a word. -/
def wordText? : Token → Option String
  | .word w => some w
  | _ => none

/-- The value of a string. -/
def stringText? : Token → Option String
  | .string value => some value
  | _ => none

/-- The text of a mark. -/
def markText? : Token → Option String
  | .mark text => some text
  | _ => none

/-- Reads the key of a property. -/
def readKey : List Char → Option (String × List Char) := readToken keyName?

/-- Reads an object and the name of a member behind it, which is a word behind a dot or a string in
brackets. -/
def readMember (cs : List Char) : Option ((String × String) × List Char) := do
  let (object, cs) ← readToken wordText? cs
  let (opening, cs) ← readToken markText? cs
  if opening == "." then
    let (name, cs) ← readToken wordText? cs
    return ((object, name), cs)
  else if opening == "[" then
    let (name, cs) ← readToken stringText? cs
    let (closing, cs) ← readToken markText? cs
    if closing == "]" then return ((object, name), cs) else none
  else none

/-- What follows a key. -/
def FollowsKey (rest : List Char) : Prop := ∀ c ∈ rest.head?, c ∈ ['?', ':']

/-- What follows a member. -/
def FollowsMember (rest : List Char) : Prop := ∀ c ∈ rest.head?, c ∈ [',', ')', ' ']

/-! ## Names that can be read back -/

/-- The name has no line break. -/
def isOneLine (name : String) : Bool := name.toList.all fun c => c != '\n' && c != '\r'

/-- The name is a word if it has the form of an identifier, and else on one line. -/
def IsReadable (name : String) : Prop :=
  if isIdentifier name then IsWord name else isOneLine name = true

instance (name : String) : Decidable (IsReadable name) :=
  inferInstanceAs (Decidable (if isIdentifier name then IsWord name else isOneLine name = true))

section

variable {name other : String} {rest : List Char}

/-- A reserved word is a word of the form of an identifier. -/
theorem reservedWords_spec (h : name ∈ reservedWords) :
    isIdentifier name = true ∧ IsWord name ∧ isOneLine name = true := by
  have hall : ∀ word ∈ reservedWords,
      isIdentifier word = true ∧ IsWord word ∧ isOneLine word = true := by decide +kernel
  exact hall name h

/-- The key of a field is quoted if it has not the form of an identifier. -/
theorem fieldKey_eq (name : String) :
    fieldKey name = if isIdentifier name then name else quoted name := by
  rw [fieldKey, isBindingName]
  by_cases hreserved : name ∈ reservedWords
  · simp [hreserved, (reservedWords_spec hreserved).1]
  · simp [hreserved]

end

/-! ## Names in quotes -/

/-- The characters of a name in quotes. -/
theorem toList_quoted (name : String) :
    (quoted name).toList = '\'' :: (name.toList.flatMap escapedChar ++ ['\'']) := by
  have hchar : ∀ c, (if c = '\\' then ['\\', '\\'] else [c]).flatMap quoteEscapedChar =
      escapedChar c := by
    intro c
    by_cases hslash : c = '\\'
    · rw [hslash]
      rfl
    · by_cases hquote : c = '\'' <;> simp [escapedChar, quoteEscapedChar, hslash, hquote]
  have hchars : replaceChars ['\''] ['\\', '\''] 0
      (replaceChars ['\\'] ['\\', '\\'] 0 name.toList) = name.toList.flatMap escapedChar := by
    rw [replaceChars_singleton, replaceChars_singleton]
    exact List.flatMap_assoc.trans (List.flatMap_congr fun c _ => hchar c)
  rw [quoted, Text.replaceAll, Text.replaceAll]
  simp [hchars]

/-- A name in quotes is a string if it is on one line, and else no token at all. -/
theorem scanToken_quoted (name : String) (rest : List Char) :
    scanToken ((quoted name).toList ++ rest) =
      if isOneLine name then (.string name, (quoted name).toList.length) else (.stop, 0) := by
  have hchars : (quoted name).toList ++ rest =
      '\'' :: (name.toList.flatMap escapedChar ++ '\'' :: rest) := by
    simp [toList_quoted]
  have hlength :
      (quoted name).toList.length = (name.toList.flatMap escapedChar).length + 1 + 1 := by
    simp [toList_quoted]
  rw [hchars, hlength, scanToken_quote, stringBody?_escapedChar, isOneLine]
  cases name.toList.all fun c => c != '\n' && c != '\r' with
  | true =>
    simp only [if_true, String.ofList_toList]
  | false => rfl

/-! ## Tokens that are read -/

section

variable {α : Type} {value? : Token → Option α} {a : α} {token : Token} {name other : String}
  {cs rest : List Char}

/-- Only a word has the text of one. -/
theorem wordText?_eq_some : wordText? token = some name ↔ token = .word name := by
  cases token <;> simp [wordText?]

/-- The form of an identifier. -/
theorem isIdentifier_iff : isIdentifier name = true ↔ ∃ c cs, name.toList = c :: cs ∧
    startsIdentifier c = true ∧ ∀ d ∈ cs, continuesIdentifier d = true := by
  rw [isIdentifier]
  cases name.toList with
  | nil => simp
  | cons c cs => simp

/-- A token is read off its text. -/
theorem readToken_of_scans (h : Scans cs rest token) :
    readToken value? (cs ++ rest) = (value? token).map (·, rest) := by
  rw [readToken, h]
  simp only [List.drop_left]

/-- A name in quotes is read if it is on one line. -/
theorem readToken_quoted (hstop : value? .stop = none) :
    readToken value? ((quoted name).toList ++ rest) =
      if isOneLine name then (value? (.string name)).map (·, rest) else none := by
  cases hline : isOneLine name with
  | true =>
    refine readToken_of_scans ?_
    rw [Scans, scanToken_quoted, if_pos hline]
  | false =>
    rw [readToken, scanToken_quoted, hline]
    simp [hstop]

/-- A word is read where it is set apart, and nothing else is read as one. -/
theorem readToken_word (hrest : Apart rest) :
    readToken wordText? (name.toList ++ rest) = some (other, rest) ↔
      other = name ∧ IsWord name := by
  constructor
  · intro h
    obtain ⟨w, hvalue, heq⟩ := Option.map_eq_some_iff.1 h
    obtain ⟨rfl, hdrop⟩ := Prod.mk.inj heq
    have hscan : scanToken (name.toList ++ rest) =
        (.word w, (scanToken (name.toList ++ rest)).2) :=
      Prod.ext (wordText?_eq_some.1 hvalue) rfl
    obtain ⟨-, hchars, hword⟩ := Script.scanToken_eq_word hscan
    rw [hdrop] at hchars
    obtain rfl := String.toList_inj.1 (List.append_cancel_right hchars)
    exact ⟨rfl, hword⟩
  · rintro ⟨rfl, w, rfl⟩
    have hscan : Scans w.text.toList rest (.word w.text) := by
      rw [Scans, Script.Word.text, String.toList_ofList]
      exact Script.scanToken_word w hrest
    exact readToken_of_scans hscan

/-- A name of the form of an identifier is read as a key if it is read as a word. -/
theorem readKey_of_isIdentifier (h : isIdentifier name = true) (rest : List Char) :
    readKey (name.toList ++ rest) = readToken wordText? (name.toList ++ rest) := by
  obtain ⟨c, cs, hchars, hstarts, -⟩ := isIdentifier_iff.1 h
  have hquote : ¬ (c == '"' || c == '\'') = true := by
    intro hquote
    rw [Bool.or_eq_true, beq_iff_eq, beq_iff_eq] at hquote
    rcases hquote with rfl | rfl <;> revert hstarts <;> decide
  have hvalue : keyName? (scanToken (name.toList ++ rest)).1 =
      wordText? (scanToken (name.toList ++ rest)).1 := by
    rw [hchars, List.cons_append]
    have hne : ∀ value, (scanToken (c :: (cs ++ rest))).1 ≠ .string value :=
      Script.scanToken_ne_string hquote
    cases htoken : (scanToken (c :: (cs ++ rest))).1 with
    | string value => exact (hne value htoken).elim
    | _ => rfl
  rw [readKey, readToken, hvalue]
  rfl

/-- No word goes on behind characters that continue none. -/
theorem apart_of_head? {followers : List Char} (h : ∀ c ∈ rest.head?, c ∈ followers)
    (hall : followers.all (fun c => !Script.continuesName c && c != '\\') = true) :
    Apart rest := by
  intro c hc
  have hfollows := List.all_eq_true.1 hall c (h c hc)
  rwa [Bool.and_eq_true, Bool.not_eq_true', bne_iff_ne] at hfollows

/-- The key of a field is read as its name if that is readable, and never as another. -/
theorem readKey_fieldKey (hrest : FollowsKey rest) :
    readKey ((fieldKey name).toList ++ rest) = some (other, rest) ↔
      other = name ∧ IsReadable name := by
  rw [fieldKey_eq, IsReadable]
  by_cases hname : isIdentifier name = true
  · rw [if_pos hname, if_pos hname, readKey_of_isIdentifier hname]
    exact readToken_word (apart_of_head? hrest (by decide))
  · rw [if_neg hname, if_neg hname, readKey, readToken_quoted rfl]
    cases isOneLine name with
    | true => simp [keyName?, eq_comm]
    | false => simp

end

/-! ## Members -/

section

variable {name other : String} {rest : List Char} {object : Script.Word}

/-- A mark that goes on with nothing is read. -/
theorem readToken_mark {c : Char} (hc : c ∈ Script.loneChars) (rest : List Char) :
    readToken markText? (c :: rest) = some (String.ofList [c], rest) := by
  have hscan : Scans [c] rest (.mark (String.ofList [c])) := Script.scanToken_lone hc rest
  exact readToken_of_scans hscan

/-- A digit starts no identifier. -/
theorem startsIdentifier_of_isDigit {c : Char} (h : c.isDigit = true) :
    startsIdentifier c = false := by
  obtain ⟨hlo, hhi⟩ : 0x30 ≤ c.toNat ∧ c.toNat ≤ 0x39 := Char.isDigit_iff_toNat.1 h
  have hletter : Text.isAlphabetic c = false :=
    Text.CharRanges.containsCode_of_avoids (by rfl) hlo hhi
  have hne : ∀ d : Char, 0x39 < d.toNat ∨ d.toNat < 0x30 → (c == d) = false := by
    intro d hd
    refine beq_eq_false_iff_ne.2 ?_
    rintro rfl
    omega
  rw [startsIdentifier, hletter, hne '_' (by decide), hne '$' (by decide)]
  rfl

/-- A dot is read in front of a name. -/
theorem readToken_dot (hname : isIdentifier name = true) (rest : List Char) :
    readToken markText? ('.' :: (name.toList ++ rest)) = some (".", name.toList ++ rest) := by
  obtain ⟨c, cs, hchars, hstarts, -⟩ := isIdentifier_iff.1 hname
  have hdigit : c.isDigit = false := by
    cases hdigit : c.isDigit with
    | false => rfl
    | true =>
      rw [startsIdentifier_of_isDigit hdigit] at hstarts
      cases hstarts
  have hcalm : Script.Calm (c :: (cs ++ rest)) := by
    intro d hd hmem
    have hall : Script.secondChars.all (!startsIdentifier ·) = true := by decide
    have hnot := List.all_eq_true.1 hall d hmem
    rw [← Option.some.inj hd, hstarts] at hnot
    cases hnot
  have hmark := Script.markOf?_lone (c := '.') (by decide) (hcalm.lone '.')
  have hscan : Scans ['.'] (c :: (cs ++ rest)) (.mark ".") := by
    have hlength : ".".length = 1 := rfl
    rw [Scans]
    simp [scanToken, hdigit, hmark, hlength, show Script.startsName '.' = false by decide]
  rw [hchars]
  exact readToken_of_scans hscan

/-- An object is read in front of a mark. -/
theorem readToken_object (object : Script.Word) {c : Char}
    (hc : Script.continuesName c = false ∧ c ≠ '\\') (rest : List Char) :
    readToken wordText? (object.text.toList ++ c :: rest) = some (object.text, c :: rest) := by
  refine (readToken_word fun d hd => ?_).2 ⟨rfl, object, rfl⟩
  rwa [← Option.some.inj hd]

/-- A member behind a dot is read as what is read as a word. -/
theorem readMember_dot (hname : isIdentifier name = true) :
    readMember (object.text.toList ++ '.' :: (name.toList ++ rest)) =
      (readToken wordText? (name.toList ++ rest)).map fun (name, left) =>
        ((object.text, name), left) := by
  have hobject := readToken_object object (c := '.') (by decide) (name.toList ++ rest)
  rw [readMember, hobject]
  simp only [readToken_dot hname, Option.bind_eq_bind, Option.bind_some, beq_self_eq_true, if_true]
  rw [Option.map_eq_bind]
  rfl

/-- A member in brackets is read if its name is on one line. -/
theorem readMember_brackets (name : String) :
    readMember (object.text.toList ++ '[' :: ((quoted name).toList ++ ']' :: rest)) =
      if isOneLine name then some ((object.text, name), rest) else none := by
  have hobject := readToken_object object (c := '[') (by decide)
    ((quoted name).toList ++ ']' :: rest)
  have hopening : readToken markText? ('[' :: ((quoted name).toList ++ ']' :: rest)) =
      some ("[", (quoted name).toList ++ ']' :: rest) := readToken_mark (by decide) _
  have hclosing : readToken markText? (']' :: rest) = some ("]", rest) :=
    readToken_mark (by decide) rest
  have hname : readToken stringText? ((quoted name).toList ++ ']' :: rest) = _ :=
    readToken_quoted rfl
  have hne : ("[" == ".") = false := by decide
  rw [readMember, hobject]
  simp only [hopening, hname, hne, Option.bind_eq_bind, Option.bind_some, beq_self_eq_true, if_true,
    Bool.false_eq_true, if_false]
  cases isOneLine name with
  | true => simp [stringText?, hclosing]
  | false => rfl

/-- A name that is not that of a binding is readable if it is on one line. -/
theorem isReadable_of_not_isBindingName (h : ¬ isBindingName name = true) :
    IsReadable name ↔ isOneLine name = true := by
  rw [IsReadable]
  by_cases hname : isIdentifier name = true
  · have hreserved : name ∈ reservedWords := by
      rw [isBindingName, hname, Bool.true_and, Bool.not_eq_true', Bool.not_eq_false,
        List.contains_iff_mem] at h
      exact h
    rw [if_pos hname]
    exact iff_of_true (reservedWords_spec hreserved).2.1 (reservedWords_spec hreserved).2.2
  · rw [if_neg hname]

/-- A member is read as its name if that is readable, and never as another. -/
theorem readMember_memberOf (hrest : FollowsMember rest) :
    readMember ((memberOf object.text name).toList ++ rest) = some ((object.text, other), rest) ↔
      other = name ∧ IsReadable name := by
  rw [memberOf]
  by_cases hbinding : isBindingName name = true
  · have hname : isIdentifier name = true := (Bool.and_eq_true_iff.1 hbinding).1
    have hchars : (object.text ++ "." ++ name).toList ++ rest =
        object.text.toList ++ '.' :: (name.toList ++ rest) := by simp
    have hapart : Apart rest := apart_of_head? hrest (by decide)
    rw [if_pos hbinding, IsReadable, if_pos hname, hchars, readMember_dot hname,
      ← readToken_word hapart]
    cases readToken wordText? (name.toList ++ rest) with
    | none => simp
    | some read => simp [Prod.ext_iff]
  · have hchars : (object.text ++ "[" ++ quoted name ++ "]").toList ++ rest =
        object.text.toList ++ '[' :: ((quoted name).toList ++ ']' :: rest) := by simp
    rw [if_neg hbinding, isReadable_of_not_isBindingName hbinding, hchars, readMember_brackets]
    cases isOneLine name with
    | true => simp [eq_comm]
    | false => simp

end

/-! ## Keys of object types -/

section

variable {name : String} {rest : List Char}

/-- A name with a backslash is not read back from the quotes of an object type: each backslash that
was put there stands before a quote, so the others make the string shorter. -/
theorem notMem_of_readKey_quoteName
    (h : readKey ((Text.quoteName name).toList ++ rest) = some (name, rest)) :
    '\\' ∉ name.toList := by
  have hchars : (Text.quoteName name).toList ++ rest =
      '\'' :: (name.toList.flatMap quoteEscapedChar ++ '\'' :: rest) := by
    simp [toList_quoteName]
  obtain ⟨value, hvalue, heq⟩ := Option.map_eq_some_iff.1 h
  obtain ⟨hname, hdrop⟩ := Prod.mk.inj heq
  rw [hchars, scanToken_quote] at hvalue hdrop
  cases hbody : stringBody? '\'' 0 (name.toList.flatMap quoteEscapedChar ++ '\'' :: rest) with
  | none =>
    rw [hbody] at hvalue
    cases hvalue
  | some read =>
    obtain ⟨chars, n⟩ := read
    rw [hbody] at hvalue hdrop
    obtain ⟨body, left, hsplit, rfl, -, hall⟩ := Script.stringBody?_length hbody
    obtain rfl : left = rest := by
      rw [← hdrop, hsplit]
      simp
    obtain rfl : name.toList.flatMap quoteEscapedChar = body := List.append_cancel_right hsplit
    have hread : chars = name.toList := by
      rw [← hname, ← Option.some.inj hvalue, String.toList_ofList]
    obtain ⟨hlength, hquotes, hslashes⟩ := count_quoteEscapedChar name.toList
    rw [hread, hlength, hquotes, hslashes] at hall
    have hnone := hall rfl
    exact List.count_eq_zero.1 (by omega)

/-- Without backslashes in the name the key of an object type is that of a field. -/
theorem propertyKey_eq_fieldKey (h : '\\' ∉ name.toList) :
    Text.propertyKey name = fieldKey name := by
  have hquoted : Text.quoteName name = quoted name := by
    rw [← String.toList_inj, toList_quoteName, toList_quoted, flatMap_quoteEscapedChar h]
  rw [fieldKey_eq, Text.propertyKey, hquoted]

/-- A name of the form of an identifier has no backslash. -/
theorem notMem_of_isIdentifier (h : isIdentifier name = true) : '\\' ∉ name.toList := by
  obtain ⟨c, cs, hchars, hstarts, hcontinues⟩ := isIdentifier_iff.1 h
  rw [hchars]
  refine List.not_mem_cons_of_ne_of_not_mem ?_ fun hmem => ?_
  · rintro rfl
    revert hstarts
    decide
  · have hslash := hcontinues _ hmem
    revert hslash
    decide

/-- The key of an object type is read as its name just if that is readable and has no backslash. -/
theorem readKey_propertyKey (hrest : FollowsKey rest) :
    readKey ((Text.propertyKey name).toList ++ rest) = some (name, rest) ↔
      IsReadable name ∧ '\\' ∉ name.toList := by
  have hkey (hslash : '\\' ∉ name.toList) :
      readKey ((Text.propertyKey name).toList ++ rest) = some (name, rest) ↔ IsReadable name := by
    rw [propertyKey_eq_fieldKey hslash, readKey_fieldKey hrest, eq_self, true_and]
  refine ⟨fun h => ?_, fun h => (hkey h.2).2 h.1⟩
  have hslash : '\\' ∉ name.toList := by
    by_cases hname : isIdentifier name = true
    · exact notMem_of_isIdentifier hname
    · rw [Text.propertyKey, if_neg hname] at h
      exact notMem_of_readKey_quoteName h
  exact ⟨(hkey hslash).1 h, hslash⟩

-- with a backslash another name can be read, here by an escape for a line break
example : readKey ((Text.propertyKey "a\\nb").toList ++ [':']) = some ("a\nb", [':']) := by decide

/-- The three ways that the name of a property is written are read as that name, in each place, just
if the name is readable, and in an object type if it has no backslash besides. As the key of a field
or as a member it is never read as another name. -/
theorem keys_read_back (object : Script.Word) (name : String) :
    (∀ rest other, FollowsKey rest →
      (readKey ((fieldKey name).toList ++ rest) = some (other, rest) ↔
        other = name ∧ IsReadable name)) ∧
    (∀ rest other, FollowsMember rest →
      (readMember ((memberOf object.text name).toList ++ rest) =
          some ((object.text, other), rest) ↔ other = name ∧ IsReadable name)) ∧
    ∀ rest, FollowsKey rest →
      (readKey ((Text.propertyKey name).toList ++ rest) = some (name, rest) ↔
        IsReadable name ∧ '\\' ∉ name.toList) :=
  ⟨fun _ _ hrest => readKey_fieldKey hrest, fun _ _ hrest => readMember_memberOf hrest,
    fun _ hrest => readKey_propertyKey hrest⟩

/-- A name that ends in a backslash is read back as the key of a field and as a member, but not as
the key of an object type. -/
theorem keys_read_back_backslash :
    readKey ((fieldKey "k\\").toList ++ [':']) = some ("k\\", [':']) ∧
      readMember ((memberOf "args" "k\\").toList ++ [',']) = some (("args", "k\\"), [',']) ∧
      readKey ((Text.propertyKey "k\\").toList ++ [':']) ≠ some ("k\\", [':']) := by
  obtain ⟨hkey, hmember, hproperty⟩ :=
    keys_read_back ⟨'a', ['r', 'g', 's'], by decide, by decide⟩ "k\\"
  have hreadable : IsReadable "k\\" := by decide +kernel
  have hcolon : FollowsKey [':'] := TypeText.forall_head?_cons (by decide)
  have hcomma : FollowsMember [','] := TypeText.forall_head?_cons (by decide)
  refine ⟨(hkey [':'] _ hcolon).2 ⟨rfl, hreadable⟩, (hmember [','] _ hcomma).2 ⟨rfl, hreadable⟩,
    fun h => ?_⟩
  have hslash := ((hproperty [':'] hcolon).1 h).2
  exact hslash (by decide)

end

end IpcWiring.Emit
