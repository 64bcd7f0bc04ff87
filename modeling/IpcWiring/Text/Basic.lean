import IpcWiring.Text.CharRanges

/-!
# Basic operations on text

Blank characters and trimming, cutting a text at a separator, and replacing one text by another
everywhere. The recursions run over lists of characters; the functions on strings wrap them.
-/

namespace IpcWiring.Text

/-! ## Blank characters -/

/-- The characters with the Unicode property White_Space. -/
def blankRanges : CharRanges := [
  (0x9, 0xD), (0x20, 0x20), (0x85, 0x85), (0xA0, 0xA0), (0x1680, 0x1680), (0x2000, 0x200A),
  (0x2028, 0x2029), (0x202F, 0x202F), (0x205F, 0x205F), (0x3000, 0x3000)]

/-- A character of the Unicode property White_Space. -/
def isBlank (c : Char) : Bool := blankRanges.contains c

/-- Drops blank characters from the front. -/
def trimStartChars (s : List Char) : List Char := s.dropWhile isBlank

/-- Drops blank characters from the back. -/
def trimEndChars (s : List Char) : List Char := (s.reverse.dropWhile isBlank).reverse

/-- Drops blank characters from both ends. -/
def trimChars (s : List Char) : List Char := trimEndChars (trimStartChars s)

/-- Drops blank characters from both ends of a string. -/
def trim (s : String) : String := String.ofList (trimChars s.toList)

/-! ## Cutting and joining -/

/-- Cuts a list at every separator; there is one more piece than there are separators. -/
def cutAt {α : Type} [DecidableEq α] (sep : α) : List α → List (List α)
  | [] => [[]]
  | c :: rest =>
    if c = sep then [] :: cutAt sep rest
    else match cutAt sep rest with
      | [] => [[c]]
      | piece :: pieces => (c :: piece) :: pieces

/-- Cuts a string at every separator. -/
def splitOn (sep : Char) (s : String) : List String :=
  (cutAt sep s.toList).map String.ofList

/-- The strings one after another with `sep` between neighbours. -/
def joinWith (sep : String) (pieces : List String) : String :=
  String.intercalate sep pieces

/-- What stands before and after the last separator. -/
def splitAtLast? (sep : Char) (s : String) : Option (String × String) :=
  let back := s.toList.reverse
  let after := back.takeWhile (· ≠ sep)
  match back.drop after.length with
  | [] => none
  | _ :: before => some (String.ofList before.reverse, String.ofList after.reverse)

/-- What stands before `ending` in a text that ends in it. -/
def dropEnding? (ending s : String) : Option String :=
  if ending.toList.isSuffixOf s.toList then
    some (String.ofList (s.toList.take (s.toList.length - ending.toList.length)))
  else none

/-- What stands after `start` in a text that starts with it. -/
def dropStart? (start s : String) : Option String :=
  if start.toList.isPrefixOf s.toList then
    some (String.ofList (s.toList.drop start.toList.length))
  else none

/-- The text starts with `start`. -/
def startsWith (start s : String) : Bool := start.toList.isPrefixOf s.toList

/-- The text ends in `ending`. -/
def endsWith (ending s : String) : Bool := ending.toList.isSuffixOf s.toList

/-! ## Replacing -/

/-- Replaces every occurrence of `pattern`, from left to right and without overlaps. The first
`skip` characters belong to an occurrence that was already replaced. -/
def replaceChars (pattern replacement : List Char) (skip : Nat) : List Char → List Char
  | [] => []
  | c :: rest =>
    match skip with
    | n + 1 => replaceChars pattern replacement n rest
    | 0 =>
      if pattern.isPrefixOf (c :: rest) then
        replacement ++ replaceChars pattern replacement (pattern.length - 1) rest
      else c :: replaceChars pattern replacement 0 rest

/-- Replaces every occurrence of a non-empty pattern in a string. -/
def replaceAll (pattern replacement s : String) : String :=
  String.ofList (replaceChars pattern.toList replacement.toList 0 s.toList)

/-! ## Order -/

/-- Strings ordered by code point, which is also the order of their UTF-8 bytes. -/
def le (a b : String) : Bool := !(b < a)

/-- Sorts strings by code point and keeps one of each. -/
def sortDistinct (names : List String) : List String :=
  (names.mergeSort le).eraseReps

end IpcWiring.Text
