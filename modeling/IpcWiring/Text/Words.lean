import IpcWiring.Text.Grapheme
import IpcWiring.Text.LetterCase

/-!
# Words of a name

A name is cut into words at separators and where the letter case or the kind of character changes;
its Pascal form capitalizes each word and drops the separators.
-/

namespace IpcWiring.Text

/-- The first character upper-cased, the rest as it is. -/
def capitalizeChars : List Char → List Char
  | [] => []
  | c :: rest => upperChar c ++ rest

/-- The first character upper-cased, the rest as it is. -/
def capitalize (s : String) : String := String.ofList (capitalizeChars s.toList)

/-- A unit that has two case forms and is in the upper one. -/
def isUpperUnit (u : List Char) : Bool := toUpper u != toLower u && u == toUpper u

/-- A unit that has two case forms and is in the lower one. -/
def isLowerUnit (u : List Char) : Bool := toUpper u != toLower u && u == toLower u

/-- A unit of ASCII digits. -/
def isDigitUnit (u : List Char) : Bool := u.all Char.isDigit

/-- A unit that separates words and belongs to none. -/
def isSeparatorUnit (u : List Char) : Bool := u == ['_'] || u == ['-'] || u == [' ']

/-- A word ends after the first of these units: the case rises, a digit meets a letter, or the last
capital of a run starts a word of its own. -/
def endsWord : List (List Char) → Bool
  | a :: b :: rest =>
    (isLowerUnit a && isUpperUnit b) ||
    ((isLowerUnit a || isUpperUnit a) && isDigitUnit b) ||
    (isDigitUnit a && (isLowerUnit b || isUpperUnit b)) ||
    (isUpperUnit a && isUpperUnit b && (rest.head?.map isLowerUnit).getD false)
  | _ => false

/-- Cuts units into words; `current` is the open word, last unit first. -/
def cutWords (current : List (List Char)) : List (List Char) → List (List (List Char))
  | [] => [current.reverse]
  | u :: rest =>
    if isSeparatorUnit u then current.reverse :: cutWords [] rest
    else if endsWord (u :: rest) then (u :: current).reverse :: cutWords [] rest
    else cutWords (u :: current) rest

/-- The words of a name, none of them empty. -/
def words (name : List Char) : List (List Char) :=
  ((cutWords [] (clusters name)).map List.flatten).filter (!·.isEmpty)

/-- A word with its first character upper-cased and the rest lower-cased. -/
def capitalizeWord : List Char → List Char
  | [] => []
  | c :: rest => upperChar c ++ toLower rest

/-- The words of a name, capitalized and written together. -/
def pascal (name : String) : String :=
  String.ofList ((words name.toList).flatMap capitalizeWord)

end IpcWiring.Text
