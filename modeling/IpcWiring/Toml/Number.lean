import IpcWiring.Text.Basic
import IpcWiring.Toml.Value

/-!
# Bare TOML values

Truth values, numbers and dates are written without quotes. Each kind is told by the characters of
the whole word.
-/

namespace IpcWiring.Toml

open Text

/-! ## Digits -/

/-- The digits of a text in which single underscores stand between digits. -/
def groupedDigits? (isDigit : Char → Bool) (s : List Char) : Option (List Char) :=
  let groups := cutAt '_' s
  if groups.all (fun g => !g.isEmpty && g.all isDigit) then some groups.flatten else none

/-- The value of a digit, letters counting from ten. -/
def digitValue (c : Char) : Nat :=
  if c.isDigit then c.toNat - '0'.toNat else 10 + (c.toLower.toNat - 'a'.toNat)

/-- The number that digits stand for. -/
def numeral (base : Nat) (digits : List Char) : Nat :=
  digits.foldl (fun n c => n * base + digitValue c) 0

/-- A digit below sixteen. -/
def isHexDigit (c : Char) : Bool :=
  c.isDigit || ('a' ≤ c && c ≤ 'f') || ('A' ≤ c && c ≤ 'F')

/-- Cuts a sign from a text; no sign is a plus. -/
def cutSign : List Char → Bool × List Char
  | '-' :: rest => (true, rest)
  | '+' :: rest => (false, rest)
  | s => (false, s)

/-! ## Numbers -/

/-- The number without a sign: a leading zero stands alone. -/
def decimal? (s : List Char) : Option Nat := do
  let digits ← groupedDigits? Char.isDigit s
  if digits.head? == some '0' && digits.length != 1 then none else some (numeral 10 digits)

/-- A whole number; the other bases than ten have a letter for a mark and no sign. -/
def integer? (s : List Char) : Option Int :=
  match s with
  | '0' :: 'x' :: rest => (groupedDigits? isHexDigit rest).map fun ds => numeral 16 ds
  | '0' :: 'o' :: rest =>
    (groupedDigits? (fun c => '0' ≤ c && c ≤ '7') rest).map fun ds => numeral 8 ds
  | '0' :: 'b' :: rest =>
    (groupedDigits? (fun c => c == '0' || c == '1') rest).map fun ds => numeral 2 ds
  | _ =>
    let (negative, rest) := cutSign s
    (decimal? rest).map fun n => if negative then -(n : Int) else n

/-- The part behind the mark of an exponent. -/
def isExponent (s : List Char) : Bool := (groupedDigits? Char.isDigit (cutSign s).2).isSome

/-- A number with a fraction, an exponent or both. -/
def isFraction (s : List Char) : Bool :=
  let s := (cutSign s).2
  let mantissa := s.takeWhile fun c => c != 'e' && c != 'E'
  let exponent := (s.drop mantissa.length).drop 1
  let hasExponent := mantissa.length < s.length
  let whole := mantissa.takeWhile (· != '.')
  let fraction := (mantissa.drop whole.length).drop 1
  let hasFraction := whole.length < mantissa.length
  (hasExponent || hasFraction) && (decimal? whole).isSome &&
    (!hasFraction || (groupedDigits? Char.isDigit fraction).isSome) &&
    (!hasExponent || isExponent exponent)

/-- A number that need not be whole. -/
def isFloat (s : List Char) : Bool :=
  let word := String.ofList (cutSign s).2
  word == "inf" || word == "nan" || isFraction s

/-! ## Dates -/

/-- The number that some digits stand for, if they are all digits. -/
def plainNumber? (s : List Char) : Option Nat :=
  if s.all Char.isDigit then some (numeral 10 s) else none

/-- How many days a month has. -/
def daysIn (year month : Nat) : Nat :=
  if month = 2 then
    if year % 4 = 0 && (year % 100 != 0 || year % 400 = 0) then 29 else 28
  else if [4, 6, 9, 11].contains month then 30
  else 31

/-- The day of a calendar. -/
def isDay (year month day : List Char) : Bool :=
  match plainNumber? year, plainNumber? month, plainNumber? day with
  | some y, some m, some d => 1 ≤ m && m ≤ 12 && 1 ≤ d && d ≤ daysIn y m
  | _, _, _ => false

/-- Two digits that stand for a number up to `limit`. -/
def isUpTo (limit : Nat) (a b : Char) : Bool :=
  match plainNumber? [a, b] with
  | some n => n ≤ limit
  | none => false

/-- The fraction of a second, if any. -/
def cutFraction? : List Char → Option (List Char)
  | '.' :: rest =>
    if (rest.head?.map Char.isDigit).getD false then some (rest.dropWhile Char.isDigit) else none
  | s => some s

/-- What is left behind a time of day, whose seconds can be left out. -/
def cutTime? : List Char → Option (List Char)
  | h :: h' :: ':' :: m :: m' :: rest =>
    if isUpTo 23 h h' && isUpTo 59 m m' then
      match rest with
      | ':' :: s :: s' :: rest => if isUpTo 60 s s' then cutFraction? rest else none
      | ':' :: _ => none
      | _ => some rest
    else none
  | _ => none

/-- How far local time is from universal time. -/
def isOffset : List Char → Bool
  | ['Z'] | ['z'] => true
  | [sign, h, h', ':', m, m'] => (sign == '+' || sign == '-') && isUpTo 23 h h' && isUpTo 59 m m'
  | _ => false

/-- What is left behind a day. -/
def cutDay? : List Char → Option (List Char)
  | y :: y' :: y'' :: y''' :: '-' :: m :: m' :: '-' :: d :: d' :: rest =>
    if isDay [y, y', y'', y'''] [m, m'] [d, d'] then some rest else none
  | _ => none

/-- A day, a time of day, or both, in which case an offset can follow. -/
def isDate (s : List Char) : Bool :=
  match cutDay? s with
  | some [] => true
  | some (mark :: time) =>
    (mark == 'T' || mark == 't' || mark == ' ') &&
      match cutTime? time with
      | some rest => rest.isEmpty || isOffset rest
      | none => false
  | none => cutTime? s == some []

/-! ## Words -/

/-- The numbers that can be told apart from others: those that 128 bits can hold. -/
def isRepresentable (n : Int) : Bool := -(Nat.pow 2 127 : Int) ≤ n && n < (Nat.pow 2 128 : Int)

/-- The value of a word without quotes. -/
def word? (s : List Char) : Option Value :=
  let text := String.ofList s
  if text == "true" then some (.boolean true)
  else if text == "false" then some (.boolean false)
  else match integer? s with
    | some n => if isRepresentable n then some (.integer n) else none
    | none =>
      if isFloat s then some (.float text)
      else if isDate s then some (.date text)
      else none

end IpcWiring.Toml
