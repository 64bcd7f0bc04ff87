/-!
# Numbers as property names

A number that names a property stands for its decimal form. Its value is the double nearest to
what is written, and its form has the fewest digits that read back as that double; it is positional
from `1e-6` up to `1e21` and in exponent notation outside.
-/

namespace IpcWiring.Script

/-! ## Reading -/

/-- The value of a digit of a base up to sixteen. -/
def digitValue (c : Char) : Nat :=
  if c.isDigit then c.toNat - '0'.toNat
  else if 'a' ≤ c && c ≤ 'f' then c.toNat - 'a'.toNat + 10
  else if 'A' ≤ c && c ≤ 'F' then c.toNat - 'A'.toNat + 10
  else 0

/-- The value of digits in a base. -/
def digitsValue (base : Nat) (digits : List Char) : Nat :=
  digits.foldl (fun n c => n * base + digitValue c) 0

/-- The value of decimal digits with a fraction and an exponent, as a quotient. An exponent that
outweighs all digits counts as one that is just large enough to do so. -/
def decimalValue (s : List Char) : Nat × Nat :=
  let mantissa := s.takeWhile fun c => c != 'e' && c != 'E'
  let power := (s.drop (mantissa.length + 1)).filter (· != '+')
  let whole := mantissa.takeWhile (· != '.')
  let fraction := mantissa.drop (whole.length + 1)
  let digits := digitsValue 10 (whole ++ fraction)
  let bounded := fun p => min (digitsValue 10 p) (s.length + 1000)
  match power with
  | '-' :: p => (digits, Nat.pow 10 (bounded p + fraction.length))
  | p => (digits * Nat.pow 10 (bounded p), Nat.pow 10 fraction.length)

/-- The value of a numeric literal, as a quotient. A literal of digits below eight that starts with
a zero is octal. -/
def literalValue (s : List Char) : Nat × Nat :=
  match s.filter (· != '_') with
  | '0' :: c :: rest =>
    if c == 'x' || c == 'X' then (digitsValue 16 rest, 1)
    else if c == 'o' || c == 'O' then (digitsValue 8 rest, 1)
    else if c == 'b' || c == 'B' then (digitsValue 2 rest, 1)
    else if (c :: rest).all fun d => d.isDigit && digitValue d < 8 then
      (digitsValue 8 (c :: rest), 1)
    else decimalValue ('0' :: c :: rest)
  | digits => decimalValue digits

/-! ## The nearest double -/

/-- The finite number `mantissa · 2 ^ exponent`, the exponent at least -1074. -/
structure Binary where
  mantissa : Nat
  exponent : Int
deriving DecidableEq, Repr

namespace Binary

/-- The value as a quotient. -/
def ratio (b : Binary) : Nat × Nat :=
  if b.exponent ≥ 0 then (b.mantissa * Nat.pow 2 b.exponent.toNat, 1)
  else (b.mantissa, Nat.pow 2 (-b.exponent).toNat)

/-- A quotient, scaled down by a power of two and rounded to the nearest number; a half goes to the
even neighbour. -/
def rounded (num den : Nat) (exponent : Int) : Nat :=
  let n := if exponent ≥ 0 then num else num * Nat.pow 2 (-exponent).toNat
  let d := if exponent ≥ 0 then den * Nat.pow 2 exponent.toNat else den
  let q := n / d
  let twice := 2 * (n % d)
  if twice > d || (twice == d && q % 2 == 1) then q + 1 else q

/-- The double nearest to a positive quotient, or none if that is infinite. -/
def nearest? (num den : Nat) : Option Binary :=
  let guess : Int := (Nat.log2 num : Int) - (Nat.log2 den : Int) - 52
  let lower := max (-1074) (guess - 1)
  let exponent :=
    if rounded num den lower < Nat.pow 2 53 then lower
    else if rounded num den (lower + 1) < Nat.pow 2 53 then lower + 1
    else lower + 2
  let b : Binary := ⟨rounded num den exponent, exponent⟩
  let (n, d) := b.ratio
  if n / d ≥ Nat.pow 2 1024 then none else some b

end Binary

/-! ## The shortest decimal -/

/-- The number `0.digits · 10 ^ point`. -/
structure Decimal where
  digits : List Char
  point : Int
deriving Repr

/-- The `p` with `10 ^ (p - 1) ≤ num / den < 10 ^ p`. -/
def decimalPoint (num den : Nat) : Int :=
  if num ≥ den then ((Nat.toDigits 10 (num / den)).length : Int)
  else
    let above := (den + num - 1) / num
    1 - ((Nat.toDigits 10 (above - 1)).length : Int)

/-- Twice the distance between `d · 10 ^ scale` and a double, over the quotient's denominator and
the power of ten that both sides were multiplied by; `0` on the side where `d` is exact. -/
def distance (num den : Nat) (scale : Int) (d : Nat) : Nat × Nat :=
  let p := Nat.pow 10 scale.natAbs
  let (x, y, unit) := if scale ≥ 0 then (d * p * den, num, den) else (d * den, num * p, den * p)
  (if x ≥ y then x - y else y - x, unit)

/-- The decimal `d · 10 ^ scale` reads back as `b`: it is at most half a step away, less than half
if the mantissa of `b` is odd. The step below a power of two is half as large. -/
def readsBack (b : Binary) (scale : Int) (d : Nat) : Bool :=
  let (num, den) := b.ratio
  let (gap, unit) := distance num den scale d
  let p := Nat.pow 10 scale.natAbs
  let isBelow := if scale ≥ 0 then d * p * den < num else d * den < num * p
  let quarter := isBelow && b.mantissa == Nat.pow 2 52 && b.exponent > -1074
  -- `gap / unit` against `2 ^ exponent / 2`, or `/ 4` below a power of two
  let parts := if quarter then 4 else 2
  let (l, r) :=
    if b.exponent ≥ 0 then (gap * parts, unit * Nat.pow 2 b.exponent.toNat)
    else (gap * parts * Nat.pow 2 (-b.exponent).toNat, unit)
  l < r || (l == r && b.mantissa % 2 == 0)

/-- The decimal of `count` digits nearest to `b` that reads back, if any does. -/
def decimalOf? (b : Binary) (count : Nat) : Option Decimal :=
  let (num, den) := b.ratio
  let point := decimalPoint num den
  let scale := point - count
  let p := Nat.pow 10 scale.natAbs
  let below := if scale ≥ 0 then num / (den * p) else num * p / den
  let fits := [below, below + 1].filter (readsBack b scale)
  let best? := match fits with
    | [x, y] =>
      if (distance num den scale x).1 ≤ (distance num den scale y).1 then some x else some y
    | [x] => some x
    | _ => none
  best?.map fun d =>
    let digits := Nat.toDigits 10 d
    let trimmed := (digits.reverse.dropWhile (· == '0')).reverse
    ⟨trimmed, scale + digits.length⟩

/-- The decimal with the fewest digits that reads back as `b`; seventeen are always enough. -/
def shortestDecimal (b : Binary) : Decimal :=
  ((List.range' 1 17).findSome? (decimalOf? b)).getD ⟨[], 0⟩

/-! ## Writing -/

/-- A positive decimal in positional or exponent notation. -/
def Decimal.text (d : Decimal) : String :=
  let k := d.digits.length
  let zeros := fun (n : Int) => List.replicate n.toNat '0'
  let n := d.point
  if (k : Int) ≤ n && n ≤ 21 then String.ofList (d.digits ++ zeros (n - k))
  else if 0 < n && n ≤ 21 then
    String.ofList (d.digits.take n.toNat ++ '.' :: d.digits.drop n.toNat)
  else if -6 < n && n ≤ 0 then String.ofList ('0' :: '.' :: zeros (-n) ++ d.digits)
  else
    let power := n - 1
    let mark := (if power < 0 then "e-" else "e+") ++ toString power.natAbs
    match d.digits with
    | [] => "0"
    | [c] => String.ofList [c] ++ mark
    | c :: rest => String.ofList (c :: '.' :: rest) ++ mark

/-- The property name that a numeric literal stands for. -/
def numberName (literal : String) : String :=
  let (num, den) := literalValue literal.toList
  if num = 0 then "0"
  else match Binary.nearest? num den with
    | none => "Infinity"
    | some b => if b.mantissa = 0 then "0" else (shortestDecimal b).text

/-- The property name that an integer literal with the suffix `n` stands for. -/
def bigintName (literal : String) : String :=
  toString (literalValue (literal.toList.filter (· != 'n'))).1

end IpcWiring.Script
