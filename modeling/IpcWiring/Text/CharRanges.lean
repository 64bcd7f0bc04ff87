/-!
# Character ranges

A character class given as a sorted list of inclusive code-point ranges.
-/

namespace IpcWiring.Text

/-- Inclusive code-point ranges in increasing order. -/
abbrev CharRanges := List (Nat × Nat)

/-- The code point `n` lies in one of the ranges; the search stops at the first range past it. -/
def CharRanges.containsCode : CharRanges → Nat → Bool
  | [], _ => false
  | (first, last) :: rest, n => n ≥ first && (n ≤ last || CharRanges.containsCode rest n)

/-- The character lies in one of the ranges. -/
def CharRanges.contains (ranges : CharRanges) (c : Char) : Bool := ranges.containsCode c.toNat

end IpcWiring.Text
