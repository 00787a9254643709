/-!
# Blocks of code points

A property of characters is given by the blocks of code points that have it.
-/
namespace LispMachine.Text

/-- First and last code point of a block. -/
abbrev CodeRange := Nat × Nat

/-- Whether some block holds the character; the blocks ascend, so the search stops at the first
block that starts beyond it. -/
def inRanges : List CodeRange → Char → Bool
  | [], _ => false
  | (first, last) :: rest, c =>
    if c.toNat < first then false else if c.toNat ≤ last then true else inRanges rest c

end LispMachine.Text
