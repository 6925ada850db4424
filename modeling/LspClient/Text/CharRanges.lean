/-!
# Ranges of characters

A class of characters is a list of closed ranges of their numbers, ascending
and apart.
-/

namespace LspClient.Text

/-- Closed ranges of the numbers of characters. -/
abbrev CharRanges := List (Nat × Nat)

/-- Whether one of the ranges holds a character. -/
def CharRanges.holds (ranges : CharRanges) (c : Char) : Bool :=
  ranges.any fun (low, high) => low ≤ c.toNat && c.toNat ≤ high

end LspClient.Text
