/-!
Sets of characters given by ranges of code points, the form in which a character property is stored.
-/
namespace LeadSheet.Text

/-- Closed ranges of code points. -/
abbrev CodeRanges := List (Nat × Nat)

/-- A character is in the set when one of the ranges holds its code point. -/
def CodeRanges.contains (ranges : CodeRanges) (c : Char) : Bool :=
  ranges.any fun range => range.1 ≤ c.toNat && c.toNat ≤ range.2

end LeadSheet.Text
