import LeadSheet.Text.CodeRanges

/-!
Blank characters: the white space of Unicode together with the four information separators.
-/
namespace LeadSheet.Text

/-- The blank characters, as ranges of code points. -/
def blankRanges : CodeRanges :=
  [(0x09, 0x0D), (0x1C, 0x20), (0x85, 0x85), (0xA0, 0xA0), (0x1680, 0x1680), (0x2000, 0x200A),
   (0x2028, 0x2029), (0x202F, 0x202F), (0x205F, 0x205F), (0x3000, 0x3000)]

/-- A character is blank when it only separates. -/
def isBlank (c : Char) : Bool := blankRanges.contains c

/-- Drops the blank characters at the start of a text. -/
def trimStart (cs : List Char) : List Char := cs.dropWhile isBlank

/-- Drops the blank characters at the end of a text. -/
def trimEnd (cs : List Char) : List Char := (cs.reverse.dropWhile isBlank).reverse

/-- Drops the blank characters at both ends of a text. -/
def trim (cs : List Char) : List Char := trimEnd (trimStart cs)

end LeadSheet.Text
