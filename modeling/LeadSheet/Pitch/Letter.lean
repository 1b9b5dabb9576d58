import LeadSheet.Failure

/-!
The seven letters of note names and the alterations of a letter.
-/
namespace LeadSheet

/-- The letter of a note, in the order of the white keys from C. -/
inductive Letter where
  | C | D | E | F | G | A | B
  deriving DecidableEq, Repr

namespace Letter

/-- The letters from C upwards. -/
def all : List Letter := [C, D, E, F, G, A, B]

def toChar : Letter → Char
  | C => 'C' | D => 'D' | E => 'E' | F => 'F' | G => 'G' | A => 'A' | B => 'B'

/-- Capital letters only. -/
def ofChar? : Char → Option Letter
  | 'C' => some C | 'D' => some D | 'E' => some E | 'F' => some F
  | 'G' => some G | 'A' => some A | 'B' => some B
  | _ => none

/-- Semitones above C. -/
def offset : Letter → Int
  | C => 0 | D => 2 | E => 4 | F => 5 | G => 7 | A => 9 | B => 11

/-- The place of the letter in the diatonic scale on C. -/
def index : Letter → Int
  | C => 0 | D => 1 | E => 2 | F => 3 | G => 4 | A => 5 | B => 6

end Letter

/-- What an accidental sign in a note name does to its letter. -/
inductive Alteration where
  | natural | sharp | flat
  deriving DecidableEq, Repr

namespace Alteration

/-- Semitones upwards. -/
def semitones : Alteration → Int
  | natural => 0 | sharp => 1 | flat => -1

/-- The sign in a note name; a natural has none. -/
def sign : Alteration → List Char
  | natural => [] | sharp => ['#'] | flat => ['b']

/-- The alteration a text starts with, and the rest of the text. -/
def read : List Char → Alteration × List Char
  | '#' :: rest => (sharp, rest)
  | 'b' :: rest => (flat, rest)
  | rest => (natural, rest)

end Alteration
end LeadSheet
