import LeadSheet.Harmony.Chord

/-!
Chord symbols such as `Am7`: a root, and a shape that is left out for a major chord.
-/
namespace LeadSheet

/-- A chord symbol, taken apart. -/
structure ChordSymbol where
  root : String
  shape : ChordShape
  deriving DecidableEq, Repr

namespace ChordSymbol

/-- The root a symbol starts with, in capitals, and what follows it on the same line. -/
def split? : List Char → Option (String × String)
  | [] => none
  | c :: rest =>
    (Letter.ofChar? c.toUpper).map fun letter =>
      let (alteration, rest) := Alteration.read rest
      (String.ofList (letter.toChar :: alteration.sign),
        String.ofList (rest.takeWhile (· ≠ '\n')))

/-- The symbol that a text writes, if its shape is a known one. -/
def ofText? (text : String) : Option ChordSymbol := do
  let (root, shape) ← split? text.toList
  let shape := if shape.isEmpty then "M" else shape
  if (chordShapes.lookup shape).isSome then some ⟨root, .named shape⟩ else none

/-- The symbol that a datum stands for: a root and a shape. -/
def ofDatum (d : Datum) : Except Failure ChordSymbol := do
  match ← d.exactly 2 with
  | [root, shape] => return ⟨← root.toText, .ofDatum shape⟩
  | _ => throw .wrongType

/-- A symbol as data. -/
def toDatum (symbol : ChordSymbol) : Datum := .tuple [.text symbol.root, symbol.shape.toDatum]

end ChordSymbol
end LeadSheet
