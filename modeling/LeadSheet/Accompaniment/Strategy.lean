import LeadSheet.Accompaniment.Division
import LeadSheet.Accompaniment.Placement

/-!
Strategies: the patterns in which the notes of a chord are played. Each gives notes, without
numbers yet, for a chord that holds between two beats.
-/
namespace LeadSheet.Accompaniment

inductive Strategy where
  /-- what all strategies have in common, without a pattern of its own -/
  | base
  | root
  | triad
  | rootAndFifth
  | arpeggio
  | bossaNova
  deriving DecidableEq, Repr

namespace Strategy

/-- The strategies that play something. -/
def all : List Strategy := [root, triad, rootAndFifth, arpeggio, bossaNova]

/-- The name that a strategy is asked for with. -/
def key : Strategy → String
  | base => "base"
  | root => "root"
  | triad => "triad"
  | rootAndFifth => "root5"
  | arpeggio => "arp"
  | bossaNova => "bossa_nova"

/-- The name for people to read. -/
def title : Strategy → String
  | base => "Auto Chords"
  | root => "Root"
  | triad => "Triad"
  | rootAndFifth => "Root+5"
  | arpeggio => "Arp"
  | bossaNova => "Bossa Nova"

/-- The strategy that a datum names. -/
def named (name : Datum) : Except Failure Strategy :=
  match all.find? fun strategy => name = .text strategy.key with
  | some strategy => .ok strategy
  | none => .error (.unknownStrategy name.shown)

end Strategy

/-- A note to be played. -/
structure Played (α : Type) where
  name : String
  start : α
  duration : α
  deriving DecidableEq, Repr

variable {α : Type} [Timebase α]

/-- A note of a chord by its place. -/
def chordNote (notes : List String) (i : Nat) : Except Failure String :=
  match notes[i]? with
  | some name => .ok name
  | none => .error .outOfRange

/-- A note for a whole division. -/
def playThrough (name : String) (d : Division α) : Except Failure (Played α) := do
  return ⟨name, d.left, ← Timebase.sub d.right d.left⟩

/-- The root, in divisions. -/
def playRoot (sheet : Sheet α) (settings : Settings) (root : String) (start stop : α) :
    Except Failure (List (Played α)) := do
  let name ← rootBelow root (← ceiling sheet settings start stop)
  (← divisions sheet start stop (← settings.rateNumber)).mapM (playThrough name)

/-- All notes of the chord, in divisions. -/
def playTriad (sheet : Sheet α) (settings : Settings) (symbol : ChordSymbol) (start stop : α) :
    Except Failure (List (Played α)) := do
  let notes ← chordBelow symbol.root symbol.shape (← ceiling sheet settings start stop)
  let played ← (← divisions sheet start stop (← settings.rateNumber)).mapM fun d =>
    notes.mapM fun name => playThrough name d
  return played.flatten

/-- Whether a number is a multiple of another one. -/
def isMultiple (n : Nat) (q : Rat) : Bool := ((n : Rat) / q).den = 1

/-- The root where the number of a division is a multiple of the beats of a measure, the fifth in
the other divisions. An octave is taken off when the fifth would be too high. -/
def playRootAndFifth (sheet : Sheet α) (settings : Settings) (symbol : ChordSymbol)
    (start stop : α) : Except Failure (List (Played α)) := do
  let top ← ceiling sheet settings start stop
  let root ← rootBelow symbol.root top
  let notes ← Chord.notes root symbol.shape 0 none
  let notes ←
    if Number.lt (.whole (← NoteName.pitch (← chordNote notes 2))) top then pure notes
    else Chord.notes (← NoteName.transpose root (-octaveSize)) symbol.shape 0 none
  let beats := (knownBeats sheet).getD (Timebase.ofInt 2)
  let count ← Number.add 1 (← settings.rateNumber)
  (← divisions sheet start stop count).mapM fun d => do
    playThrough (← chordNote notes (if isMultiple d.number (Timebase.exact beats) then 0 else 2)) d

/-- The root, the third, the seventh or else the fifth, and the third again, each for a quarter of
a measure. -/
def playArpeggio (sheet : Sheet α) (settings : Settings) (symbol : ChordSymbol)
    (start stop : α) : Except Failure (List (Played α)) := do
  let notes ← chordBelow symbol.root symbol.shape (← ceiling sheet settings start stop)
  let first ← chordNote notes 0
  let second ← chordNote notes 1
  let third ← chordNote notes (if 3 < notes.length then 3 else 2)
  let parts := (← divisions sheet start stop 3).take 4
  (parts.zip [first, second, third, second]).mapM fun (d, name) => playThrough name d

/-- A note of the bossa nova. Divisions come in pairs: in the first of them a long note starts, in
the middle of the second a short one. -/
def playSyncopated (one two : String) (d : Division α) : Except Failure (List (Played α)) := do
  let half ← Timebase.div (← Timebase.sub d.right d.left) (Timebase.ofInt 2)
  let long (name : String) : Except Failure (List (Played α)) := do
    return [⟨name, d.left, ← Timebase.mul half (Timebase.ofInt 3)⟩]
  let short (name : String) : Except Failure (List (Played α)) := do
    return [⟨name, ← Timebase.add d.left half, half⟩]
  match d.number with
  | 0 => long one
  | 1 => short one
  | 2 => long two
  | 3 => short two
  | _ => return []

/-- The root and the fifth, in a syncopated pattern. When the fifth would be too high it is taken
an octave lower, and comes first. -/
def playBossaNova (sheet : Sheet α) (settings : Settings) (symbol : ChordSymbol)
    (start stop : α) : Except Failure (List (Played α)) := do
  let top ← ceiling sheet settings start stop
  let notes ← Chord.notes (← rootBelow symbol.root top) symbol.shape 0 none
  let root ← chordNote notes 0
  let fifth ← chordNote notes 2
  let (one, two) ←
    if Number.lt (.whole (← NoteName.pitch fifth)) top then pure (root, fifth)
    else pure (← NoteName.transpose fifth (-octaveSize), root)
  let played ← (← divisions sheet start stop 3).mapM (playSyncopated one two)
  return played.flatten

/-- The notes of a strategy for a chord between two beats. -/
def Strategy.play (strategy : Strategy) (sheet : Sheet α) (settings : Settings)
    (symbol : ChordSymbol) (start stop : α) : Except Failure (List (Played α)) :=
  match strategy with
  | .base => .error .noPattern
  | .root => playRoot sheet settings symbol.root start stop
  | .triad => playTriad sheet settings symbol start stop
  | .rootAndFifth => playRootAndFifth sheet settings symbol start stop
  | .arpeggio => playArpeggio sheet settings symbol start stop
  | .bossaNova => playBossaNova sheet settings symbol start stop

end LeadSheet.Accompaniment
