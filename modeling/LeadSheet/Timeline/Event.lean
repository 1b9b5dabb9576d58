import LeadSheet.Harmony.ChordSymbol
import LeadSheet.Timeline.Cursor

/-!
Events: what the commands of a lead sheet make happen, in the order of the commands. A track is
part of an event where it matters.
-/
namespace LeadSheet

/-- An event. Times are beats. -/
inductive Event (α : Type) where
  | note (track : Int) (name : String) (start duration : α) (location : Option Location)
  | clef (track : Int) (beat : α) (sign : Datum)
  | keySignature (beat : α) (count : Datum) (location : Option Location)
  | timeSignature (beat : α) (beats : Datum)
  | chord (beat : α) (symbol : ChordSymbol)
  | remark (beat : α) (text : Datum)
  /-- a command of a kind that nothing is known about -/
  | unknown (node : Datum)
  deriving Repr

/-- What a walk through commands gives: the events up to its end or up to a failure, and the
cursor at the end. -/
structure Walk (α : Type) where
  events : List (Event α)
  outcome : Except Failure Cursor

namespace Walk
variable {α : Type}

/-- A walk that did not start. -/
def stay (c : Cursor) : Walk α := ⟨[], .ok c⟩

/-- Goes on from where a walk ended, unless it failed. -/
def andThen (w : Walk α) (next : Cursor → Walk α) : Walk α :=
  match w.outcome with
  | .error e => ⟨w.events, .error e⟩
  | .ok c =>
    let after := next c
    ⟨w.events ++ after.events, after.outcome⟩

/-- A walk of one step. -/
def ofStep : Except Failure (Cursor × List (Event α)) → Walk α
  | .error e => ⟨[], .error e⟩
  | .ok (c, events) => ⟨events, .ok c⟩

end Walk

namespace Cursor
variable {α : Type} [Timebase α]

/-- The position in beats. -/
def beat (c : Cursor) : Except Failure α := Ticks.toBeats c.position

/-- Where a note starts, and the position behind it. A note with a start of its own does not move
the position. -/
def place (c : Cursor) (timing : Timing) (length : Int) : Except Failure (Rat × Rat) :=
  match timing.start with
  | none => .ok (c.position, c.position + length)
  | some start => do return (← Ticks.ofBeats start, c.position)

/-- A note: its length, name and place, and the pitch it leaves behind. -/
def note (c : Cursor) (name : String) (mark : Option Mark) (timing : Timing)
    (location : Option Location) : Except Failure (Cursor × List (Event α)) := do
  let length ← c.length timing
  let name ← c.soundingName name mark
  let (start, position) ← c.place timing length
  let p ← NoteName.pitch name
  let start ← Ticks.toBeats start
  let duration ← Ticks.toBeats (length : Rat)
  let location ← location.mapM Location.fixed
  return ({ c with position, lastPitch := some p }, [.note c.track name start duration location])

/-- A rest with a start of its own does nothing. -/
def rest (c : Cursor) (timing : Timing) : Except Failure Cursor := do
  if timing.start.isSome then return c
  return { c with position := c.position + (← c.length timing : Int) }

/-- The step over a command. A block is no single step: it is walked through, and here it stays
where it is. -/
def step (c : Cursor) : Command → Except Failure (Cursor × List (Event α))
  | .note name mark timing location => c.note name mark timing location
  | .rest timing => do return (← c.rest timing, [])
  | .backToStart => .ok (c.rewind, [])
  | .tempo tempo count => .ok (c.changeTempo tempo (count.getD 1), [])
  | .measure number => .ok (c.toMeasure number, [])
  | .track number => do return ({ c with track := ← number.readInt }, [])
  | .clef sign => do return (c, [.clef c.track (← c.beat) sign])
  | .keySignature count location => do
    return ({ c with key := count }, [.keySignature (← c.beat) count location])
  | .timeSignature beats unit => do
    return (← c.changeMeter beats unit, [.timeSignature (← c.beat) beats])
  | .chord name =>
    match ChordSymbol.ofText? name with
    | none => .ok (c, [])
    | some symbol => do return (c, [.chord (← c.beat) symbol])
  | .remark text => do return (c, [.remark (← c.beat) text])
  | .unknown node => .ok (c, [.unknown node])
  | .invalid cause => .error cause
  | .field _ _ | .block _ => .ok (c, [])

mutual

/-- The walk over one command. -/
def walk (c : Cursor) : Command → Walk α
  | .block commands =>
    let inner := walkAll c.enter commands
    { inner with outcome := inner.outcome.map c.leave }
  | command => .ofStep (c.step command)

/-- The walk through commands. -/
def walkAll (c : Cursor) : List Command → Walk α
  | [] => .stay c
  | command :: rest => (walk c command).andThen fun c => walkAll c rest

end

end Cursor
end LeadSheet
