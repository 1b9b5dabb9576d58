import LeadSheet.Song.Basic

/-!
Divisions of a stretch of time into equal parts, the last of which is cut off at the end.
-/
namespace LeadSheet.Accompaniment
variable {α : Type} [Timebase α]

/-- A part of a stretch of time, with its number. -/
structure Division (α : Type) where
  left : α
  right : α
  number : Nat
  deriving DecidableEq, Repr

/-- The beats of a measure as far as they are known; zero counts as unknown. -/
def knownBeats (sheet : Sheet α) : Option α :=
  sheet.metadata.beatsPerMeasure.filter fun beats => !Timebase.isZero beats

/-- A measure halved `count - 1` times. Measures of an unknown length have four beats. -/
def divisionLength (sheet : Sheet α) (count : Number) : Except Failure α := do
  let parts ← Timebase.twoPow (← count.sub 1)
  Timebase.div ((knownBeats sheet).getD (Timebase.ofInt 4)) parts

/-- The divisions of a length from `left` on, at most `fuel` of them. -/
def divisionsFrom (stop length : α) : Nat → α → Nat → Except Failure (List (Division α))
  | 0, _, _ => .ok []
  | fuel + 1, left, number => do
    let next ← Timebase.add left length
    let right := Timebase.least stop next
    if Timebase.le stop right then return [⟨left, right, number⟩]
    return ⟨left, right, number⟩ :: (← divisionsFrom stop length fuel next (number + 1))

/-- The divisions of the time between two beats. -/
def divisions (sheet : Sheet α) (start stop : α) (count : Number) :
    Except Failure (List (Division α)) := do
  let length ← divisionLength sheet count
  let span := Timebase.exact stop - Timebase.exact start
  divisionsFrom stop length (Timebase.stepBound span (Timebase.exact length) + 1) start 0

end LeadSheet.Accompaniment
