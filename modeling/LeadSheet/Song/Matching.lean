import LeadSheet.Song.Basic

/-!
Matching played notes with those of a song: the note of the same pitch whose start is closest to a
beat. The fast search looks only at notes that touch the buckets around the beat; which buckets a
note touches is reckoned once for many searches.
-/
namespace LeadSheet.Matching
variable {α : Type} [Timebase α]

/-- Beats in a bucket, where nothing else is asked for. -/
def bucketSize : Int := 8

/-- The buckets that a stretch of time touches: the first, and the first behind the last. -/
def bucketSpan (size start stop : α) : Except Failure (Int × Int) := do
  let first ← Timebase.floor (← Timebase.div start size)
  let last ← Timebase.ceil (← Timebase.div stop size)
  return (first, last)

/-- The buckets that every note touches. -/
def bucketSpans (size : α) (notes : List (Note α)) : Except Failure (List (Int × Int)) :=
  notes.mapM fun note => do bucketSpan size note.start (← note.stop)

/-- A note found, by its place and its start. -/
structure Found (α : Type) where
  index : Nat
  start : α
  deriving DecidableEq, Repr

/-- How far a note found is from a beat. -/
def Found.distance (f : Found α) (beat : α) : Except Failure α := Timebase.distance f.start beat

/-- The closer of what was found and a note at a place; what was found first stays when the note
is not closer. Notes of another pitch do not count, and a note is not compared with itself. -/
def closer (target : Int) (beat : α) (found : Option (Found α)) (entry : Note α × Nat) :
    Except Failure (Option (Found α)) := do
  let new : Found α := ⟨entry.2, entry.1.start⟩
  if found.map Found.index = some new.index then return found
  if (← NoteName.pitch entry.1.name) ≠ target then return found
  match found with
  | none => return some new
  | some f =>
    let distance ← f.distance beat
    return if Timebase.lt (← new.distance beat) distance then some new else found

/-- The place of the note of a pitch that starts closest to a beat. -/
def closest (notes : List (Note α)) (name : String) (beat : α) :
    Except Failure (Option Nat) := do
  let target ← NoteName.pitch name
  let found ← notes.zipIdx.foldlM (closer target beat) none
  return found.map Found.index

/-- The notes that touch one bucket, with their places. -/
def inBucket (notes : List (Note α)) (spans : List (Int × Int)) (i : Int) :
    List (Note α × Nat) :=
  (notes.zipIdx.zip spans).filterMap fun (entry, first, last) =>
    if first ≤ i && i < last then some entry else none

/-- The note of a pitch closest to a beat, among those in the buckets around the beat. -/
def closestAround (size : α) (notes : List (Note α)) (spans : List (Int × Int)) (target : Int)
    (beat : α) : Except Failure (Option (Found α)) := do
  let one : α := Timebase.ofInt 1
  let (first, last) ← bucketSpan size (← Timebase.sub beat one) (← Timebase.add beat one)
  let around := (List.range (last - first).toNat).map fun (i : Nat) => first + i
  (around.flatMap (inBucket notes spans)).foldlM (closer target beat) none

/-- The note closest to a beat, in a loop that goes back to `left` at `right`: shortly before the
end of the loop, the note at the same place before its start may be closer still. -/
def closestInLoop (size : α) (notes : List (Note α)) (spans : List (Int × Int)) (target : Int)
    (beat right left : α) : Except Failure (Option (Found α)) := do
  let found ← closestAround size notes spans target beat
  let delta ← Timebase.sub right beat
  if !Timebase.lt delta (Timebase.ofInt 2) then return found
  let wrapBeat ← Timebase.sub left delta
  match ← closestAround size notes spans target wrapBeat, found with
  | none, found => return found
  | some wrapped, none => return some wrapped
  | some wrapped, some f =>
    let distance ← wrapped.distance wrapBeat
    return if Timebase.lt distance (← f.distance beat) then some wrapped else some f

/-- The fast search, in a loop if one is given by its right and left end. -/
def fastClosest (size : α) (notes : List (Note α)) (spans : List (Int × Int)) (name : String)
    (beat : α) (loop : Option (α × α)) : Except Failure (Option Nat) := do
  let target ← NoteName.pitch name
  let found ← match loop with
    | none => closestAround size notes spans target beat
    | some (right, left) => closestInLoop size notes spans target beat right left
  return found.map Found.index

end LeadSheet.Matching
