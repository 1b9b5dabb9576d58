import LeadSheet.Packed.Decode

/-!
A reader that can be asked for one thing after the other. It keeps its position, which may lie
behind the end of the data, and which can be moved back. Positions in front of the data count from
its end, as far as there is data.
-/
namespace LeadSheet.Packed

structure Reader where
  data : Bytes
  position : Int
  deriving DecidableEq, Repr

namespace Reader

/-- The bytes from the position on. A position before the start counts from the end. -/
def rest (r : Reader) : Bytes :=
  if 0 ≤ r.position then r.data.drop r.position.toNat
  else r.data.drop (r.data.length - r.position.natAbs) ++ r.data

/-- Whether there is anything left to read. -/
def hasMore (r : Reader) : Bool := r.position < r.data.length

/-- Whether the position is one that has no place, also when it is counted from the end. -/
def isLost (r : Reader) : Bool := r.position < -(r.data.length : Int)

/-- Reads a value, and moves the position behind what was taken, also by a failure. -/
def run (r : Reader) (read : Bytes → Read α) : Reader × Except Failure α :=
  let (result, left) := read r.rest
  ({ r with position := r.position + (r.rest.length - left.length : Nat) }, packed result)

/-- Reads a value that is found by a look at the next byte. -/
def ask (r : Reader) (read : Bytes → Read α) : Reader × Except Failure α :=
  if r.isLost then (r, .error .outOfRange) else r.run read

/-- Reads a value of which the first byte is taken at once. -/
def next (r : Reader) (read : Bytes → Read α) : Reader × Except Failure α :=
  if r.isLost then ({ r with position := r.position + 1 }, .error .outOfRange) else r.run read

/-- The next byte, if there is one; it is not taken. -/
def peek (r : Reader) : Reader × Except Failure (Option UInt8) :=
  r.ask fun bytes => (.ok bytes.head?, bytes)

def byte (r : Reader) : Reader × Except Failure UInt8 := r.next readByte

/-- Reads a number. -/
def number (r : Reader) : Reader × Except Failure Nat := r.next readNat

/-- Reads a number that may be negative. -/
def signedNumber (r : Reader) : Reader × Except Failure Int := r.ask readSigned

/-- Reads the text of a count. -/
def count (r : Reader) : Reader × Except Failure String := r.ask readCount

/-- Reads what stands behind a note or rest. -/
def timing (r : Reader) : Reader × Except Failure TokenTiming := r.ask (readTiming .plain)

/-- The place in the data that a bound stands for: negative ones count from the end. -/
def bound (r : Reader) (i : Int) : Nat :=
  if i < 0 then (i + r.data.length).toNat else i.toNat

/-- Takes a number of bytes: those between two bounds. A negative number moves the position back. -/
def take (r : Reader) (count : Int) : Reader × Except Failure Bytes :=
  let stop := r.position + count
  if r.data.length < stop then (r, .error (.packing .endOfData))
  else ({ r with position := stop }, .ok ((r.data.take (r.bound stop)).drop (r.bound r.position)))

/-- Reads a text behind the number of its bytes, which is written in `size` bytes. -/
def text (r : Reader) (size : Int) : Reader × Except Failure String :=
  match r.take size with
  | (r, .error e) => (r, .error e)
  | (r, .ok length) =>
    match r.take (lengthOf length) with
    | (r, .error e) => (r, .error e)
    | (r, .ok bytes) =>
      (r, packed ((Text.utf8Decode bytes).mapError .invalidText |>.map String.ofList))

end Reader
end LeadSheet.Packed
