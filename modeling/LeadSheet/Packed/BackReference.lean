import LeadSheet.Packed.Code
import Std.Data.HashMap

/-!
Back-references: stretches of bytes that were there before are replaced by their distance and
length. Of all stretches that start in the window before a position the longest is taken, and of
equally long ones the most distant.

A short reference has two bytes and a medium one three. Bytes that would be taken for the start of
a reference stand behind an escape byte, and so does the escape byte itself.
-/
namespace LeadSheet.Packed

/-- How far back a reference reaches. -/
def windowSize : Nat := 4095

/-- The length of the shortest stretch that is replaced. -/
def shortestMatch : Nat := 3

/-- The length of the longest stretch that is replaced. -/
def longestMatch : Nat := 34

/-- A stretch of bytes that was there before. -/
structure Reference where
  offset : Nat
  length : Nat
  deriving DecidableEq, Repr

/-- The number of equal bytes at the start of two lists, up to a limit. -/
def commonLength : Nat → Bytes → Bytes → Nat
  | limit + 1, a :: as, b :: bs => if a = b then commonLength limit as bs + 1 else 0
  | _, _, _ => 0

/-- The longer of what was found and the match at a position, of which the bytes are given. What
was found stays when the match is no longer. -/
def longer (position : Nat) (bytes : Bytes) (found : Reference) (candidate : Nat × Bytes) :
    Reference :=
  let length := commonLength longestMatch candidate.2 bytes
  if found.length < length then ⟨position - candidate.1, length⟩ else found

/-- The longest match among positions in the window, ascending, that are given with the bytes from
there on. It must not be too short. -/
def longestAmong (position : Nat) (bytes : Bytes) (candidates : List (Nat × Bytes)) :
    Option Reference :=
  let found := candidates.foldl (longer position bytes) ⟨0, 0⟩
  if shortestMatch ≤ found.length then some found else none

/-- The longest match for the bytes at a position, among all positions of the window. -/
def findMatch (data : Bytes) (position : Nat) : Option Reference :=
  let inWindow := (List.range position).filter fun i => position - windowSize ≤ i
  longestAmong position (data.drop position) (inWindow.map fun i => (i, data.drop i))

/-! Candidates may also be asked for that lie behind the position, or a position in front of all
bytes. Places in front of the first byte count from the last one back. -/

/-- The byte at a place. -/
def byteAt (data : Array UInt8) (i : Int) : Except Failure UInt8 :=
  let place := if i < 0 then i + data.size else i
  match if place < 0 then none else data[place.toNat]? with
  | some b => .ok b
  | none => .error .outOfRange

/-- The number of equal bytes from two places on, up to a limit, where the second place stays in
front of `stop`. -/
def commonLengthAt (data : Array UInt8) (stop : Int) : Nat → Int → Int → Except Failure Nat
  | 0, _, _ => .ok 0
  | limit + 1, i, position => do
    if stop ≤ position then return 0
    if (← byteAt data i) ≠ (← byteAt data position) then return 0
    return (← commonLengthAt data stop limit (i + 1) (position + 1)) + 1

/-- The distance and length of the longest match for the bytes at a position, among candidates that
are tried one after the other. Those in front of the window do not count. -/
def findMatchAmong (data : Bytes) (position : Int) (candidates : List Int) :
    Except Failure (Option (Int × Nat)) := do
  let bytes := data.toArray
  let start := max 0 (position - windowSize)
  let inWindow := candidates.filter fun i => start ≤ i
  let best ← inWindow.foldlM
    (fun (best : Int × Nat) i => do
      let length ← commonLengthAt bytes bytes.size longestMatch i position
      return if best.2 < length then (position - i, length) else best)
    (0, 0)
  return if shortestMatch ≤ best.2 then some best else none

/-- The codes of a reference: the short form where it suffices. What no reference has makes codes
that are no bytes. -/
def referenceCodes (offset length : Int) : List Int :=
  if offset ≤ 32 && length ≤ 10 then [0xA0 + offset - 1, length - shortestMatch]
  else [0xC0 + length - shortestMatch, offset / 256 % 16, offset % 256]

/-- The bytes of a reference. -/
def writeReference (r : Reference) : Bytes :=
  (referenceCodes r.offset r.length).map fun code => UInt8.ofNat code.toNat

/-- Codes as bytes, if they are some. -/
def writeCodes (codes : List Int) : Except Failure Bytes :=
  codes.mapM fun code =>
    if 0 ≤ code && code < 256 then .ok (UInt8.ofNat code.toNat) else .error .notAByte

/-- A byte that stands for itself. -/
def writeLiteral (b : UInt8) : Bytes :=
  if isReference b || b = escapeCode then [escapeCode, b] else [b]

/-- The positions before, the nearest first, by the bytes that a match must have in common; each
with the bytes from there on. -/
abbrev MatchIndex := Std.HashMap Bytes (List (Nat × Bytes))

namespace MatchIndex

/-- Adds a position. -/
def add (index : MatchIndex) (position : Nat) (bytes : Bytes) : MatchIndex :=
  let key := bytes.take shortestMatch
  index.insert key ((position, bytes) :: index.getD key [])

/-- Adds a number of positions in a row. -/
def addRun (index : MatchIndex) (position : Nat) (bytes : Bytes) : Nat → MatchIndex
  | 0 => index
  | n + 1 => (index.add position bytes).addRun (position + 1) (bytes.drop 1) n

/-- The positions in the window where a match can be, ascending. -/
def candidates (index : MatchIndex) (position : Nat) (bytes : Bytes) : List (Nat × Bytes) :=
  ((index.getD (bytes.take shortestMatch) []).takeWhile fun candidate =>
    position - windowSize ≤ candidate.1).reverse

end MatchIndex

/-- Shortens the bytes from a position on, and puts them behind what was written before, which is
given last byte first. -/
def shortenFrom (index : MatchIndex) (position : Nat) (before : Bytes) (bytes : Bytes) : Bytes :=
  match bytes with
  | [] => before.reverse
  | b :: rest =>
    match longestAmong position (b :: rest) (index.candidates position (b :: rest)) with
    | none =>
      shortenFrom (index.add position (b :: rest)) (position + 1)
        ((writeLiteral b).reverse ++ before) rest
    | some r =>
      shortenFrom (index.addRun position (b :: rest) r.length) (position + r.length)
        ((writeReference r).reverse ++ before) (rest.drop (r.length - 1))
termination_by bytes.length
decreasing_by
  · simp
  · simp only [List.length_drop, List.length_cons]
    omega

/-- Replaces stretches of bytes by references. -/
def shorten (data : Bytes) : Bytes := shortenFrom ∅ 0 [] data

/-- Puts bytes from `offset` before the end behind the end, one after the other. -/
def copyBack (offset : Nat) : Nat → Array UInt8 → Array UInt8
  | 0, out => out
  | n + 1, out => copyBack offset n (out.push (out.getD (out.size - offset) 0))

/-- Follows a reference, which must not lead to before the start. -/
def follow? (out : Array UInt8) (offset length : Nat) : Option (Array UInt8) :=
  if offset = 0 || out.size < offset then none else some (copyBack offset length out)

/-- Restores bytes behind those restored before. Positions are counted back from the end of all
`size` bytes. -/
def restoreFrom (size : Nat) (out : Array UInt8) : Bytes → Except PackFault (Array UInt8)
  | [] => .ok out
  | b :: rest =>
    if b = escapeCode then
      match rest with
      | [] => .error .endOfReferences
      | c :: rest => restoreFrom size (out.push c) rest
    else if isShortReference b then
      match rest with
      | [] => .error .endOfReferences
      | n :: rest =>
        match follow? out (b.toNat - 0xA0 + 1) (n.toNat + shortestMatch) with
        | none => .error (.badReference (size - rest.length))
        | some out => restoreFrom size out rest
    else if isMediumReference b then
      match rest with
      | high :: low :: rest =>
        let offset := high.toNat * 256 + low.toNat
        match follow? out offset (b.toNat - 0xC0 + shortestMatch) with
        | none => .error (.badReference (size - rest.length))
        | some out => restoreFrom size out rest
      | _ => .error .endOfReferences
    else restoreFrom size (out.push b) rest

/-- Replaces references by the stretches of bytes that they stand for. -/
def restore (data : Bytes) : Except PackFault Bytes :=
  (restoreFrom data.length #[] data).map Array.toList

end LeadSheet.Packed
