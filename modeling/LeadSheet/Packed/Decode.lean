import LeadSheet.Packed.Encode

/-!
Unpacking: the tokens of bytes. Every reader takes what it needs from the front of the bytes and
leaves the rest, also when it fails.
-/
namespace LeadSheet.Packed

/-- Goes on with the value that was read. -/
def Read.andThen (r : Read α) (next : α → Bytes → Read β) : Read β :=
  match r with
  | (.ok a, rest) => next a rest
  | (.error e, rest) => (.error e, rest)

/-- Changes the value that was read. -/
def Read.map (r : Read α) (f : α → β) : Read β := r.andThen fun a rest => (.ok (f a), rest)

theorem Read.length_andThen_le {r : Read α} {next : α → Bytes → Read β} {n : Nat}
    (hr : r.2.length ≤ n) (hn : ∀ a rest, rest.length ≤ n → (next a rest).2.length ≤ n) :
    (r.andThen next).2.length ≤ n := by
  unfold Read.andThen
  split
  · exact hn _ _ hr
  · exact hr

theorem Read.length_map_le {r : Read α} {f : α → β} {n : Nat} (hr : r.2.length ≤ n) :
    (r.map f).2.length ≤ n :=
  Read.length_andThen_le hr fun _ _ h => h

/-- Reads a byte. -/
def readByte : Bytes → Read UInt8
  | [] => (.error .endOfData, [])
  | b :: rest => (.ok b, rest)

/-- Reads a number of bytes, or none of them. -/
def readBytes (n : Nat) (bytes : Bytes) : Read Bytes :=
  if bytes.length < n then (.error .endOfData, bytes) else (.ok (bytes.take n), bytes.drop n)

/-- The number that bytes write, the lowest first. -/
def lengthOf : Bytes → Nat
  | [] => 0
  | b :: rest => b.toNat + 256 * lengthOf rest

/-- Reads a text behind the number of its bytes, which is written in `size` bytes. -/
def readText (size : Nat) (bytes : Bytes) : Read String :=
  (readBytes size bytes).andThen fun length rest =>
    (readBytes (lengthOf length) rest).andThen fun text rest =>
      match Text.utf8Decode text with
      | .ok cs => (.ok (String.ofList cs), rest)
      | .error fault => (.error (.invalidText fault), rest)

/-- Reads the text of a count, which is empty if there is none. -/
def readCount : Bytes → Read String
  | [] => (.ok "", [])
  | b :: rest =>
    if b = countCode then (readNat rest).map toString else (.ok "", b :: rest)

theorem length_readByte_le (bytes : Bytes) : (readByte bytes).2.length ≤ bytes.length := by
  cases bytes <;> simp [readByte]

theorem length_readBytes_le (n : Nat) (bytes : Bytes) :
    (readBytes n bytes).2.length ≤ bytes.length := by
  unfold readBytes
  split <;> simp

theorem length_readText_le (size : Nat) (bytes : Bytes) :
    (readText size bytes).2.length ≤ bytes.length := by
  refine Read.length_andThen_le (length_readBytes_le _ _) fun length rest h => ?_
  refine Read.length_andThen_le (Nat.le_trans (length_readBytes_le _ _) h) fun text rest h => ?_
  split <;> exact h

theorem length_readCount_le (bytes : Bytes) : (readCount bytes).2.length ≤ bytes.length := by
  unfold readCount
  split
  · simp
  · split
    · exact Read.length_map_le (Nat.le_succ_of_le (length_readNat_le _))
    · simp

/-- What a modifier says about a note or rest. -/
inductive Modifier where
  | multiplier (text : String)
  | scaling (sign : String)
  | dots (count : Int)
  | start
  deriving DecidableEq, Repr

namespace Modifier

/-- The modifier that a byte stands for, accidentals aside. -/
def ofByte? (b : UInt8) : Option Modifier :=
  if isAccidental b then none
  else match nameOf? modifierCodes b with
    | none => none
    | some "." => some (dots 1)
    | some ".." => some (dots 2)
    | some "@" => some start
    | some "*" => some (scaling "*")
    | some "/" => some (scaling "/")
    | some text => some (multiplier text)

/-- Whether a number belongs to the modifier. -/
def takesNumber : Modifier → Bool
  | scaling _ | start => true
  | multiplier _ | dots _ => false

/-- The timing with a modifier and its number. Dots add up; of other modifiers the last one of a
kind counts. -/
def apply (n : Nat) (timing : TokenTiming) : Modifier → TokenTiming
  | multiplier text => { timing with multiplier := some text }
  | scaling sign => { timing with multiplier := some (sign ++ toString n) }
  | dots count => { timing with dots := some (timing.dots.getD 0 + count) }
  | start => { timing with start := some n }

end Modifier

/-- Reads the modifiers behind a note or rest. -/
def readTiming (timing : TokenTiming) (bytes : Bytes) : Read TokenTiming :=
  match bytes with
  | [] => (.ok timing, [])
  | b :: rest =>
    match Modifier.ofByte? b with
    | none => (.ok timing, b :: rest)
    | some modifier =>
      if modifier.takesNumber then
        match _read : readNat rest with
        | (.error e, tail) => (.error e, tail)
        | (.ok n, tail) => readTiming (modifier.apply n timing) tail
      else readTiming (modifier.apply 0 timing) rest
termination_by bytes.length
decreasing_by
  · have shorter := length_readNat_le rest
    simp only [_read] at shorter
    exact Nat.lt_succ_of_le shorter
  · exact Nat.lt_succ_self _

theorem length_readTiming_le (timing : TokenTiming) (bytes : Bytes) :
    (readTiming timing bytes).2.length ≤ bytes.length := by
  fun_induction readTiming timing bytes with
  | case1 => exact Nat.le_refl _
  | case2 => exact Nat.le_refl _
  | case3 timing b rest modifier _ _ e tail read =>
    have shorter := length_readNat_le rest
    simp only [read] at shorter
    exact Nat.le_succ_of_le shorter
  | case4 timing b rest modifier _ _ n tail read ih =>
    have shorter := length_readNat_le rest
    simp only [read] at shorter
    exact Nat.le_succ_of_le (Nat.le_trans ih shorter)
  | case5 _ _ _ _ _ _ ih => exact Nat.le_succ_of_le ih

/-- Reads what stands behind the byte of a note. -/
def readNote (letter : String) (accidental : Option String) (octave : Option Int)
    (bytes : Bytes) : Read Token :=
  (readTiming .plain bytes).map fun timing =>
    .note (Token.noteText letter accidental octave timing) letter accidental octave timing

/-- Reads what stands behind the byte of a command. -/
def readCommand (name : String) (bytes : Bytes) : Read Token :=
  let command (text : String) : Token := .command (name ++ text)
  match name with
  | "\x7b" => (.ok (.opening name), bytes)
  | "\x7d" => (.ok (.closing name), bytes)
  | "|" => (.ok (.bar name), bytes)
  | "r" => (readTiming .plain bytes).map fun timing => .rest (Token.restText timing) timing
  | "ks" => (readSigned bytes).map fun n => command (toString n)
  | "ts" =>
    (readNat bytes).andThen fun beats rest =>
      (readNat rest).map fun unit => command (toString beats ++ "/" ++ toString unit)
  | "dt" | "ht" | "tt" | "m" => (readCount bytes).map command
  | "t" => (readNat bytes).map fun n => command (toString n)
  | "$" => (readText 1 bytes).map fun text => .chord (name ++ text)
  | _ => (.ok (command ""), bytes)

/-- Reads what stands behind the first byte of a token, which is no accidental. Positions are
counted back from the end of all `size` bytes. -/
def readBody (size : Nat) (b : UInt8) (accidental : Option String) (bytes : Bytes) :
    Read Token :=
  match noteOf? b, octaveNoteOf? b with
  | some letter, _ => readNote letter accidental none bytes
  | none, some (letter, octave) => readNote letter accidental (some octave) bytes
  | none, none =>
    if accidental.isSome then (.error (.looseAccidental (size - bytes.length - 1)), bytes)
    else
      match nameOf? commandCodes b with
      | some name => readCommand name bytes
      | none =>
        if b = stringCode then (readText 2 bytes).map .string
        else (.error (.unexpectedByte b (size - bytes.length - 1)), bytes)

/-- Reads a token from its first byte and the bytes behind it. -/
def readToken (size : Nat) (b : UInt8) (bytes : Bytes) : Read Token :=
  if isAccidental b then
    (readByte bytes).andThen fun c rest => readBody size c (nameOf? modifierCodes b) rest
  else readBody size b none bytes

theorem length_readNote_le (letter : String) (accidental : Option String) (octave : Option Int)
    (bytes : Bytes) : (readNote letter accidental octave bytes).2.length ≤ bytes.length :=
  Read.length_map_le (length_readTiming_le _ _)

theorem length_readCommand_le (name : String) (bytes : Bytes) :
    (readCommand name bytes).2.length ≤ bytes.length := by
  unfold readCommand
  split
  · exact Nat.le_refl _
  · exact Nat.le_refl _
  · exact Nat.le_refl _
  · exact Read.length_map_le (length_readTiming_le _ _)
  · exact Read.length_map_le (length_readSigned_le _)
  · exact Read.length_andThen_le (length_readNat_le _) fun _ _ h =>
      Read.length_map_le (Nat.le_trans (length_readNat_le _) h)
  · exact Read.length_map_le (length_readCount_le _)
  · exact Read.length_map_le (length_readCount_le _)
  · exact Read.length_map_le (length_readCount_le _)
  · exact Read.length_map_le (length_readCount_le _)
  · exact Read.length_map_le (length_readNat_le _)
  · exact Read.length_map_le (length_readText_le _ _)
  · exact Nat.le_refl _

theorem length_readBody_le (size : Nat) (b : UInt8) (accidental : Option String) (bytes : Bytes) :
    (readBody size b accidental bytes).2.length ≤ bytes.length := by
  unfold readBody
  split
  · exact length_readNote_le _ _ _ _
  · exact length_readNote_le _ _ _ _
  · split
    · exact Nat.le_refl _
    · split
      · exact length_readCommand_le _ _
      · split
        · exact Read.length_map_le (length_readText_le _ _)
        · exact Nat.le_refl _

theorem length_readToken_le (size : Nat) (b : UInt8) (bytes : Bytes) :
    (readToken size b bytes).2.length ≤ bytes.length := by
  unfold readToken
  split
  · exact Read.length_andThen_le (length_readByte_le _) fun _ _ h =>
      Nat.le_trans (length_readBody_le _ _ _ _) h
  · exact length_readBody_le _ _ _ _

/-- Reads tokens up to the end of the bytes, and puts them behind those read before, which are
given last first. -/
def readTokens (size : Nat) (before : List Token) (bytes : Bytes) :
    Except PackFault (List Token) :=
  match bytes with
  | [] => .ok before.reverse
  | b :: rest =>
    match _read : readToken size b rest with
    | (.error e, _) => .error e
    | (.ok token, tail) => readTokens size (token :: before) tail
termination_by bytes.length
decreasing_by
  have shorter := length_readToken_le size b rest
  simp only [_read] at shorter
  exact Nat.lt_succ_of_le shorter

/-- Reads a number of fields. -/
def readFields : Nat → Bytes → Read (List Token)
  | 0, bytes => (.ok [], bytes)
  | n + 1, bytes =>
    (readText 1 bytes).andThen fun key rest =>
      (readText 1 rest).andThen fun value rest =>
        (readFields n rest).map fun fields => .field key value :: fields

/-- Reads the fields if the low half of a byte tells that there are any. -/
def readHead (mark : UInt8) (bytes : Bytes) : Read (List Token) :=
  if mark.toNat % 2 = 1 then
    (readByte bytes).andThen fun count rest => readFields count.toNat rest
  else (.ok [], bytes)

/-- The tokens of bytes. -/
def decode (bytes : Bytes) : Except PackFault (List Token) :=
  if bytes.take 2 ≠ magic then .error .badMagic
  else match bytes.drop 2 with
    | [] => .error .endOfData
    | mark :: rest =>
      if version < mark.toNat / 16 then .error (.unsupportedVersion (mark.toNat / 16))
      else match readHead mark rest with
        | (.error e, _) => .error e
        | (.ok fields, rest) => readTokens bytes.length fields.reverse rest

end LeadSheet.Packed
