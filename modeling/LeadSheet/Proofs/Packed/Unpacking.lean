import LeadSheet.Packed.Share
import LeadSheet.Packed.TokenData
import LeadSheet.Proofs.Packed.Token

/-!
Unpacking with nothing taken for granted. A code that is in no table, a letter that is in no row
and a place where there is no byte are failures of their own here. The guards in front of every
lookup keep these failures away, so that faults of the packed data are all that is left.
-/
namespace LeadSheet.Packed

/-! ### Tokens -/

/-- What was read and what is left over, or why there is nothing. -/
def Read.outcome {α : Type} (r : Read α) : Except Failure (α × Bytes) :=
  match r with
  | (.ok a, rest) => .ok (a, rest)
  | (.error fault, _) => .error (.packing fault)

/-- The name that a code has in a table where it must be. -/
def nameOf (codes : List (String × UInt8)) (b : UInt8) : Except Failure String :=
  match nameOf? codes b with
  | some name => .ok name
  | none => .error .missingKey

/-- The letter at a place in the row of letters, which must be there. -/
def letterAt (place : Nat) : Except Failure String :=
  match noteLetters[place]? with
  | some c => .ok (String.ofList [c])
  | none => .error .outOfRange

/-- What the name of a modifier says. -/
def Modifier.ofName : String → Modifier
  | "." => dots 1
  | ".." => dots 2
  | "@" => start
  | "*" => scaling "*"
  | "/" => scaling "/"
  | text => multiplier text

/-- Reads the modifiers behind a note or rest. -/
def unpackTiming (timing : TokenTiming) (bytes : Bytes) : Except Failure (TokenTiming × Bytes) :=
  match bytes with
  | [] => .ok (timing, [])
  | b :: rest =>
    if isModifier b && !isAccidental b then
      match nameOf modifierCodes b with
      | .error e => .error e
      | .ok name =>
        if (Modifier.ofName name).takesNumber then
          match _read : readNat rest with
          | (.error fault, _) => .error (.packing fault)
          | (.ok n, tail) => unpackTiming ((Modifier.ofName name).apply n timing) tail
        else unpackTiming ((Modifier.ofName name).apply 0 timing) rest
    else .ok (timing, b :: rest)
termination_by bytes.length
decreasing_by
  · have shorter := length_readNat_le rest
    simp only [_read] at shorter
    exact Nat.lt_succ_of_le shorter
  · exact Nat.lt_succ_self _

/-- Reads what stands behind the byte of a note. -/
def unpackNote (letter : String) (accidental : Option String) (octave : Option Int)
    (bytes : Bytes) : Except Failure (Token × Bytes) := do
  let (timing, rest) ← unpackTiming .plain bytes
  return (.note (Token.noteText letter accidental octave timing) letter accidental octave timing,
    rest)

/-- Reads what stands behind the byte of a command. -/
def unpackCommand (name : String) (bytes : Bytes) : Except Failure (Token × Bytes) :=
  if name = "r" then do
    let (timing, rest) ← unpackTiming .plain bytes
    return (.rest (Token.restText timing) timing, rest)
  else (readCommand name bytes).outcome

/-- Reads what stands behind the first byte of a token, which is no accidental. -/
def unpackBody (size : Nat) (b : UInt8) (accidental : Option String) (bytes : Bytes) :
    Except Failure (Token × Bytes) := do
  if isNote b then
    unpackNote (← letterAt (b - firstNote).toNat) accidental none bytes
  else if isOctaveNote b then
    let place := (b - firstOctaveNote).toNat
    unpackNote (← letterAt (place % 7)) accidental (some (place / 7 : Nat)) bytes
  else if isCommand b then
    unpackCommand (← nameOf commandCodes b) bytes
  else if b = stringCode then ((readText 2 bytes).map .string).outcome
  else throw (.packing (.unexpectedByte b (size - bytes.length - 1)))

/-- Reads a token from its first byte and the bytes behind it. -/
def unpackToken (size : Nat) (b : UInt8) (bytes : Bytes) : Except Failure (Token × Bytes) := do
  if isAccidental b then
    let sign ← nameOf modifierCodes b
    let (c, rest) ← (readByte bytes).outcome
    if isNote c || isOctaveNote c then unpackBody size c (some sign) rest
    else throw (.packing (.looseAccidental (size - rest.length - 1)))
  else unpackBody size b none bytes

section Outcome
variable {α β : Type}

private theorem Read.outcome_andThen (r : Read α) (next : α → Bytes → Read β) :
    (r.andThen next).outcome = r.outcome >>= fun result => (next result.1 result.2).outcome := by
  obtain ⟨result, rest⟩ := r
  cases result <;> rfl

private theorem Read.outcome_map (r : Read α) (f : α → β) :
    (r.map f).outcome = r.outcome >>= fun result => pure (f result.1, result.2) :=
  Read.outcome_andThen r _

/-- A failure to read is a fault of the data. -/
theorem Read.outcome_eq_ok_iff {r : Read α} {a : α} {rest : Bytes} :
    r.outcome = .ok (a, rest) ↔ r = (.ok a, rest) := by
  obtain ⟨result, tail⟩ := r
  cases result <;> simp [Read.outcome]

end Outcome

/-! The guards, for all bytes. -/

theorem forall_byte {p : UInt8 → Prop} (h : ∀ n < 256, p (UInt8.ofNat n)) (b : UInt8) : p b := by
  have hb := h b.toNat b.toNat_lt
  rwa [UInt8.ofNat_toNat] at hb

private theorem isSome_nameOf?_command (b : UInt8) :
    (nameOf? commandCodes b).isSome = isCommand b := by
  revert b
  exact forall_byte (by decide +kernel)

private theorem isSome_nameOf?_modifier (b : UInt8) :
    (nameOf? modifierCodes b).isSome = isModifier b := by
  revert b
  exact forall_byte (by decide +kernel)

/-- Bytes that are no modifiers, and accidentals, do not tell anything about the timing. -/
theorem ofByte?_eq (b : UInt8) : Modifier.ofByte? b =
    if isModifier b && !isAccidental b then (nameOf? modifierCodes b).map Modifier.ofName
    else none := by
  revert b
  exact forall_byte (by decide +kernel)

private theorem isModifier_of_isAccidental (b : UInt8) :
    isAccidental b = true → isModifier b = true := by
  revert b
  exact forall_byte (by decide +kernel)

private theorem nameOf_eq_ok {codes : List (String × UInt8)} {b : UInt8}
    (h : (nameOf? codes b).isSome = true) :
    ∃ name, nameOf codes b = .ok name ∧ nameOf? codes b = some name := by
  obtain ⟨name, hn⟩ := Option.isSome_iff_exists.mp h
  exact ⟨name, by rw [nameOf, hn], hn⟩

private theorem letterAt_eq_ok {place : Nat} (h : place < 7) :
    letterAt place = .ok (String.ofList (noteLetters[place]?).toList) := by
  rw [letterAt, List.getElem?_eq_getElem h]
  rfl

private theorem toNat_sub_firstNote (b : UInt8) : isNote b = true → (b - firstNote).toNat < 7 := by
  revert b
  exact forall_byte (by decide +kernel)

/-! The guarded readers give what the others give. -/

private theorem unpackTiming_eq (timing : TokenTiming) (bytes : Bytes) :
    unpackTiming timing bytes = (readTiming timing bytes).outcome := by
  have named {b : UInt8} {modifier : Modifier} (hb : Modifier.ofByte? b = some modifier) :
      (isModifier b && !isAccidental b) = true ∧
        ∃ name, nameOf modifierCodes b = .ok name ∧ Modifier.ofName name = modifier := by
    rw [ofByte?_eq] at hb
    split at hb
    · next h =>
      obtain ⟨name, hn, rfl⟩ := Option.map_eq_some_iff.mp hb
      exact ⟨h, name, by rw [nameOf, hn], rfl⟩
    · cases hb
  fun_induction readTiming timing bytes with
  | case1 timing =>
    rw [unpackTiming]
    rfl
  | case2 timing b rest hb =>
    rw [ofByte?_eq] at hb
    rw [unpackTiming]
    split
    · next h =>
      rw [if_pos h, Option.map_eq_none_iff] at hb
      have hs := isSome_nameOf?_modifier b
      rw [hb, (Bool.and_eq_true_iff.mp h).1] at hs
      cases hs
    · rfl
  | case3 timing b rest modifier hb hn e tail hr =>
    obtain ⟨h, name, he, rfl⟩ := named hb
    rw [unpackTiming, if_pos h, he]
    dsimp only
    rw [if_pos hn]
    split
    · next h' => cases hr.symm.trans h'; rfl
    · next h' => cases hr.symm.trans h'
  | case4 timing b rest modifier hb hn n tail hr ih =>
    obtain ⟨h, name, he, rfl⟩ := named hb
    rw [unpackTiming, if_pos h, he]
    dsimp only
    rw [if_pos hn]
    split
    · next h' => cases hr.symm.trans h'
    · next h' => cases hr.symm.trans h'; exact ih
  | case5 timing b rest modifier hb hn ih =>
    obtain ⟨h, name, he, rfl⟩ := named hb
    rw [unpackTiming, if_pos h, he]
    dsimp only
    rw [if_neg hn]
    exact ih

private theorem unpackNote_eq (letter : String) (accidental : Option String) (octave : Option Int)
    (bytes : Bytes) :
    unpackNote letter accidental octave bytes =
      (readNote letter accidental octave bytes).outcome := by
  rw [unpackNote, unpackTiming_eq, readNote, Read.outcome_map]

private theorem unpackCommand_eq (name : String) (bytes : Bytes) :
    unpackCommand name bytes = (readCommand name bytes).outcome := by
  rw [unpackCommand]
  split
  · next h =>
    rw [h, unpackTiming_eq]
    exact (Read.outcome_map (readTiming .plain bytes) fun timing =>
      Token.rest (Token.restText timing) timing).symm
  · rfl

/-- A byte that is no note. -/
theorem readBody_other (size : Nat) {b : UInt8} (hb : ¬ (isNote b || isOctaveNote b) = true)
    (accidental : Option String) (bytes : Bytes) :
    readBody size b accidental bytes =
      if accidental.isSome then (.error (.looseAccidental (size - bytes.length - 1)), bytes)
      else match nameOf? commandCodes b with
        | some name => readCommand name bytes
        | none =>
          if b = stringCode then (readText 2 bytes).map .string
          else (.error (.unexpectedByte b (size - bytes.length - 1)), bytes) := by
  rw [Bool.or_eq_true, not_or] at hb
  have hn : noteOf? b = none := if_neg hb.1
  have ho : octaveNoteOf? b = none := if_neg hb.2
  cases hc : nameOf? commandCodes b with
  | none => simp only [readBody, hn, ho, hc]
  | some name => simp only [readBody, hn, ho, hc]

private theorem unpackBody_eq (size : Nat) (b : UInt8) {accidental : Option String} (bytes : Bytes)
    (ha : accidental.isSome = true → (isNote b || isOctaveNote b) = true) :
    unpackBody size b accidental bytes = (readBody size b accidental bytes).outcome := by
  rw [unpackBody]
  by_cases hn : isNote b = true
  · rw [if_pos hn, letterAt_eq_ok (toNat_sub_firstNote b hn), readBody, noteOf?, if_pos hn]
    exact unpackNote_eq _ _ _ _
  rw [if_neg hn]
  by_cases ho : isOctaveNote b = true
  · rw [if_pos ho]
    dsimp only
    rw [letterAt_eq_ok (Nat.mod_lt _ (by decide)), readBody, noteOf?, if_neg hn, octaveNoteOf?,
      if_pos ho]
    exact unpackNote_eq _ _ _ _
  have hb : ¬ (isNote b || isOctaveNote b) = true := by
    rw [Bool.or_eq_true]
    exact not_or.mpr ⟨hn, ho⟩
  rw [if_neg ho, readBody_other size hb, if_neg fun h => hb (ha h)]
  by_cases hc : isCommand b = true
  · obtain ⟨name, he, hn⟩ := nameOf_eq_ok ((isSome_nameOf?_command b).trans hc)
    rw [if_pos hc, he, hn]
    exact unpackCommand_eq name bytes
  · have hn : nameOf? commandCodes b = none := by
      rw [← Option.not_isSome_iff_eq_none, isSome_nameOf?_command]
      exact hc
    rw [if_neg hc, hn]
    dsimp only
    split <;> rfl

private theorem unpackToken_eq (size : Nat) (b : UInt8) (bytes : Bytes) :
    unpackToken size b bytes = (readToken size b bytes).outcome := by
  rw [unpackToken, readToken]
  by_cases ha : isAccidental b = true
  · obtain ⟨sign, he, hn⟩ :=
      nameOf_eq_ok ((isSome_nameOf?_modifier b).trans (isModifier_of_isAccidental b ha))
    rw [if_pos ha, if_pos ha, he, hn, Read.outcome_andThen]
    refine congrArg ((readByte bytes).outcome >>= ·) (funext fun read => ?_)
    obtain ⟨c, rest⟩ := read
    dsimp only
    by_cases hc : (isNote c || isOctaveNote c) = true
    · rw [if_pos hc, unpackBody_eq size c rest fun _ => hc]
    · rw [if_neg hc, readBody_other size hc]
      rfl
  · rw [if_neg ha, if_neg ha]
    exact unpackBody_eq size b bytes fun h => Bool.noConfusion h

/-- Reads tokens up to the end of the bytes, and puts them behind those read before, which are
given last first. -/
def unpackTokens (size : Nat) (before : List Token) (bytes : Bytes) :
    Except Failure (List Token) :=
  match bytes with
  | [] => .ok before.reverse
  | b :: rest =>
    match _read : unpackToken size b rest with
    | .error e => .error e
    | .ok (token, tail) => unpackTokens size (token :: before) tail
termination_by bytes.length
decreasing_by
  rw [unpackToken_eq, Read.outcome_eq_ok_iff] at _read
  have shorter := length_readToken_le size b rest
  simp only [_read] at shorter
  exact Nat.lt_succ_of_le shorter

/-- The tokens of bytes. -/
def unpack (bytes : Bytes) : Except Failure (List Token) := do
  if bytes.take 2 ≠ magic then throw (.packing .badMagic)
  let (mark, rest) ← (readByte (bytes.drop 2)).outcome
  if version < mark.toNat / 16 then throw (.packing (.unsupportedVersion (mark.toNat / 16)))
  let (fields, rest) ← (readHead mark rest).outcome
  unpackTokens bytes.length fields.reverse rest

private theorem unpackTokens_eq (size : Nat) (before : List Token) (bytes : Bytes) :
    unpackTokens size before bytes = packed (readTokens size before bytes) := by
  fun_induction readTokens size before bytes with
  | case1 before =>
    rw [unpackTokens]
    rfl
  | case2 before b rest e tail hr =>
    rw [unpackTokens]
    split
    · next h =>
      rw [unpackToken_eq, hr] at h
      cases h
      rfl
    · next h =>
      rw [unpackToken_eq, hr] at h
      cases h
  | case3 before b rest token tail hr ih =>
    rw [unpackTokens]
    split
    · next h =>
      rw [unpackToken_eq, hr] at h
      cases h
    · next h =>
      rw [unpackToken_eq, hr] at h
      cases h
      exact ih

/-- Unpacking fails in no other way than by a fault of the data. -/
theorem unpack_eq (bytes : Bytes) : unpack bytes = packed (decode bytes) := by
  rw [unpack, decode]
  by_cases hm : bytes.take 2 ≠ magic
  · rw [if_pos hm, if_pos hm]
    rfl
  rw [if_neg hm, if_neg hm]
  cases bytes.drop 2 with
  | nil => rfl
  | cons mark rest =>
    change (if version < mark.toNat / 16 then _ else _) = _
    by_cases hv : version < mark.toNat / 16
    · rw [if_pos hv]
      dsimp only
      rw [if_pos hv]
      rfl
    rw [if_neg hv]
    dsimp only
    rw [if_neg hv]
    obtain ⟨fields, rest⟩ := readHead mark rest
    cases fields with
    | error => rfl
    | ok fields => exact unpackTokens_eq bytes.length fields.reverse rest

end LeadSheet.Packed
