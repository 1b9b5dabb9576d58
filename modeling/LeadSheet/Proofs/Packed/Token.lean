import LeadSheet.Proofs.Outcome
import LeadSheet.Proofs.Packed.Timing

/-!
Tokens are read back from their bytes. A sound token keeps all but the characters it was written
with, of which the shortest form remains.
-/
namespace LeadSheet.Packed

theorem packed_eq_ok_iff {α : Type} {r : Except PackFault α} {a : α} :
    packed r = .ok a ↔ r = .ok a := by
  cases r with
  | ok =>
    constructor
    · intro h
      rw [Except.ok.inj h]
    · intro h
      rw [Except.ok.inj h]
      rfl
  | error =>
    constructor
    · intro h
      cases h
    · intro h
      cases h

/-- The bytes of a count that may be left out. -/
def countBytes : Option Nat → Bytes
  | none => []
  | some n => countCode :: writeNat n

private theorem writeDigits_toString (n : Nat) :
    writeDigits (toString n).toList = .ok (writeNat n) := by
  rw [writeDigits, IntegerText.read_toString_nat]
  change packed (writeUnsigned n) = _
  rw [writeUnsigned_natCast]
  rfl

private theorem writeCount_toString (n : Option Nat) :
    writeCount ((n.map toString).getD "").toList = .ok (countBytes n) := by
  cases n with
  | none => rfl
  | some n =>
    rw [Option.map_some, Option.getD_some, writeCount, if_neg (Text.toList_toString_ne_nil n),
      writeDigits_toString]
    rfl

private theorem readCount_countBytes (n : Option Nat) {rest : Bytes} (h : Fresh rest) :
    readCount (countBytes n ++ rest) = (.ok ((n.map toString).getD ""), rest) := by
  cases n with
  | some n =>
    rw [countBytes, List.cons_append, readCount, if_pos rfl, readNat_writeNat]
    rfl
  | none =>
    rw [countBytes, List.nil_append]
    cases rest with
    | nil => rfl
    | cons b rest =>
      have hb := h b rfl
      rw [startsToken, Bool.and_eq_true, bne_iff_ne] at hb
      rw [readCount, if_neg hb.2]
      rfl

section Commands
open Token (commandText)

private theorem toList_commandText {w : Word} (h : w.isCommand = true) :
    (commandText w).toList = w.shortest := by
  cases w with
  | note | rest => cases h
  | keySignature | timeSignature | tempo | measure | track | clef => rfl

theorem writeCommand_keySignature (count : Int) :
    writeCommand (commandText (.keySignature count)) =
      (packed (writeSigned count)).map (0x09 :: ·) := by
  rw [writeCommand, toList_commandText rfl, Word.shortest_keySignature]
  change (IntegerText.read (toString count).toList >>= fun n => do
    return 0x09 :: (← packed (writeSigned n))) = _
  rw [IntegerText.read_toString]
  rfl

private theorem splitSignature_toString (beats unit : Nat) :
    splitSignature ((toString beats).toList ++ '/' :: (toString unit).toList) =
      .ok ((toString beats).toList, (toString unit).toList) := by
  have hs (n : Nat) : '/' ∉ (toString n).toList := fun h =>
    absurd (Text.isAsciiDigit_of_mem_toString h) (by decide)
  rw [splitSignature, List.splitOn_append_cons_self_of_not_mem (hs beats),
    List.splitOn_eq_singleton (hs unit)]

theorem writeCommand_timeSignature (beats unit : Nat) :
    writeCommand (commandText (.timeSignature beats unit)) =
      .ok (0x0A :: (writeNat beats ++ writeNat unit)) := by
  rw [writeCommand, toList_commandText rfl, Word.shortest_timeSignature]
  change (splitSignature _ >>= fun parts => writeDigits parts.1 >>= fun beats =>
    writeDigits parts.2 >>= fun unit => pure (0x0A :: (beats ++ unit))) = _
  rw [splitSignature_toString]
  exact Except.bind_eq_ok_iff.mpr ⟨_, rfl, Except.bind_eq_ok_iff.mpr ⟨_, writeDigits_toString beats,
    Except.bind_eq_ok_iff.mpr ⟨_, writeDigits_toString unit, rfl⟩⟩⟩

/-- The code of a change of tempo. -/
def tempoCode : Tempo → UInt8
  | .double => 0x05 | .half => 0x06 | .triple => 0x07

theorem writeCommand_tempo (tempo : Tempo) (count : Option Nat) :
    writeCommand (commandText (.tempo tempo count)) =
      .ok (tempoCode tempo :: countBytes count) := by
  rw [writeCommand, toList_commandText rfl, Word.shortest_tempo]
  have hc (code : UInt8) : (do return code :: (← writeCount ((count.map toString).getD "").toList) :
      Except Failure Bytes) = .ok (code :: countBytes count) := by
    rw [writeCount_toString]
    rfl
  cases tempo
  · exact hc 0x06
  · exact hc 0x05
  · exact hc 0x07

theorem writeCommand_measure (number : Option Nat) :
    writeCommand (commandText (.measure number)) = .ok (0x01 :: countBytes number) := by
  rw [writeCommand, toList_commandText rfl, Word.shortest_measure]
  change (do return 0x01 :: (← writeCount _) : Except Failure Bytes) = _
  rw [writeCount_toString]
  rfl

theorem writeCommand_track (number : Nat) :
    writeCommand (commandText (.track number)) = .ok (0x0B :: writeNat number) := by
  have hd {c : Char} {tail : List Char} (h : (toString number).toList = c :: tail) :
      Text.isAsciiDigit c = true :=
    Text.isAsciiDigit_of_mem_toString (n := number) (by rw [h]; exact List.mem_cons_self ..)
  rw [writeCommand, toList_commandText rfl, Word.shortest_track]
  split
  · next h => cases h
  · next h => exact absurd (hd (List.cons.inj h).2) (by decide)
  · next h => cases h
  · next h => cases h
  · next h => exact absurd (hd (List.cons.inj h).2) (by decide)
  · next h => cases h
  · next h =>
    cases h
    rw [writeDigits_toString]
    rfl
  · next h => exact absurd rfl (h _)

/-- Bytes from which a token is read, whatever other token follows. -/
def Reads (bytes : Bytes) (token : Token) : Prop :=
  ∃ b body, bytes = b :: body ∧ startsToken b = true ∧
    ∀ size rest, Fresh rest → readToken size b (body ++ rest) = (.ok token, rest)

private theorem command_code {entry : String × UInt8} (h : entry ∈ commandCodes) :
    startsToken entry.2 = true ∧ isAccidental entry.2 = false ∧ noteOf? entry.2 = none ∧
      octaveNoteOf? entry.2 = none ∧ nameOf? commandCodes entry.2 = some entry.1 := by
  revert entry
  decide

private theorem reads_command (name : String) {b : UInt8} (h : (name, b) ∈ commandCodes)
    {body : Bytes}
    {token : Token}
    (hr : ∀ rest, Fresh rest → readCommand name (body ++ rest) = (.ok token, rest)) :
    Reads (b :: body) token := by
  obtain ⟨hs, ha, hn, ho, hc⟩ := command_code h
  refine ⟨b, body, rfl, hs, ?_⟩
  intro size rest hf
  rw [readToken, ha, if_neg (by decide), readBody, hn, ho]
  dsimp only
  rw [Option.isSome_none, if_neg (by decide), hc]
  exact hr rest hf

private theorem reads_counted (name : String) {b : UInt8} (h : (name, b) ∈ commandCodes)
    (hr : ∀ bytes, readCommand name bytes =
      (readCount bytes).map fun digits => .command (name ++ digits)) (count : Option Nat) :
    Reads (b :: countBytes count) (.command (name ++ (count.map toString).getD "")) := by
  apply reads_command name h
  intro rest hf
  rw [hr, readCount_countBytes count hf]
  rfl

/-- What is read behind the code of a command is the command with its text. -/
theorem reads_commandText {w : Word} (hc : w.isCommand = true) (hw : w.Valid) {bytes : Bytes}
    (h : writeCommand (Token.commandText w) = .ok bytes) :
    Reads bytes (.command (Token.commandText w)) := by
  cases w with
  | note | rest => cases hc
  | keySignature count =>
    rw [writeCommand_keySignature, Except.map_eq_ok_iff] at h
    obtain ⟨digits, hd, rfl⟩ := h
    apply reads_command "ks" (by decide)
    intro rest _
    rw [packed_eq_ok_iff] at hd
    change (readSigned _).map _ = _
    rw [readSigned_writeSigned hd]
    rfl
  | timeSignature beats unit =>
    rw [writeCommand_timeSignature] at h
    cases h
    apply reads_command "ts" (by decide)
    intro rest _
    change (readNat _).andThen _ = _
    rw [List.append_assoc, readNat_writeNat, Read.andThen, readNat_writeNat, Read.map, Read.andThen]
    rw [Token.commandText]
    simp only [String.append_assoc]
  | tempo tempo count =>
    rw [writeCommand_tempo] at h
    cases h
    cases tempo
    · exact reads_counted "ht" (by decide) (fun _ => rfl) count
    · exact reads_counted "dt" (by decide) (fun _ => rfl) count
    · exact reads_counted "tt" (by decide) (fun _ => rfl) count
  | measure number =>
    rw [writeCommand_measure] at h
    cases h
    exact reads_counted "m" (by decide) (fun _ => rfl) number
  | track number =>
    rw [writeCommand_track] at h
    cases h
    apply reads_command "t" (by decide)
    intro rest _
    change (readNat _).map _ = _
    rw [readNat_writeNat]
    rfl
  | clef letter =>
    rw [Word.Valid, List.mem_cons, List.mem_cons, List.mem_singleton] at hw
    rcases hw with rfl | rfl | rfl
    · cases h
      exact reads_command "/g" (by decide) fun rest _ => rfl
    · cases h
      exact reads_command "/c" (by decide) fun rest _ => rfl
    · cases h
      exact reads_command "/f" (by decide) fun rest _ => rfl

end Commands

/-- The small letter of a note. -/
def letterText (letter : Letter) : String := String.ofList [letter.toChar.toLower]

/-- The bytes of notes with an octave are no bytes of other tokens. -/
theorem octaveNote_code (letter : Letter) {n : Nat} (h : n < 10) :
    (octaveNoteCode? (letterText letter) n).any (fun b =>
      startsToken b && !isAccidental b && (noteOf? b).isNone &&
        octaveNoteOf? b = some (letterText letter, n)) = true := by
  revert n
  cases letter <;> decide +kernel

/-- A note has a byte, which tells its letter and octave. -/
theorem writeNoteByte_spec (letter : Letter) {octave : Option Int}
    (h : ∀ n ∈ octave, 0 ≤ n ∧ n ≤ 9) :
    ∃ b, writeNoteByte (letterText letter) octave = .ok b ∧ startsToken b = true ∧
      isAccidental b = false ∧ ∀ size accidental bytes,
        readBody size b accidental bytes =
          readNote (letterText letter) accidental octave bytes := by
  cases octave with
  | none =>
    cases letter
    all_goals exact ⟨_, rfl, by decide, by decide, fun _ _ _ => rfl⟩
  | some n =>
    obtain ⟨h0, h9⟩ := h n rfl
    obtain ⟨n, rfl⟩ := Int.eq_ofNat_of_zero_le h0
    obtain ⟨b, hb, hs⟩ :=
      (Option.any_eq_true _ _).mp (octaveNote_code letter (show n < 10 by omega))
    simp only [Bool.and_eq_true, Bool.not_eq_true', Option.isNone_iff_eq_none,
      decide_eq_true_eq] at hs
    obtain ⟨⟨⟨hs, ha⟩, hn⟩, ho⟩ := hs
    refine ⟨b, ?_, hs, ha, ?_⟩
    · rw [writeNoteByte]
      rw [hb]
    · intro size accidental bytes
      rw [readBody, hn, ho]

private theorem accidental_code (mark : Mark) :
    ∃ b, codeOf modifierCodes (String.ofList [mark.toChar]) = .ok b ∧ startsToken b = true ∧
      isAccidental b = true ∧ nameOf? modifierCodes b = some (String.ofList [mark.toChar]) := by
  cases mark
  all_goals exact ⟨_, rfl, by decide, by decide, by decide⟩

/-- A note has bytes, and is read back from them. -/
theorem writeToken_note {written letter : String} {accidental : Option String}
    {octave : Option Int} {timing : TokenTiming}
    (h : (Token.note written letter accidental octave timing).Sound) :
    ∃ bytes, writeToken (.note written letter accidental octave timing) = .ok bytes ∧
      Reads bytes (Token.note written letter accidental octave timing).normal := by
  obtain ⟨⟨l, rfl⟩, ha, ho, ht⟩ := h
  obtain ⟨b, hb, hs, hn, hr⟩ := writeNoteByte_spec l ho
  obtain ⟨behind, hw, hf⟩ := writeTiming_spec ht
  rw [letterText] at hb
  cases accidental with
  | none =>
    refine ⟨b :: behind, ?_, b, behind, rfl, hs, ?_⟩
    · rw [writeToken, hb, hw]
      rfl
    · intro size rest hrest
      rw [readToken, hn, if_neg (by decide), hr, readNote, hf rest hrest]
      rfl
  | some sign =>
    obtain ⟨mark, rfl⟩ := ha sign rfl
    obtain ⟨code, hc, hcs, hca, hcn⟩ := accidental_code mark
    refine ⟨code :: b :: behind, ?_, code, b :: behind, rfl, hcs, ?_⟩
    · have hn : String.ofList [mark.toChar] ≠ "" := by cases mark <;> decide
      rw [writeToken, hb, hw, hc]
      · rfl
      · exact hn
    · intro size rest hrest
      rw [readToken, hca, if_pos rfl, hcn, List.cons_append, readByte, Read.andThen, hr, readNote,
        hf rest hrest]
      rfl

/-- A token that is no field is read back from its bytes, if it has any. -/
theorem reads_of_writeToken {token : Token} (ht : token.Sound) {bytes : Bytes}
    (hf : ∀ key value, token ≠ .field key value) (h : writeToken token = .ok bytes) :
    Reads bytes token.normal := by
  cases token with
  | field key value => exact absurd rfl (hf key value)
  | note written letter accidental octave timing =>
    obtain ⟨bytes', hw, hr⟩ := writeToken_note ht
    rw [hw] at h
    cases h
    exact hr
  | rest written timing =>
    obtain ⟨behind, hw, hr⟩ := writeTiming_spec ht
    rw [writeToken, hw] at h
    cases h
    apply reads_command "r" (by decide)
    intro rest hf
    change (readTiming .plain _).map _ = _
    rw [hr rest hf]
    rfl
  | command text =>
    obtain ⟨w, hc, hw, rfl⟩ := ht
    exact reads_commandText hc hw h
  | string text =>
    obtain ⟨bytes', hw, h⟩ := Except.bind_eq_ok_iff.mp h
    cases h
    rw [packed_eq_ok_iff] at hw
    refine ⟨stringCode, bytes', rfl, by decide, ?_⟩
    intro size rest _
    change (readText 2 _).map _ = _
    rw [readText_writeText hw]
    rfl
  | chord text =>
    obtain ⟨name, rfl⟩ := ht
    obtain ⟨bytes', hw, h⟩ := Except.bind_eq_ok_iff.mp h
    cases h
    rw [packed_eq_ok_iff, String.toList_append] at hw
    apply reads_command "$" (by decide)
    intro rest _
    change (readText 1 _).map _ = _
    have hn : String.ofList (("$".toList ++ name.toList).drop 1) = name := String.ofList_toList
    rw [readText_writeText hw, hn]
    rfl
  | opening text =>
    cases ht
    cases h
    exact reads_command "\x7b" (by decide) fun rest _ => rfl
  | closing text =>
    cases ht
    cases h
    exact reads_command "\x7d" (by decide) fun rest _ => rfl
  | bar text =>
    cases ht
    cases h
    exact reads_command "|" (by decide) fun rest _ => rfl
  | other => exact ht.elim

theorem fieldsOf_append (fields : List (String × String)) {others : List Token}
    (ho : ∀ token ∈ others, ∀ key value, token ≠ .field key value) :
    fieldsOf (fieldTokens fields ++ others) = fields := by
  have hn : fieldsOf others = [] := by
    apply List.filterMap_eq_nil_iff.mpr
    intro token ht
    split
    · next key value => exact absurd rfl (ho _ ht key value)
    · rfl
  have hs : fieldsOf (fieldTokens fields) = fields := by
    rw [fieldsOf, fieldTokens, List.filterMap_map]
    exact List.filterMap_some
  have ha : fieldsOf (fieldTokens fields ++ others) =
      fieldsOf (fieldTokens fields) ++ fieldsOf others := List.filterMap_append
  rw [ha, hs, hn, List.append_nil]

theorem mapM_writeToken_fieldTokens (fields : List (String × String)) :
    (fieldTokens fields).mapM writeToken = .ok (fields.map fun _ => []) := by
  induction fields with
  | nil => rfl
  | cons field fields ih =>
    rw [fieldTokens] at ih
    rw [fieldTokens, List.map_cons, List.mapM_cons, ih]
    rfl

private theorem readText_bytes {α : Type} {text : String} {size : Nat} {bytes : Bytes}
    (h : writeText text size = .ok bytes) (rest : Bytes) (next : String → Bytes → Read α) :
    (readText size (bytes ++ rest)).andThen next = next text rest := by
  rw [readText_writeText h]
  rfl

/-- Fields are read back from their bytes. -/
theorem readFields_writeField {fields : List (String × String)} {chunks : List Bytes}
    (h : fields.mapM writeField = .ok chunks) (rest : Bytes) :
    readFields fields.length (chunks.flatten ++ rest) = (.ok (fieldTokens fields), rest) := by
  induction fields generalizing chunks with
  | nil =>
    cases h
    rfl
  | cons field fields ih =>
    rw [List.mapM_cons] at h
    obtain ⟨chunk, hc, h⟩ := Except.bind_eq_ok_iff.mp h
    obtain ⟨chunks, hcs, h⟩ := Except.bind_eq_ok_iff.mp h
    cases h
    obtain ⟨key, hk, hc⟩ := Except.bind_eq_ok_iff.mp hc
    obtain ⟨value, hv, hc⟩ := Except.bind_eq_ok_iff.mp hc
    cases hc
    rw [List.length_cons, readFields, List.flatten_cons, List.append_assoc, List.append_assoc,
      readText_bytes hk, readText_bytes hv, ih hcs]
    rfl

private theorem reads_fresh {bytes : Bytes} {token : Token} (h : Reads bytes token) (rest : Bytes) :
    Fresh (bytes ++ rest) := by
  obtain ⟨b, body, rfl, hb, -⟩ := h
  intro c hc
  cases hc
  exact hb

private theorem readTokens_of_reads {bytes : Bytes} {token : Token} (h : Reads bytes token)
    (size : Nat)
    (before : List Token) {rest : Bytes} (hf : Fresh rest) :
    readTokens size before (bytes ++ rest) = readTokens size (token :: before) rest := by
  obtain ⟨b, body, rfl, -, hr⟩ := h
  have hr := hr size rest hf
  rw [List.cons_append, readTokens]
  split
  · next he => rw [hr] at he; cases he
  · next he => rw [hr] at he; cases he; rfl

/-- Tokens that are no fields are read back from their bytes, one after the other. -/
theorem readTokens_writeToken {tokens : List Token} (hs : ∀ token ∈ tokens, token.Sound)
    (hf : ∀ token ∈ tokens, ∀ key value, token ≠ .field key value) {chunks : List Bytes}
    (h : tokens.mapM writeToken = .ok chunks) :
    Fresh chunks.flatten ∧ ∀ size before, readTokens size before chunks.flatten =
      .ok (before.reverse ++ tokens.map Token.normal) := by
  induction tokens generalizing chunks with
  | nil =>
    cases h
    refine ⟨fun _ hb => (Option.not_mem_none _ hb).elim, ?_⟩
    intro size before
    rw [List.reverse_nil, List.flatten_nil, readTokens, List.map_nil, List.append_nil]
  | cons token tokens ih =>
    rw [List.mapM_cons] at h
    obtain ⟨chunk, hc, h⟩ := Except.bind_eq_ok_iff.mp h
    obtain ⟨chunks, hcs, h⟩ := Except.bind_eq_ok_iff.mp h
    cases h
    have hr := reads_of_writeToken (hs token (List.mem_cons_self ..))
      (hf token (List.mem_cons_self ..)) hc
    obtain ⟨hfresh, ih⟩ := ih (fun t ht => hs t (List.mem_cons_of_mem _ ht))
      (fun t ht => hf t (List.mem_cons_of_mem _ ht)) hcs
    refine ⟨reads_fresh hr _, ?_⟩
    intro size before
    rw [List.flatten_cons, readTokens_of_reads hr size before hfresh, ih, List.reverse_cons,
      List.append_assoc]
    rfl

private theorem decode_magic {mark : UInt8} (hm : mark.toNat / 16 ≤ version) {rest tail : Bytes}
    {fields : List Token} (hh : readHead mark rest = (.ok fields, tail)) :
    decode (magic ++ mark :: rest) =
      readTokens (magic ++ mark :: rest).length fields.reverse tail := by
  have ht : (magic ++ mark :: rest).take 2 = magic := rfl
  have hd : (magic ++ mark :: rest).drop 2 = mark :: rest := rfl
  rw [decode, ht, hd, if_neg (by decide)]
  dsimp only
  rw [if_neg (Nat.not_lt.mpr hm), hh]

/-- Tokens of which the fields come first are read back from their bytes. -/
theorem decode_encode {fields : List (String × String)} {others : List Token}
    (hs : ∀ token ∈ others, token.Sound)
    (hf : ∀ token ∈ others, ∀ key value, token ≠ .field key value) {bytes : Bytes}
    (h : encode (fieldTokens fields ++ others) = .ok bytes) :
    decode bytes = .ok (fieldTokens fields ++ others.map Token.normal) := by
  rw [encode, fieldsOf_append fields hf, List.mapM_append, mapM_writeToken_fieldTokens] at h
  obtain ⟨head, hh, h⟩ := Except.bind_eq_ok_iff.mp h
  obtain ⟨chunks, hc, h⟩ := Except.bind_eq_ok_iff.mp h
  obtain ⟨none, hn, hc⟩ := Except.bind_eq_ok_iff.mp hc
  obtain ⟨chunks, hcs, hc⟩ := Except.bind_eq_ok_iff.mp hc
  cases hn
  cases hc
  cases h
  rw [packed_eq_ok_iff, writeHead] at hh
  have hr := (readTokens_writeToken hs hf hcs).2
  have hn : (fields.map fun _ => ([] : Bytes)).flatten = [] := by simp
  rw [List.flatten_append, hn, List.nil_append, List.append_assoc]
  by_cases he : fields.isEmpty = true
  · rw [if_pos he] at hh
    cases hh
    rw [List.isEmpty_iff.mp he, List.singleton_append, decode_magic (by decide) rfl]
    exact hr _ _
  · rw [if_neg he] at hh
    by_cases hl : 255 < fields.length
    · rw [if_pos hl] at hh
      cases hh
    · rw [if_neg hl] at hh
      obtain ⟨bytes, hb, hh⟩ := Except.bind_eq_ok_iff.mp hh
      cases hh
      have hc : (UInt8.ofNat fields.length).toNat = fields.length := Text.toNat_byte (by omega)
      have hh : readHead (UInt8.ofNat (version * 16) + 1) (UInt8.ofNat fields.length ::
          (bytes.flatten ++ chunks.flatten)) = (.ok (fieldTokens fields), chunks.flatten) := by
        rw [readHead, if_pos (by decide), readByte, Read.andThen, hc, readFields_writeField hb]
      rw [List.cons_append, List.cons_append, decode_magic (by decide) hh, hr, List.reverse_reverse]

end LeadSheet.Packed
