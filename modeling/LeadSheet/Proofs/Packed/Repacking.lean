import LeadSheet.Proofs.Packed.Limits
import LeadSheet.Proofs.Packed.TokenData
import LeadSheet.Proofs.Packed.Unpacking

/-!
Tokens that are unpacked can be packed again, and are unpacked as they were. Bytes may say the same
in more ways than one, but whatever they say has bytes of its own.
-/
namespace LeadSheet.Packed

section Readers
variable {α β : Type} {rest : Bytes}

private theorem Read.andThen_eq_ok_iff {r : Read α} {next : α → Bytes → Read β} {b : β} :
    r.andThen next = (.ok b, rest) ↔ ∃ a tail, r = (.ok a, tail) ∧ next a tail = (.ok b, rest) := by
  obtain ⟨result, tail⟩ := r
  cases result <;> simp [Read.andThen]

private theorem Read.map_eq_ok_iff {r : Read α} {f : α → β} {b : β} :
    r.map f = (.ok b, rest) ↔ ∃ a, r = (.ok a, rest) ∧ f a = b := by
  obtain ⟨result, tail⟩ := r
  cases result <;> simp [Read.map, Read.andThen, and_comm]

end Readers

/-! ### Numbers and texts -/

private theorem lengthOf_lt (bytes : Bytes) : lengthOf bytes < 256 ^ bytes.length := by
  induction bytes with
  | nil => decide
  | cons b rest ih =>
    have hb := b.toNat_lt
    rw [lengthOf, List.length_cons, Nat.pow_succ]
    omega

private theorem length_of_readBytes {n : Nat} {bytes taken rest : Bytes}
    (h : readBytes n bytes = (.ok taken, rest)) : taken.length = n := by
  rw [readBytes] at h
  split at h
  · cases h
  · cases h
    rw [List.length_take]
    omega

/-- A text that was read has no more bytes than its length could tell. -/
theorem byteLength_of_readText {size : Nat} {bytes rest : Bytes} {text : String}
    (h : readText size bytes = (.ok text, rest)) : byteLength text < 256 ^ size := by
  obtain ⟨length, tail, hl, h⟩ := Read.andThen_eq_ok_iff.mp h
  obtain ⟨taken, tail, ht, h⟩ := Read.andThen_eq_ok_iff.mp h
  split at h
  · next cs hc =>
    cases h
    rw [byteLength, String.toList_ofList, Text.utf8Encode_of_decode hc, length_of_readBytes ht,
      ← length_of_readBytes hl]
    exact lengthOf_lt length
  · cases h

/-- A number that was read would not be taken for the sign of another one. -/
theorem not_sign_of_readSigned {bytes rest : Bytes} {n : Int}
    (h : readSigned bytes = (.ok n, rest)) : ¬ (128 ≤ n ∧ n % 128 = 20) := by
  cases bytes with
  | nil => cases h
  | cons b bytes =>
    rw [readSigned] at h
    split at h
    · split at h
      · cases h
        omega
      · cases h
    · next hb =>
      have hb : b.toNat ≠ 148 := fun he => hb (UInt8.toNat_inj.mp he)
      rw [readNat] at h
      by_cases hs : b < 0x80
      · rw [if_pos hs] at h
        cases h
        have hs : b.toNat < 128 := UInt8.lt_iff_toNat_lt.mp hs
        omega
      · rw [if_neg hs] at h
        have hs : 128 ≤ b.toNat := Nat.not_lt.mp (UInt8.lt_iff_toNat_lt.not.mp hs)
        have hl := b.toNat_lt
        cases hr : readNat bytes with
        | mk result tail =>
          rw [hr] at h
          cases result with
          | error => cases h
          | ok m =>
            cases h
            omega

/-! ### Timings -/

/-- What a modifier says can be written. -/
def Modifier.Sound : Modifier → Prop
  | multiplier text => ∃ (scaling : Scaling) (n : Nat),
    text = String.ofList (scaling.toChar :: (toString n).toList)
  | scaling sign => ∃ s : Scaling, sign = String.ofList [s.toChar]
  | dots count => 0 < count
  | start => True

/-- The modifiers that there are. -/
theorem ofByte?_mem (b : UInt8) : ∀ modifier ∈ Modifier.ofByte? b, modifier ∈
    [Modifier.multiplier "*2", .multiplier "*3", .multiplier "*4", .multiplier "*5",
      .multiplier "*6", .multiplier "/2", .multiplier "/4", .dots 1, .dots 2, .start,
      .scaling "*", .scaling "/"] := by
  revert b
  exact forall_byte (by decide +kernel)

private theorem sound_ofByte? {b : UInt8} {modifier : Modifier}
    (h : Modifier.ofByte? b = some modifier) :
    modifier.Sound := by
  have hm := ofByte?_mem b modifier h
  simp only [List.mem_cons, List.not_mem_nil, or_false] at hm
  rcases hm with rfl | rfl | rfl | rfl | rfl | rfl | rfl | rfl | rfl | rfl | rfl | rfl
  · exact ⟨.multiplied, 2, rfl⟩
  · exact ⟨.multiplied, 3, rfl⟩
  · exact ⟨.multiplied, 4, rfl⟩
  · exact ⟨.multiplied, 5, rfl⟩
  · exact ⟨.multiplied, 6, rfl⟩
  · exact ⟨.divided, 2, rfl⟩
  · exact ⟨.divided, 4, rfl⟩
  · exact (by decide : (0 : Int) < 1)
  · exact (by decide : (0 : Int) < 2)
  · trivial
  · exact ⟨.multiplied, rfl⟩
  · exact ⟨.divided, rfl⟩

private theorem sound_apply {timing : TokenTiming} (ht : timing.Sound) {modifier : Modifier}
    (hm : modifier.Sound) (n : Nat) : (modifier.apply n timing).Sound := by
  cases modifier with
  | multiplier text =>
    exact { ht with multiplier := fun text' h => Option.some_inj.mp h ▸ hm }
  | scaling sign =>
    obtain ⟨s, rfl⟩ := hm
    refine { ht with multiplier := ?_ }
    rintro text h
    cases h
    refine ⟨s, n, ?_⟩
    rw [← String.toList_inj]
    simp
  | dots count =>
    refine { ht with dots := ?_ }
    intro m h
    cases h
    have hc : 0 < count := hm
    cases hd : timing.dots with
    | none => simpa using hc
    | some k =>
      have hk := ht.dots k hd
      rw [Option.getD_some]
      omega
  | start =>
    refine { ht with start := ?_ }
    intro m h
    cases h
    exact Int.natCast_nonneg n

private theorem sound_of_readTiming {timing result : TokenTiming} (ht : timing.Sound)
    {bytes rest : Bytes}
    (h : readTiming timing bytes = (.ok result, rest)) : result.Sound := by
  fun_induction readTiming timing bytes with
  | case1 timing =>
    cases h
    exact ht
  | case2 timing b tail hb =>
    cases h
    exact ht
  | case3 => cases h
  | case4 timing b tail modifier hb hn n left hr ih =>
    exact ih (sound_apply ht (sound_ofByte? hb) n) h
  | case5 timing b tail modifier hb hn ih =>
    exact ih (sound_apply ht (sound_ofByte? hb) 0) h

private theorem TokenTiming.sound_plain : TokenTiming.plain.Sound where
  multiplier := nofun
  dots := nofun
  start := nofun

/-! ### Tokens -/

/-- A token as it is unpacked: its text is the shortest, and it has bytes. -/
structure Unpacked (token : Token) : Prop where
  sound : token.Sound
  normal : token.normal = token
  ne_field : ∀ key value, token ≠ .field key value
  packs : ∃ bytes, writeToken token = .ok bytes

private theorem unpacked_note (letter : Letter) {accidental : Option String}
    (ha : ∀ sign ∈ accidental, ∃ mark : Mark, sign = String.ofList [mark.toChar])
    {octave : Option Int} (ho : ∀ n ∈ octave, 0 ≤ n ∧ n ≤ 9) {bytes rest : Bytes} {token : Token}
    (h : readNote (letterText letter) accidental octave bytes = (.ok token, rest)) :
    Unpacked token := by
  obtain ⟨timing, ht, rfl⟩ := Read.map_eq_ok_iff.mp h
  have hs (written : String) :
      (Token.note written (letterText letter) accidental octave timing).Sound :=
    ⟨⟨letter, rfl⟩, ha, ho, sound_of_readTiming TokenTiming.sound_plain ht⟩
  obtain ⟨bytes, hw, -⟩ := writeToken_note (hs _)
  exact ⟨hs _, rfl, nofun, bytes, hw⟩

private theorem unpacked_command {w : Word} (hc : w.isCommand = true) (hw : w.Valid) {bytes : Bytes}
    (h : writeCommand (Token.commandText w) = .ok bytes) :
    Unpacked (.command (Token.commandText w)) :=
  ⟨⟨w, hc, hw, rfl⟩, rfl, nofun, bytes, h⟩

/-- What is read as a count is nothing or a number. -/
theorem of_readCount {bytes rest : Bytes} {text : String}
    (h : readCount bytes = (.ok text, rest)) :
    ∃ count : Option Nat, text = (count.map toString).getD "" := by
  cases bytes with
  | nil =>
    cases h
    exact ⟨none, rfl⟩
  | cons b bytes =>
    rw [readCount] at h
    split at h
    · obtain ⟨n, -, rfl⟩ := Read.map_eq_ok_iff.mp h
      exact ⟨some n, rfl⟩
    · cases h
      exact ⟨none, rfl⟩

private theorem unpacked_keySignature {bytes rest : Bytes} {token : Token}
    (h : readCommand "ks" bytes = (.ok token, rest)) : Unpacked token := by
  change (readSigned bytes).map (fun n => Token.command ("ks" ++ toString n)) = _ at h
  obtain ⟨count, hr, rfl⟩ := Read.map_eq_ok_iff.mp h
  obtain ⟨written, hw⟩ := (yields_keySignature count).exists_eq_ok (not_sign_of_readSigned hr)
  exact unpacked_command (w := .keySignature count) rfl trivial hw

private theorem unpacked_timeSignature {bytes rest : Bytes} {token : Token}
    (h : readCommand "ts" bytes = (.ok token, rest)) : Unpacked token := by
  change (readNat bytes).andThen _ = _ at h
  obtain ⟨beats, tail, -, h⟩ := Read.andThen_eq_ok_iff.mp h
  obtain ⟨unit, -, rfl⟩ := Read.map_eq_ok_iff.mp h
  have ht : "ts" ++ (toString beats ++ "/" ++ toString unit) =
      Token.commandText (.timeSignature beats unit) := by
    rw [Token.commandText]
    simp only [String.append_assoc]
  change Unpacked (.command ("ts" ++ (toString beats ++ "/" ++ toString unit)))
  rw [ht]
  exact unpacked_command rfl trivial (writeCommand_timeSignature beats unit)

private theorem unpacked_rest {bytes rest : Bytes} {token : Token}
    (h : readCommand "r" bytes = (.ok token, rest)) : Unpacked token := by
  change (readTiming .plain bytes).map (fun timing => Token.rest (Token.restText timing) timing) =
    _ at h
  obtain ⟨timing, ht, rfl⟩ := Read.map_eq_ok_iff.mp h
  have hs := sound_of_readTiming TokenTiming.sound_plain ht
  obtain ⟨behind, hw, -⟩ := writeTiming_spec hs
  exact ⟨hs, rfl, nofun, 0x08 :: behind, by rw [writeToken, hw]; rfl⟩

private theorem unpacked_chord {bytes rest : Bytes} {token : Token}
    (h : readCommand "$" bytes = (.ok token, rest)) : Unpacked token := by
  obtain ⟨name, hr, rfl⟩ := Read.map_eq_ok_iff.mp h
  have hl := byteLength_of_readText hr
  obtain ⟨written, hw⟩ := (yields_chord name).exists_eq_ok (by omega)
  exact ⟨⟨name, rfl⟩, rfl, nofun, written, hw⟩

private theorem unpacked_of_readCommand {name : String} {code : UInt8}
    (hn : (name, code) ∈ commandCodes)
    {bytes rest : Bytes} {token : Token} (h : readCommand name bytes = (.ok token, rest)) :
    Unpacked token := by
  simp only [commandCodes, List.mem_cons, Prod.mk.injEq, List.not_mem_nil, or_false] at hn
  have counted {name : String} (hr : (readCount bytes).map (fun text =>
      Token.command (name ++ text)) = (.ok token, rest)) :
      ∃ count : Option Nat, token = .command (name ++ (count.map toString).getD "") := by
    obtain ⟨text, ht, rfl⟩ := Read.map_eq_ok_iff.mp hr
    obtain ⟨count, rfl⟩ := of_readCount ht
    exact ⟨count, rfl⟩
  rcases hn with ⟨rfl, -⟩ | ⟨rfl, -⟩ | ⟨rfl, -⟩ | ⟨rfl, -⟩ | ⟨rfl, -⟩ | ⟨rfl, -⟩ | ⟨rfl, -⟩ |
    ⟨rfl, -⟩ | ⟨rfl, -⟩ | ⟨rfl, -⟩ | ⟨rfl, -⟩ | ⟨rfl, -⟩ | ⟨rfl, -⟩ | ⟨rfl, -⟩ | ⟨rfl, -⟩
  · obtain ⟨count, rfl⟩ := counted h
    exact unpacked_command (w := .measure count) rfl trivial (writeCommand_measure count)
  · cases h
    exact ⟨rfl, rfl, nofun, _, rfl⟩
  · cases h
    exact ⟨rfl, rfl, nofun, _, rfl⟩
  · cases h
    exact ⟨rfl, rfl, nofun, _, rfl⟩
  · obtain ⟨count, rfl⟩ := counted h
    exact unpacked_command (w := .tempo .double count) rfl trivial (writeCommand_tempo _ count)
  · obtain ⟨count, rfl⟩ := counted h
    exact unpacked_command (w := .tempo .half count) rfl trivial (writeCommand_tempo _ count)
  · obtain ⟨count, rfl⟩ := counted h
    exact unpacked_command (w := .tempo .triple count) rfl trivial (writeCommand_tempo _ count)
  · exact unpacked_rest h
  · exact unpacked_keySignature h
  · exact unpacked_timeSignature h
  · change (readNat bytes).map (fun n => Token.command ("t" ++ toString n)) = _ at h
    obtain ⟨number, -, rfl⟩ := Read.map_eq_ok_iff.mp h
    exact unpacked_command (w := .track number) rfl trivial (writeCommand_track number)
  · cases h
    exact unpacked_command (w := .clef 'g') rfl (by rw [Word.Valid]; decide) rfl
  · cases h
    exact unpacked_command (w := .clef 'c') rfl (by rw [Word.Valid]; decide) rfl
  · cases h
    exact unpacked_command (w := .clef 'f') rfl (by rw [Word.Valid]; decide) rfl
  · exact unpacked_chord h

/-- What the codes of notes and accidentals stand for. -/
theorem noteOf?_letter (b : UInt8) : ∀ text ∈ noteOf? b, ∃ letter ∈ Letter.all,
    text = letterText letter := by
  revert b
  exact forall_byte (by decide +kernel)

private theorem octaveNoteOf?_letter (b : UInt8) : ∀ note ∈ octaveNoteOf? b,
    note.2 ≤ 9 ∧ ∃ letter ∈ Letter.all, note.1 = letterText letter := by
  revert b
  exact forall_byte (by decide +kernel)

private theorem nameOf?_accidental (b : UInt8) : isAccidental b = true →
    ∀ sign ∈ nameOf? modifierCodes b, ∃ mark ∈ [Mark.sharp, .flat, .natural],
      sign = String.ofList [mark.toChar] := by
  revert b
  exact forall_byte (by decide +kernel)

private theorem mem_of_nameOf? {codes : List (String × UInt8)} {b : UInt8} {name : String}
    (h : nameOf? codes b = some name) : (name, b) ∈ codes := by
  obtain ⟨entry, he, rfl⟩ := Option.map_eq_some_iff.mp h
  have hb := List.find?_some he
  rw [decide_eq_true_eq] at hb
  rw [← hb]
  exact List.mem_of_find?_eq_some he

private theorem unpacked_of_readBody {size : Nat} {b : UInt8} {accidental : Option String}
    (ha : ∀ sign ∈ accidental, ∃ mark : Mark, sign = String.ofList [mark.toChar])
    {bytes rest : Bytes} {token : Token}
    (h : readBody size b accidental bytes = (.ok token, rest)) : Unpacked token := by
  rw [readBody] at h
  split at h
  · next hn =>
    obtain ⟨l, -, rfl⟩ := noteOf?_letter b _ hn
    exact unpacked_note l ha (fun _ hs => (Option.not_mem_none _ hs).elim) h
  · next letter octave hn ho =>
    obtain ⟨h9, l, -, hl⟩ := octaveNoteOf?_letter b _ ho
    rw [show letter = letterText l from hl] at h
    refine unpacked_note l ha ?_ h
    rintro n hn
    cases hn
    exact ⟨Int.natCast_nonneg octave, by omega⟩
  · split at h
    · cases h
    · split at h
      · next name hn => exact unpacked_of_readCommand (mem_of_nameOf? hn) h
      · split at h
        · obtain ⟨text, hr, rfl⟩ := Read.map_eq_ok_iff.mp h
          have hl := byteLength_of_readText hr
          obtain ⟨written, hw⟩ := (yields_string text).exists_eq_ok (by omega)
          exact ⟨trivial, rfl, fun _ _ h => Token.noConfusion h, written, hw⟩
        · cases h

/-- Every token that is read can be packed. -/
theorem unpacked_of_readToken {size : Nat} {b : UInt8} {bytes rest : Bytes} {token : Token}
    (h : readToken size b bytes = (.ok token, rest)) : Unpacked token := by
  rw [readToken] at h
  split at h
  · next ha =>
    obtain ⟨c, tail, -, h⟩ := Read.andThen_eq_ok_iff.mp h
    refine unpacked_of_readBody ?_ h
    intro sign hs
    obtain ⟨mark, -, hm⟩ := nameOf?_accidental b ha sign hs
    exact ⟨mark, hm⟩
  · exact unpacked_of_readBody (fun _ hs => (Option.not_mem_none _ hs).elim) h

/-- Tokens are read behind those before, and can be packed. -/
theorem unpacked_of_readTokens {size : Nat} {before tokens : List Token} {bytes : Bytes}
    (h : readTokens size before bytes = .ok tokens) :
    ∃ others, tokens = before.reverse ++ others ∧ ∀ token ∈ others, Unpacked token := by
  fun_induction readTokens size before bytes with
  | case1 before =>
    cases h
    exact ⟨[], (List.append_nil _).symm, fun _ h => (List.not_mem_nil h).elim⟩
  | case2 => cases h
  | case3 before b rest token tail hr ih =>
    obtain ⟨others, rfl, ho⟩ := ih h
    refine ⟨token :: others, ?_, ?_⟩
    · rw [List.reverse_cons, List.append_assoc]
      rfl
    · exact List.forall_mem_cons.mpr ⟨unpacked_of_readToken hr, ho⟩

/-! ### Fields -/

private theorem of_readFields {count : Nat} {bytes rest : Bytes} {tokens : List Token}
    (h : readFields count bytes = (.ok tokens, rest)) :
    ∃ fields, tokens = fieldTokens fields ∧ fields.length = count ∧
      ∀ field ∈ fields, byteLength field.1 ≤ 255 ∧ byteLength field.2 ≤ 255 := by
  induction count generalizing bytes tokens with
  | zero =>
    cases h
    exact ⟨[], rfl, rfl, nofun⟩
  | succ count ih =>
    obtain ⟨key, tail, hk, h⟩ := Read.andThen_eq_ok_iff.mp h
    obtain ⟨value, tail, hv, h⟩ := Read.andThen_eq_ok_iff.mp h
    obtain ⟨others, ho, rfl⟩ := Read.map_eq_ok_iff.mp h
    obtain ⟨fields, rfl, hl, hf⟩ := ih ho
    have hk : byteLength key ≤ 255 := Nat.le_of_lt_succ (byteLength_of_readText hk)
    have hv : byteLength value ≤ 255 := Nat.le_of_lt_succ (byteLength_of_readText hv)
    exact ⟨(key, value) :: fields, rfl, congrArg (· + 1) hl,
      List.forall_mem_cons.mpr ⟨⟨hk, hv⟩, hf⟩⟩

/-- The fields that are read can be packed. -/
theorem of_readHead {mark : UInt8} {bytes rest : Bytes} {tokens : List Token}
    (h : readHead mark bytes = (.ok tokens, rest)) :
    ∃ fields, tokens = fieldTokens fields ∧ ¬ FieldsOversized fields := by
  rw [readHead] at h
  split at h
  · obtain ⟨count, tail, -, h⟩ := Read.andThen_eq_ok_iff.mp h
    obtain ⟨fields, rfl, hl, hf⟩ := of_readFields h
    have hc := count.toNat_lt
    refine ⟨fields, rfl, ?_⟩
    rintro (hn | ⟨field, hm, hn⟩)
    · omega
    · have hb := hf field hm
      omega
  · cases h
    refine ⟨[], rfl, ?_⟩
    rintro (hn | ⟨field, hm, -⟩)
    · cases hn
    · cases hm

/-- What tokens there are in bytes. -/
theorem of_decode {bytes : Bytes} {tokens : List Token} (h : decode bytes = .ok tokens) :
    ∃ fields others, tokens = fieldTokens fields ++ others ∧ ¬ FieldsOversized fields ∧
      ∀ token ∈ others, Unpacked token := by
  rw [decode] at h
  split at h
  · cases h
  split at h
  · cases h
  split at h
  · cases h
  split at h
  · cases h
  · next hh =>
    obtain ⟨fields, rfl, hf⟩ := of_readHead hh
    obtain ⟨others, rfl, ho⟩ := unpacked_of_readTokens h
    exact ⟨fields, others, by rw [List.reverse_reverse], hf, ho⟩

/-- Tokens that can be packed one by one can be packed together. -/
theorem exists_encode_eq_ok {fields : List (String × String)} (hf : ¬ FieldsOversized fields)
    {others : List Token} (ho : ∀ token ∈ others, Unpacked token) :
    ∃ bytes, encode (fieldTokens fields ++ others) = .ok bytes := by
  obtain ⟨chunks, hc⟩ := Except.exists_mapM_eq_ok fun token ht => (ho token ht).packs
  obtain ⟨head, hh⟩ : ∃ head, packed (writeHead fields) = .ok head :=
    (yields_packed (yields_writeHead fields)).exists_eq_ok hf
  rw [encode, fieldsOf_append fields fun token ht => (ho token ht).ne_field, hh,
    List.mapM_append, mapM_writeToken_fieldTokens, hc]
  exact ⟨_, rfl⟩

theorem sound_of_unpack {fields : List (String × String)} {others : List Token}
    (ho : ∀ token ∈ others, Unpacked token) :
    ∀ token ∈ fieldTokens fields ++ others, token.Sound := by
  intro token ht
  rcases List.mem_append.mp ht with ht | ht
  · obtain ⟨field, -, rfl⟩ := List.mem_map.mp ht
    trivial
  · exact (ho token ht).sound

/-- Unpacking gives tokens or a fault of the data, and the tokens it gives can be packed. What they
are packed into may be other bytes, but the same tokens are unpacked from them. -/
theorem unpack_encode (bytes : Bytes) :
    unpack bytes = packed (decode bytes) ∧
      ((∃ tokens, unpack bytes = .ok tokens) ∨
        ∃ fault, unpack bytes = .error (.packing fault)) ∧
        ∀ tokens, unpack bytes = .ok tokens →
          ∃ again, encode tokens = .ok again ∧
            TokenFields.encode (tokens.map .ofToken) = .ok again ∧ unpack again = .ok tokens := by
  refine ⟨unpack_eq bytes, ?_, ?_⟩
  · rw [unpack_eq]
    cases decode bytes with
    | ok tokens => exact .inl ⟨tokens, rfl⟩
    | error fault => exact .inr ⟨fault, rfl⟩
  · intro tokens h
    rw [unpack_eq, packed_eq_ok_iff] at h
    obtain ⟨fields, others, rfl, hf, ho⟩ := of_decode h
    obtain ⟨again, ha⟩ := exists_encode_eq_ok hf ho
    have hn : others.map Token.normal = others :=
      (List.map_congr_left fun token ht => (ho token ht).normal).trans (List.map_id others)
    refine ⟨again, ha, ?_, ?_⟩
    · rw [TokenFields.encode_map_ofToken (sound_of_unpack ho), ha]
    · rw [unpack_eq, packed_eq_ok_iff, decode_encode (fun token ht => (ho token ht).sound)
        (fun token ht => (ho token ht).ne_field) ha, hn]

/-- A number with a byte too many and a negative zero are packed in fewer bytes. -/
theorem unpack_encode_padded :
    unpack [0x4C, 0x4D, 0x10, 0x0B, 0x85, 0x00, 0x09, 0x94, 0x00] =
        .ok [.command "t5", .command "ks0"] ∧
      ∃ again, encode [.command "t5", .command "ks0"] = .ok again ∧
        unpack again = .ok [.command "t5", .command "ks0"] := by
  have h : unpack [0x4C, 0x4D, 0x10, 0x0B, 0x85, 0x00, 0x09, 0x94, 0x00] =
      .ok [.command "t5", .command "ks0"] := by
    decide +kernel
  obtain ⟨again, ha, -, hu⟩ := (unpack_encode _).2.2 _ h
  exact ⟨h, again, ha, hu⟩

end LeadSheet.Packed
