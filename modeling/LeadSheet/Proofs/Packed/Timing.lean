import LeadSheet.Proofs.Markup.Token
import LeadSheet.Proofs.Packed.Varint

/-!
What stands behind notes and rests is read back from its bytes, when none of the bytes that follow
would be taken for a part of it.
-/
namespace LeadSheet.Packed

/-- Bytes that cannot be taken for a part of the token before them. -/
def startsToken (b : UInt8) : Bool := (Modifier.ofByte? b).isNone && b != countCode

/-- No part of the token before can be read from the bytes. -/
def Fresh (bytes : Bytes) : Prop := ∀ b ∈ bytes.head?, startsToken b = true

private theorem readTiming_fresh (timing : TokenTiming) {rest : Bytes} (h : Fresh rest) :
    readTiming timing rest = (.ok timing, rest) := by
  cases rest with
  | nil => rw [readTiming]
  | cons b rest =>
    have hb := h b rfl
    rw [startsToken, Bool.and_eq_true, Option.isNone_iff_eq_none] at hb
    rw [readTiming, hb.1]

private theorem readTiming_modifier (timing : TokenTiming) {b : UInt8} {modifier : Modifier}
    (hb : Modifier.ofByte? b = some modifier) (hn : modifier.takesNumber = false) (rest : Bytes) :
    readTiming timing (b :: rest) = readTiming (modifier.apply 0 timing) rest := by
  rw [readTiming, hb]
  simp only [hn, Bool.false_eq_true, if_false]

private theorem readTiming_number (timing : TokenTiming) {b : UInt8} {modifier : Modifier}
    (hb : Modifier.ofByte? b = some modifier) (hn : modifier.takesNumber = true) (n : Nat)
    (rest : Bytes) :
    readTiming timing (b :: (writeNat n ++ rest)) = readTiming (modifier.apply n timing) rest := by
  have hr := readNat_writeNat n rest
  rw [readTiming, hb]
  simp only [hn, if_true]
  split
  · next he => rw [hr] at he; cases he
  · next he => rw [hr] at he; cases he; rfl

/-- A timing with more dots. -/
def addDots (timing : TokenTiming) (n : Int) : TokenTiming :=
  { timing with dots := some (timing.dots.getD 0 + n) }

private theorem addDots_addDots (timing : TokenTiming) (m n : Int) :
    addDots (addDots timing m) n = addDots timing (m + n) := by
  rw [addDots, addDots, addDots, Option.getD_some, Int.add_assoc]

private theorem readTiming_pairs (timing : TokenTiming) (k : Nat) (rest : Bytes) :
    readTiming timing (List.replicate (k + 1) 0x8B ++ rest) =
      readTiming (addDots timing (2 * (k + 1 : Nat))) rest := by
  have hs (timing : TokenTiming) (rest : Bytes) :
      readTiming timing (0x8B :: rest) = readTiming (addDots timing 2) rest :=
    readTiming_modifier timing (show Modifier.ofByte? 0x8B = some (.dots 2) by decide) rfl rest
  induction k generalizing timing with
  | zero => exact hs timing rest
  | succ k ih =>
    rw [List.replicate_succ, List.cons_append, hs, ih, addDots_addDots]
    congr 2
    omega

private theorem readTiming_writeDots (timing : TokenTiming) {n : Int} (h : 0 < n) (rest : Bytes) :
    readTiming timing (writeDots n ++ rest) = readTiming (addDots timing n) rest := by
  have hs (timing : TokenTiming) :
      readTiming timing (0x8A :: rest) = readTiming (addDots timing 1) rest :=
    readTiming_modifier timing (show Modifier.ofByte? 0x8A = some (.dots 1) by decide) rfl rest
  rw [writeDots, List.append_assoc]
  by_cases h1 : n % 2 = 1
  · rw [if_pos h1, List.singleton_append]
    cases hk : (n / 2).toNat with
    | zero =>
      rw [List.replicate_zero, List.nil_append, hs, show n = 1 by omega]
    | succ k =>
      rw [readTiming_pairs, hs, addDots_addDots]
      congr 2
      omega
  · rw [if_neg h1, List.nil_append]
    obtain ⟨k, hk⟩ : ∃ k, (n / 2).toNat = k + 1 := ⟨(n / 2).toNat - 1, by omega⟩
    rw [hk, readTiming_pairs]
    congr 2
    omega

/-- Every code of a multiplier stands for the text that it is the code of. -/
theorem ofByte?_of_mem_modifierCodes {entry : String × UInt8} (h : entry ∈ modifierCodes)
    (hl : 2 ≤ entry.1.toList.length) (hc : entry.1.toList.head? ≠ some '.') :
    Modifier.ofByte? entry.2 = some (.multiplier entry.1) := by
  revert entry
  decide

private theorem mem_of_lookup {codes : List (String × UInt8)} {name : String} {code : UInt8}
    (h : codes.lookup name = some code) : (name, code) ∈ codes := by
  induction codes with
  | nil => cases h
  | cons entry codes ih =>
    rw [List.lookup_cons] at h
    split at h
    · next he =>
      cases h
      rw [beq_iff_eq.mp he]
      exact List.mem_cons_self ..
    · exact List.mem_cons_of_mem _ (ih h)

/-- A multiplier has bytes, and is read back from them. -/
theorem writeMultiplier_spec (scaling : Scaling) (n : Nat) {text : String}
    (ht : text = String.ofList (scaling.toChar :: (toString n).toList)) :
    ∃ bytes, writeMultiplier text = .ok bytes ∧ ∀ timing rest,
      readTiming timing (bytes ++ rest) =
        readTiming { timing with multiplier := some text } rest := by
  have hl : text.toList = scaling.toChar :: (toString n).toList := by
    rw [ht, String.toList_ofList]
  rw [writeMultiplier]
  split
  · next code he =>
    have hn := List.length_pos_iff.mpr (Text.toList_toString_ne_nil n)
    refine ⟨[code], rfl, ?_⟩
    intro timing rest
    have hc : text.toList.head? ≠ some '.' := by
      rw [hl, List.head?_cons]
      cases scaling <;> decide
    have hb := ofByte?_of_mem_modifierCodes (mem_of_lookup he)
      (by rw [hl, List.length_cons]; omega) hc
    exact readTiming_modifier timing hb rfl rest
  · have hs : text = String.ofList [scaling.toChar] ++ toString n := by
      rw [ht, ← String.toList_inj]
      simp
    have hw : packed (writeUnsigned n) = .ok (writeNat n) := by
      rw [writeUnsigned_natCast]
      rfl
    rw [hl, List.drop_succ_cons, List.drop_zero, List.take_succ_cons, List.take_zero,
      IntegerText.read_toString_nat, hs]
    cases scaling with
    | multiplied =>
      have hb : Modifier.ofByte? 0x8D = some (.scaling "*") := by decide
      refine ⟨0x8D :: writeNat n, ?_, fun timing rest => readTiming_number timing hb rfl n rest⟩
      exact congrArg (fun r => do let bytes ← r; pure (0x8D :: bytes)) hw
    | divided =>
      have hb : Modifier.ofByte? 0x8E = some (.scaling "/") := by decide
      refine ⟨0x8E :: writeNat n, ?_, fun timing rest => readTiming_number timing hb rfl n rest⟩
      exact congrArg (fun r => do let bytes ← r; pure (0x8E :: bytes)) hw

/-- The bytes of a multiplier that may be left out. -/
def multiplierPart : Option String → Except Failure Bytes
  | none | some "" => .ok []
  | some text => writeMultiplier text

/-- The bytes of a start that may be left out. -/
def startPart : Option Int → Except Failure Bytes
  | none => .ok []
  | some n => do return 0x8C :: (← packed (writeUnsigned n))

private theorem writeTiming_eq (timing : TokenTiming) :
    writeTiming timing = do
      let multiplier ← multiplierPart timing.multiplier
      let start ← startPart timing.start
      return multiplier ++ (timing.dots.map writeDots).getD [] ++ start := by
  obtain ⟨multiplier, dots, start⟩ := timing
  have hs (next : Bytes → Except Failure Bytes) :
      (match start with
        | none => do
          let start ← pure []
          next start
        | some n => do
          let bytes ← packed (writeUnsigned n)
          let start ← pure (0x8C :: bytes)
          next start) = startPart start >>= next := by
    cases start with
    | none => rfl
    | some n => rw [startPart, bind_assoc]
  cases multiplier with
  | none => exact hs _
  | some text =>
    by_cases h : text = ""
    · rw [h]
      exact hs _
    · rw [multiplierPart.eq_3 text h, writeTiming]
      dsimp only
      split
      · next he => cases he
      · next he => exact absurd (Option.some.inj he) h
      · next he =>
        cases he
        exact congrArg (writeMultiplier text >>= ·) (funext fun _ => hs _)

private theorem multiplierPart_spec {timing : TokenTiming} (ht : timing.Sound) :
    ∃ bytes, multiplierPart timing.multiplier = .ok bytes ∧ ∀ rest,
      readTiming .plain (bytes ++ rest) = readTiming ⟨timing.multiplier, none, none⟩ rest := by
  cases hm : timing.multiplier with
  | none => exact ⟨[], rfl, fun rest => rfl⟩
  | some text =>
    obtain ⟨scaling, n, hs⟩ := ht.multiplier text hm
    obtain ⟨bytes, hb, hr⟩ := writeMultiplier_spec scaling n hs
    have hc : text.toList ≠ [] := by
      rw [hs, String.toList_ofList]
      exact List.cons_ne_nil _ _
    refine ⟨bytes, ?_, fun rest => hr .plain rest⟩
    rw [multiplierPart, hb]
    rintro rfl
    exact hc rfl

private theorem startPart_spec {timing : TokenTiming} (ht : timing.Sound) :
    ∃ bytes, startPart timing.start = .ok bytes ∧ ∀ before : TokenTiming, before.start = none →
      ∀ rest, readTiming before (bytes ++ rest) =
        readTiming { before with start := timing.start } rest := by
  cases hs : timing.start with
  | none => exact ⟨[], rfl, fun before hb rest => by rw [← hb]; rfl⟩
  | some n =>
    obtain ⟨n, rfl⟩ := Int.eq_ofNat_of_zero_le (ht.start n hs)
    have hb : Modifier.ofByte? 0x8C = some .start := by decide
    refine ⟨0x8C :: writeNat n, ?_, fun before _ rest => readTiming_number before hb rfl n rest⟩
    rw [startPart, writeUnsigned_natCast]
    rfl

private theorem dotsPart_spec {timing : TokenTiming} (ht : timing.Sound) (rest : Bytes) :
    readTiming ⟨timing.multiplier, none, none⟩ ((timing.dots.map writeDots).getD [] ++ rest) =
      readTiming ⟨timing.multiplier, timing.dots, none⟩ rest := by
  cases hd : timing.dots with
  | none => rfl
  | some n =>
    rw [Option.map_some, Option.getD_some, readTiming_writeDots _ (ht.dots n hd), addDots,
      Option.getD_none, Int.zero_add]

/-- A sound timing has bytes, and is read back from them. -/
theorem writeTiming_spec {timing : TokenTiming} (ht : timing.Sound) :
    ∃ bytes, writeTiming timing = .ok bytes ∧ ∀ rest, Fresh rest →
      readTiming .plain (bytes ++ rest) = (.ok timing, rest) := by
  obtain ⟨multiplier, hm, hrm⟩ := multiplierPart_spec ht
  obtain ⟨start, hs, hrs⟩ := startPart_spec ht
  refine ⟨multiplier ++ (timing.dots.map writeDots).getD [] ++ start, ?_, ?_⟩
  · rw [writeTiming_eq, hm, hs]
    rfl
  · intro rest hr
    rw [List.append_assoc, List.append_assoc, hrm, dotsPart_spec ht, hrs _ rfl,
      readTiming_fresh _ hr]

end LeadSheet.Packed
