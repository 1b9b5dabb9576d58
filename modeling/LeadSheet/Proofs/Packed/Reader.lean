import LeadSheet.Packed.Reader
import LeadSheet.Proofs.Packed.Varint

/-!
Numbers that a reader is asked for. Wherever the bytes of a number stand in the data, the reader gives
the number and stops behind its last byte. All whole numbers have bytes with a sign, except those whose
first byte would be the sign of a negative one.
-/
namespace LeadSheet.Packed

namespace Reader

/-- The reader that has read some bytes and has others left. -/
def between (front back : Bytes) : Reader := ⟨front ++ back, front.length⟩

section
variable {α : Type} {front bytes back : Bytes} {read : Bytes → Read α} {a : α}

@[simp] theorem rest_between : (between front back).rest = back := by
  rw [rest, between, if_pos (Int.natCast_nonneg _), Int.toNat_natCast, List.drop_left]

@[simp] theorem isLost_between : (between front back).isLost = false := by
  rw [isLost, between, decide_eq_false_iff_not]
  dsimp only
  omega

/-- What is read from the bytes that are left, up to the end of some of them, is what the reader gives,
and it stops there. -/
theorem run_between (h : read (bytes ++ back) = (.ok a, back)) :
    (between front (bytes ++ back)).run read = (between (front ++ bytes) back, .ok a) := by
  have hposition : (front.length : Int) + ((bytes ++ back).length - back.length : Nat) =
      (front ++ bytes).length := by
    rw [List.length_append, List.length_append]
    omega
  rw [run, rest_between, h, between, between, List.append_assoc, ← hposition]
  rfl

private theorem ask_between (h : read (bytes ++ back) = (.ok a, back)) :
    (between front (bytes ++ back)).ask read = (between (front ++ bytes) back, .ok a) := by
  rw [ask, isLost_between, if_neg Bool.false_ne_true, run_between h]

private theorem next_between (h : read (bytes ++ back) = (.ok a, back)) :
    (between front (bytes ++ back)).next read = (between (front ++ bytes) back, .ok a) := by
  rw [next, isLost_between, if_neg Bool.false_ne_true, run_between h]

end
end Reader

/-! ### Bytes of numbers -/

/-- More than seven bits are needed, and the lowest of them would be written with the byte that is the
sign of negative numbers. -/
def ReadsAsSign (n : Int) : Prop := 128 ≤ n ∧ n % 128 = 20

instance (n : Int) : Decidable (ReadsAsSign n) :=
  inferInstanceAs (Decidable (128 ≤ n ∧ n % 128 = 20))

/-- These are the numbers whose first byte is the sign of negative ones. -/
theorem head?_writeNat_iff {n : Nat} :
    (writeNat n).head? = some negativeCode ↔ ReadsAsSign n := by
  rw [writeNat, ReadsAsSign]
  split
  · rw [List.head?_cons, Option.some_inj, ← UInt8.toNat_inj, Text.toNat_byte (by omega)]
    change n = 148 ↔ _
    omega
  · rw [List.head?_cons, Option.some_inj, ← UInt8.toNat_inj, Text.toNat_byte (by omega)]
    change n % 128 + 128 = 148 ↔ _
    omega

private theorem writeSigned_of_readsAsSign {n : Int} (h : ReadsAsSign n) :
    writeSigned n = .error .numberReadsAsSign := by
  have hn : 0 ≤ n := Int.le_trans (by decide) h.1
  rw [writeSigned, if_neg (Int.not_lt.mpr hn)]
  exact if_pos (head?_writeNat_iff.mpr (by rwa [Int.toNat_of_nonneg hn]))

private theorem exists_writeSigned {n : Int} (h : ¬ ReadsAsSign n) : ∃ bytes, writeSigned n = .ok bytes := by
  rw [writeSigned]
  split
  · exact ⟨_, rfl⟩
  · next hn =>
    refine ⟨_, if_neg fun hhead => h ?_⟩
    have hsign := head?_writeNat_iff.mp hhead
    rwa [Int.toNat_of_nonneg (Int.not_lt.mp hn)] at hsign

/-! ### Numbers read back -/

section
variable {n : Int} (front back : Bytes)

private theorem number_between (hn : 0 ≤ n) :
    ∃ bytes, writeNumber (.whole n) false = .ok bytes ∧
      (Reader.between front (bytes ++ back)).number =
        (Reader.between (front ++ bytes) back, .ok n.toNat) := by
  obtain ⟨k, rfl⟩ := Int.eq_ofNat_of_zero_le hn
  refine ⟨writeNat k, congrArg packed (writeUnsigned_natCast k), ?_⟩
  exact Reader.next_between (readNat_writeNat k back)

private theorem signedNumber_between (h : ¬ ReadsAsSign n) :
    ∃ bytes, writeNumber (.whole n) true = .ok bytes ∧
      (Reader.between front (bytes ++ back)).signedNumber =
        (Reader.between (front ++ bytes) back, .ok n) := by
  obtain ⟨bytes, hbytes⟩ := exists_writeSigned h
  exact ⟨bytes, congrArg packed hbytes, Reader.ask_between (readSigned_writeSigned hbytes back)⟩

private theorem writeNumber_signed_eq_error_iff {e : Failure} :
    writeNumber (.whole n) true = .error e ↔
      ReadsAsSign n ∧ e = .packing .numberReadsAsSign := by
  by_cases h : ReadsAsSign n
  · have herror : writeNumber (.whole n) true = .error (.packing .numberReadsAsSign) :=
      congrArg packed (writeSigned_of_readsAsSign h)
    rw [herror, Except.error.injEq, eq_comm, and_iff_right h]
  · obtain ⟨bytes, hbytes, -⟩ := signedNumber_between [] [] h
    rw [hbytes]
    exact iff_of_false (fun he => by cases he) fun he => h he.1

end

/-- Whatever bytes stand in front of a number and behind it, a reader gives the number and has read
its bytes and no more. Without a sign this holds of all numbers that are not negative. With a sign
there are no bytes for those from 128 on whose lowest seven bits make twenty, which is the one failure
there is; all other whole numbers are read back. -/
theorem number_read_back (n : Int) (front back : Bytes) :
    (0 ≤ n → ∃ bytes, writeNumber (.whole n) false = .ok bytes ∧
        (Reader.between front (bytes ++ back)).number =
          (Reader.between (front ++ bytes) back, .ok n.toNat)) ∧
      (∀ e, writeNumber (.whole n) true = .error e ↔
        (128 ≤ n ∧ n % 128 = 20) ∧ e = .packing .numberReadsAsSign) ∧
      (¬ (128 ≤ n ∧ n % 128 = 20) → ∃ bytes, writeNumber (.whole n) true = .ok bytes ∧
        (Reader.between front (bytes ++ back)).signedNumber =
          (Reader.between (front ++ bytes) back, .ok n)) :=
  ⟨number_between front back, fun _ => writeNumber_signed_eq_error_iff,
    signedNumber_between front back⟩

/-- A number that can only be written without a sign, and its negative, which is written behind the
byte that the number itself starts with. -/
theorem number_read_back_sign :
    writeNumber (.whole 148) false = .ok [0x94, 0x01] ∧
      (Reader.mk [0x94, 0x01, 0x94] 0).number = (⟨[0x94, 0x01, 0x94], 2⟩, .ok 148) ∧
      writeNumber (.whole 148) true = .error (.packing .numberReadsAsSign) ∧
      writeNumber (.whole (-148)) true = .ok [0x94, 0x94, 0x01] ∧
      (Reader.mk [0x94, 0x94, 0x01, 0x00] 0).signedNumber =
        (⟨[0x94, 0x94, 0x01, 0x00], 3⟩, .ok (-148)) := by
  have hplain : writeNumber (.whole 148) false = .ok [0x94, 0x01] := by cbv
  have hnegative : writeNumber (.whole (-148)) true = .ok [0x94, 0x94, 0x01] := by cbv
  obtain ⟨bytes, hbytes, hread⟩ := (number_read_back 148 [] [0x94]).1 (by decide)
  obtain ⟨signed, hsigned, hsignedread⟩ := (number_read_back (-148) [] [0x00]).2.2 (by decide)
  obtain rfl := Except.ok.inj (hplain.symm.trans hbytes)
  obtain rfl := Except.ok.inj (hnegative.symm.trans hsigned)
  exact ⟨hplain, hread, ((number_read_back 148 [] []).2.1 _).mpr ⟨by decide, rfl⟩, hnegative,
    hsignedread⟩

end LeadSheet.Packed
