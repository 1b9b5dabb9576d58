import LeadSheet.Packed.Decode
import LeadSheet.Proofs.Text.Utf8
import Mathlib.Algebra.Group.Nat.Even

/-!
Numbers and texts of packed data are read back, whatever bytes follow them.
-/
namespace LeadSheet.Packed

private theorem writeNat_ne_nil (n : Nat) : writeNat n ≠ [] := by
  rw [writeNat]
  split <;> exact List.cons_ne_nil _ _

/-- A number is read from its bytes, up to the end of them. -/
theorem readNat_writeNat (n : Nat) (rest : Bytes) :
    readNat (writeNat n ++ rest) = (.ok n, rest) := by
  induction n using Nat.strongRecOn generalizing rest with
  | ind n ih =>
    rw [writeNat]
    by_cases hn : n < 128
    · have hb : UInt8.ofNat n < 0x80 := by
        rw [UInt8.lt_iff_toNat_lt, Text.toNat_byte (by omega)]
        exact hn
      rw [if_pos hn, List.singleton_append, readNat, if_pos hb, Text.toNat_byte (by omega)]
    · have hb : ¬ UInt8.ofNat (n % 128 + 128) < 0x80 := by
        rw [UInt8.lt_iff_toNat_lt, Text.toNat_byte (by omega)]
        exact Nat.not_lt.mpr (Nat.le_add_left _ _)
      rw [if_neg hn, List.cons_append, readNat, if_neg hb, ih (n / 128) (by omega)]
      dsimp only
      rw [Text.toNat_byte (by omega), Nat.add_sub_cancel, Nat.mod_add_div]

theorem writeUnsigned_natCast (n : Nat) : writeUnsigned n = .ok (writeNat n) := by
  rw [writeUnsigned, if_neg (by omega), Int.toNat_natCast]

/-- A number that may be negative is read from its bytes, if it has any. -/
theorem readSigned_writeSigned {n : Int} {bytes : Bytes} (h : writeSigned n = .ok bytes)
    (rest : Bytes) : readSigned (bytes ++ rest) = (.ok n, rest) := by
  rw [writeSigned] at h
  by_cases hn : n < 0
  · rw [if_pos hn] at h
    cases h
    rw [List.cons_append, readSigned, if_pos rfl, readNat_writeNat]
    dsimp only
    rw [show -(n.natAbs : Int) = n by omega]
  · rw [if_neg hn] at h
    dsimp only at h
    by_cases hs : (writeNat n.toNat).head? = some negativeCode
    · rw [if_pos hs] at h
      cases h
    · rw [if_neg hs] at h
      cases h
      have hr := readNat_writeNat n.toNat rest
      cases hb : writeNat n.toNat with
      | nil => exact absurd hb (writeNat_ne_nil _)
      | cons b tail =>
        rw [hb] at hs hr
        rw [List.cons_append] at hr ⊢
        rw [readSigned, if_neg fun he => hs (congrArg some he), hr]
        dsimp only
        rw [Int.toNat_of_nonneg (by omega)]

private theorem length_writeLength (n size : Nat) : (writeLength n size).length = size := by
  induction size generalizing n with
  | zero => rfl
  | succ size ih => rw [writeLength, List.length_cons, ih]

/-- A length is read from its bytes when they are enough for it. -/
theorem lengthOf_writeLength {n size : Nat} (h : n < 256 ^ size) :
    lengthOf (writeLength n size) = n := by
  induction size generalizing n with
  | zero =>
    rw [Nat.pow_zero] at h
    rw [writeLength, lengthOf]
    omega
  | succ size ih =>
    have hs : n / 256 < 256 ^ size := by
      rw [Nat.pow_succ] at h
      exact Nat.div_lt_of_lt_mul (by rwa [Nat.mul_comm])
    rw [writeLength, lengthOf, ih hs, UInt8.toNat_ofNat', Nat.mod_add_div]

private theorem readBytes_append {bytes : Bytes} {n : Nat} (h : bytes.length = n) (rest : Bytes) :
    readBytes n (bytes ++ rest) = (.ok bytes, rest) := by
  rw [readBytes, if_neg, List.take_left' h, List.drop_left' h]
  rw [List.length_append]
  omega

/-- A text is read from its bytes, if it has any. -/
theorem readText_writeText {text : String} {size : Nat} {bytes : Bytes}
    (h : writeText text size = .ok bytes) (rest : Bytes) :
    readText size (bytes ++ rest) = (.ok text, rest) := by
  rw [writeText] at h
  by_cases hl : Nat.pow 256 size ≤ (Text.utf8Encode text.toList).length
  · rw [if_pos hl] at h
    cases h
  · rw [if_neg hl] at h
    cases h
    rw [readText, List.append_assoc, readBytes_append (length_writeLength _ _), Read.andThen,
      lengthOf_writeLength (Nat.lt_of_not_le hl), readBytes_append rfl, Read.andThen,
      Text.utf8Decode_encode]
    dsimp only
    rw [String.ofList_toList]

end LeadSheet.Packed
