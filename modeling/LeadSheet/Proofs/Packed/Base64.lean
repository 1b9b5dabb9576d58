import LeadSheet.Packed.Base64
import LeadSheet.Proofs.Text.Blank
import LeadSheet.Proofs.Text.Utf8
import Mathlib.Data.Bool.AllAny

/-!
Bytes written in six-bit characters are read back. Every group of four characters brings the reader
back to the start of a group; the last group may be a short one, which padding fills.
-/
namespace LeadSheet.Packed

private theorem digitOf?_digitChar {n : Nat} (h : n < 64) : digitOf? (digitChar n) = some n := by
  revert n
  decide +kernel

private theorem digitChar_mem (n : Nat) : digitChar n ∈ alphabet := by
  rw [digitChar, List.getD_eq_getElem?_getD]
  cases h : alphabet[n]? with
  | none => decide
  | some c => exact List.mem_of_getElem? h

/-- Every character that is written is one of the alphabet. -/
theorem mem_alphabet_of_mem {bytes : Bytes} {c : Char} (h : c ∈ writeBase64 bytes) :
    c ∈ alphabet := by
  fun_induction writeBase64 bytes with
  | case1 => cases h
  | case2 a =>
    simp only [List.mem_cons, List.not_mem_nil, or_false] at h
    rcases h with rfl | rfl <;> exact digitChar_mem _
  | case3 a b =>
    simp only [List.mem_cons, List.not_mem_nil, or_false] at h
    rcases h with rfl | rfl | rfl <;> exact digitChar_mem _
  | case4 a b c rest ih =>
    simp only [List.mem_cons] at h
    rcases h with rfl | rfl | rfl | rfl | h
    · exact digitChar_mem _
    · exact digitChar_mem _
    · exact digitChar_mem _
    · exact digitChar_mem _
    · exact ih h

/-- The alphabet is made of letters, digits, `-` and `_`. -/
theorem alphabet_spec : ∀ c ∈ alphabet, c.isAlphanum = true ∨ c = '-' ∨ c = '_' :=
  List.all_iff_forall_prop.mp (by decide)

private theorem visible_of_mem_alphabet :
    ∀ c ∈ alphabet, 0x20 < c.toNat ∧ c.toNat < 0x7F ∧ c ≠ '=' :=
  List.all_iff_forall_prop.mp (by decide)

namespace Base64Reader

/-- A reader between two groups. -/
def between (bytes : Bytes) : Base64Reader := ⟨bytes, 0, 0, 0⟩

private theorem read_digitChar (r : Base64Reader) {n : Nat} (h : n < 64) (rest : List Char) :
    r.read (digitChar n :: rest) = (r.take n).read rest := by
  have hp := (visible_of_mem_alphabet _ (digitChar_mem n)).2.2
  rw [read.eq_3 _ _ _ hp, digitOf?_digitChar h]

private theorem read_one (bytes : Bytes) (a : UInt8) (rest : List Char) :
    (between bytes).read
      (digitChar (a.toNat / 4) :: digitChar (a.toNat % 4 * 16) :: rest) =
        Base64Reader.read ⟨a :: bytes, 2, 0, 0⟩ rest := by
  have ha := a.toNat_lt
  rw [read_digitChar _ (by omega), read_digitChar _ (by omega)]
  have ea : UInt8.ofNat (a.toNat / 4 * 4 + a.toNat % 4 * 16 / 16) = a := Text.ofNat_eq (by omega)
  simp only [between, take]
  rw [ea, show a.toNat % 4 * 16 % 16 = 0 by omega]

private theorem read_two (bytes : Bytes) (a b : UInt8) (n : Nat) (h : n < 4) (rest : List Char) :
    (between bytes).read
      (digitChar (a.toNat / 4) :: digitChar (a.toNat % 4 * 16 + b.toNat / 16)
        :: digitChar (b.toNat % 16 * 4 + n) :: rest) =
          Base64Reader.read ⟨b :: a :: bytes, 3, 0, n⟩ rest := by
  have ha := a.toNat_lt
  have hb := b.toNat_lt
  rw [read_digitChar _ (by omega), read_digitChar _ (by omega), read_digitChar _ (by omega)]
  have ea : UInt8.ofNat (a.toNat / 4 * 4 + (a.toNat % 4 * 16 + b.toNat / 16) / 16) = a :=
    Text.ofNat_eq (by omega)
  have eb : UInt8.ofNat ((a.toNat % 4 * 16 + b.toNat / 16) % 16 * 16 +
      (b.toNat % 16 * 4 + n) / 4) = b := Text.ofNat_eq (by omega)
  simp only [between, take]
  rw [ea, eb, show (b.toNat % 16 * 4 + n) % 4 = n by omega]

private theorem read_three (bytes : Bytes) (a b c : UInt8) (rest : List Char) :
    (between bytes).read
      (digitChar (a.toNat / 4) :: digitChar (a.toNat % 4 * 16 + b.toNat / 16)
        :: digitChar (b.toNat % 16 * 4 + c.toNat / 64) :: digitChar (c.toNat % 64) :: rest) =
          (between (c :: b :: a :: bytes)).read rest := by
  have hc := c.toNat_lt
  rw [read_two _ _ _ _ (by omega), read_digitChar _ (by omega)]
  have ec : UInt8.ofNat (c.toNat / 64 * 64 + c.toNat % 64) = c := Text.ofNat_eq (by omega)
  simp only [take]
  rw [ec, between]

end Base64Reader

private theorem read_padded (before bytes : Bytes) :
    (Base64Reader.between before).read (padded (writeBase64 bytes)) =
      .ok (before.reverse ++ bytes) := by
  fun_induction writeBase64 bytes generalizing before with
  | case1 =>
    rw [List.append_nil]
    rfl
  | case2 a =>
    rw [padded, List.cons_append, List.singleton_append, Base64Reader.read_one,
      ← List.reverse_cons]
    rfl
  | case3 a b =>
    have h := Base64Reader.read_two before a b 0 (by decide) ['=']
    rw [Nat.add_zero] at h
    rw [show before.reverse ++ [a, b] = (b :: a :: before).reverse by simp]
    exact h
  | case4 a b c rest ih =>
    have hp := Base64Reader.read_three before a b c (padded (writeBase64 rest))
    rw [ih, padded] at hp
    rw [padded, show before.reverse ++ a :: b :: c :: rest
      = (c :: b :: a :: before).reverse ++ rest by simp, ← hp]
    simp only [List.length_cons, List.cons_append]
    rw [show ((writeBase64 rest).length + 1 + 1 + 1 + 1) % 4 = (writeBase64 rest).length % 4 by
      omega]

/-- Bytes are read back from their characters. -/
theorem readBase64_writeBase64 (bytes : Bytes) : readBase64 (writeBase64 bytes) = .ok bytes := by
  have hv (c : Char) (h : c ∈ writeBase64 bytes) :=
    visible_of_mem_alphabet c (mem_alphabet_of_mem h)
  have ht : Text.trim (writeBase64 bytes) = writeBase64 bytes :=
    Text.trim_of_forall_not fun c h => Text.isBlank_of_visible (hv c h).1 (hv c h).2.1
  have hw : withoutPadding (writeBase64 bytes) = writeBase64 bytes := by
    rw [withoutPadding, ht, Text.dropWhile_of_forall_not, List.reverse_reverse]
    intro c h
    exact decide_eq_false (hv c (List.mem_reverse.mp h)).2.2
  rw [readBase64, hw, if_pos]
  · exact read_padded [] bytes
  · apply List.all_eq_true.mpr
    intro c h
    have := (hv c h).2.1
    rw [decide_eq_true_eq]
    omega

end LeadSheet.Packed
