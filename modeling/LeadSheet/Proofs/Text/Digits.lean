import LeadSheet.Number.IntegerText
import LeadSheet.Proofs.Text.Blank
import Mathlib.Algebra.Group.Nat.Even

/-!
Numbers written in decimal digits are read back. The digits that are written are those of ASCII,
and none of them is a blank or a low line.
-/
namespace LeadSheet.Text

theorem isAsciiDigit_iff (c : Char) : isAsciiDigit c = true ↔ 48 ≤ c.toNat ∧ c.toNat ≤ 57 := by
  simp only [isAsciiDigit, Bool.and_eq_true, decide_eq_true_eq, Char.le_def, UInt32.le_iff_toNat_le]
  rfl

private theorem isAsciiDigit_eq_isDigit (c : Char) : isAsciiDigit c = c.isDigit := by
  rw [Bool.eq_iff_iff, isAsciiDigit_iff, Char.isDigit_iff_toNat]
  rfl

private theorem digitValue?_of_isAsciiDigit {c : Char} (h : isAsciiDigit c = true) :
    digitValue? c = some (c.toNat - 48) := by
  obtain ⟨hl, hu⟩ := (isAsciiDigit_iff c).mp h
  rw [digitValue?, digitZeros, List.find?_cons_of_pos]
  · rfl
  · rw [Bool.and_eq_true, decide_eq_true_eq, decide_eq_true_eq]
    omega

theorem isDecimalDigit_of_isAsciiDigit {c : Char} (h : isAsciiDigit c = true) :
    isDecimalDigit c = true := by
  rw [isDecimalDigit, digitValue?_of_isAsciiDigit h, Option.isSome_some]

private theorem numberOfDigits_of_ascii {cs : List Char} (h : ∀ c ∈ cs, isAsciiDigit c = true) :
    numberOfDigits cs = Nat.ofDigitChars 10 cs 0 := by
  rw [numberOfDigits, Nat.ofDigitChars_eq_foldl]
  apply List.foldl_ext _ _ _
  intro n c hc
  rw [digitValue?_of_isAsciiDigit (h c hc)]
  rfl

/-- The characters of a number are digits of ASCII. -/
theorem isAsciiDigit_of_mem_toString {n : Nat} {c : Char} (h : c ∈ (toString n).toList) :
    isAsciiDigit c = true := by
  rw [Nat.toString_eq_repr, Nat.toList_repr] at h
  rw [isAsciiDigit_eq_isDigit]
  exact Nat.isDigit_of_mem_toDigits (by decide) (by decide) h

theorem toList_toString_ne_nil (n : Nat) : (toString n).toList ≠ [] := by
  rw [Nat.toString_eq_repr, Nat.toList_repr]
  exact Nat.toDigits_ne_nil

theorem all_isAsciiDigit_toString (n : Nat) : (toString n).toList.all isAsciiDigit = true :=
  List.all_eq_true.mpr fun _ h => isAsciiDigit_of_mem_toString h

/-- The digits of a number write this number. -/
theorem numberOfDigits_toString (n : Nat) : numberOfDigits (toString n).toList = n := by
  rw [numberOfDigits_of_ascii fun c h => isAsciiDigit_of_mem_toString h, Nat.toString_eq_repr,
    Nat.toList_repr, Nat.ofDigitChars_ten_toDigits]

theorem length_toString_le_iff {n k : Nat} (h : 0 < k) :
    (toString n).toList.length ≤ k ↔ n < 10 ^ k := by
  rw [Nat.toString_eq_repr, Nat.toList_repr]
  exact Nat.length_toDigits_le_iff (by decide) h

private theorem ofDigitChars_lt {cs : List Char} (h : ∀ c ∈ cs, isAsciiDigit c = true)
    (init : Nat) : Nat.ofDigitChars 10 cs init < (init + 1) * 10 ^ cs.length := by
  induction cs generalizing init with
  | nil => simp
  | cons c cs ih =>
    obtain ⟨hl, hu⟩ := (isAsciiDigit_iff c).mp (h c (List.mem_cons_self ..))
    rw [Nat.ofDigitChars_cons, List.length_cons, Nat.pow_succ', ← Nat.mul_assoc]
    refine Nat.lt_of_lt_of_le (ih (fun d hd => h d (List.mem_cons_of_mem _ hd)) _) ?_
    refine Nat.mul_le_mul_right _ ?_
    rw [show '0'.toNat = 48 from rfl]
    omega

/-- Some digits write a number below the power of ten with their length. -/
theorem numberOfDigits_lt {cs : List Char} (h : ∀ c ∈ cs, isAsciiDigit c = true) :
    numberOfDigits cs < 10 ^ cs.length := by
  rw [numberOfDigits_of_ascii h]
  refine Nat.lt_of_lt_of_eq (ofDigitChars_lt h 0) ?_
  rw [Nat.zero_add, Nat.one_mul]

/-- The digits of a number end where something other than a digit follows. -/
theorem span_toString (n : Nat) {rest : List Char} (h : ∀ c ∈ rest.head?, isAsciiDigit c = false) :
    ((toString n).toList ++ rest).span isAsciiDigit = ((toString n).toList, rest) :=
  span_append (fun _ => isAsciiDigit_of_mem_toString) h

/-- A negative number is written as its distance from zero behind a minus sign. -/
theorem toList_toString_neg {n : Int} (h : n < 0) :
    (toString n).toList = '-' :: (toString n.natAbs).toList := by
  rw [Int.toString_eq_repr, Int.repr_eq_if, if_neg (by omega), String.toList_append,
    Nat.toString_eq_repr, show (-n).toNat = n.natAbs by omega]
  rfl

theorem toString_of_nonneg {n : Int} (h : 0 ≤ n) : toString n = toString n.toNat := by
  obtain ⟨m, rfl⟩ := Int.eq_ofNat_of_zero_le h
  rfl

end LeadSheet.Text

namespace LeadSheet.IntegerText
open Text

private theorem digits?_of_ascii {cs : List Char} (hn : cs ≠ [])
    (h : ∀ c ∈ cs, isAsciiDigit c = true) :
    digits? cs = some cs := by
  induction cs with
  | nil => exact absurd rfl hn
  | cons c cs ih =>
    have hc := isDecimalDigit_of_isAsciiDigit (h c (List.mem_cons_self ..))
    cases cs with
    | nil => rw [digits?, if_pos hc]
    | cons d ds =>
      have hd : d ≠ '_' := by
        rintro rfl
        exact absurd (h '_' (by simp)) (by decide)
      have ht := ih (List.cons_ne_nil _ _) fun x hx => h x (List.mem_cons_of_mem _ hx)
      rw [digits?.eq_4 c (d :: ds) (by simp) (fun _ he => hd (List.head_eq_of_cons_eq he)),
        if_pos hc, ht]
      rfl

/-- Text of visible ASCII characters has no margins. -/
theorem core_of_visible {cs : List Char} (h : ∀ c ∈ cs, 0x20 < c.toNat ∧ c.toNat < 0x7F) :
    core cs = cs := by
  have hm (c : Char) (hc : c ∈ cs) : isMargin c = false := by
    rw [isMargin, isBlank_of_visible (h c hc).1 (h c hc).2, Bool.false_and]
  rw [core, dropWhile_of_forall_not hm,
    dropWhile_of_forall_not fun c hc => hm c (List.mem_reverse.mp hc), List.reverse_reverse]

private theorem visible_of_isAsciiDigit {c : Char} (h : isAsciiDigit c = true) :
    0x20 < c.toNat ∧ c.toNat < 0x7F := by
  have := (isAsciiDigit_iff c).mp h
  omega

/-- Digits of ASCII write a number. -/
theorem read_of_ascii {cs : List Char} (hn : cs ≠ []) (h : ∀ c ∈ cs, isAsciiDigit c = true) :
    read cs = .ok (numberOfDigits cs) := by
  have hc := core_of_visible fun c hc => visible_of_isAsciiDigit (h c hc)
  have hd := digits?_of_ascii hn h
  rw [read, read?, hc]
  split
  · next n he =>
    split at he
    · exact absurd (h '-' (List.mem_cons_self ..)) (by decide)
    · exact absurd (h '+' (List.mem_cons_self ..)) (by decide)
    · rw [hd] at he
      cases he
      rfl
  · next he =>
    split at he
    · exact absurd (h '-' (List.mem_cons_self ..)) (by decide)
    · exact absurd (h '+' (List.mem_cons_self ..)) (by decide)
    · rw [hd] at he
      cases he

/-- The text of a number is read as this number. -/
theorem read_toString (n : Int) : read (toString n).toList = .ok n := by
  by_cases hn : n < 0
  · have hd (c : Char) (h : c ∈ (toString n.natAbs).toList) := isAsciiDigit_of_mem_toString h
    have hv (c : Char) (h : c ∈ '-' :: (toString n.natAbs).toList) :
        0x20 < c.toNat ∧ c.toNat < 0x7F := by
      rcases List.mem_cons.mp h with rfl | hc
      · decide
      · exact visible_of_isAsciiDigit (hd c hc)
    rw [toList_toString_neg hn, read, read?, core_of_visible hv]
    simp only [digits?_of_ascii (toList_toString_ne_nil _) hd, Option.map_some,
      numberOfDigits_toString]
    rw [show -(n.natAbs : Int) = n by omega]
  · rw [toString_of_nonneg (by omega), read_of_ascii (toList_toString_ne_nil _)
      fun c h => isAsciiDigit_of_mem_toString h, numberOfDigits_toString,
      Int.toNat_of_nonneg (by omega)]

theorem read_toString_nat (n : Nat) : read (toString n).toList = .ok (n : Int) :=
  read_toString n

end LeadSheet.IntegerText
