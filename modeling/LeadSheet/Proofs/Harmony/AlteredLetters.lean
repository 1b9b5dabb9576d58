import LeadSheet.Harmony.KeySignature
import LeadSheet.Proofs.Pitch.Spelling
import Mathlib.Data.List.Perm.Subperm

/-!
The letters that a key alters. They are the first ones in the order in which keys get their signs:
sharps by fifths upwards from F, flats by fifths downwards from B. So a name that gets a sign from a
key gets it from every key with more signs of this kind, unless the flats of that key are so many that
they are counted from behind the last letter.
-/
namespace LeadSheet.KeySignature

/-! ### The order of the signs -/

/-- The letters in the order in which they get the signs of a key. -/
def signOrder (n : Int) : List Letter :=
  if 0 < n then [.F, .C, .G, .D, .A, .E, .B] else [.B, .E, .A, .D, .G, .C, .F]

/-- The flats are more than the letters, and where they start is counted from behind the last letter. -/
def Wraps (n : Int) : Prop := -14 < n ∧ n < -7

instance (n : Int) : Decidable (Wraps n) := inferInstanceAs (Decidable (-14 < n ∧ n < -7))

/-- The number of letters that a key alters. -/
def signCount (n : Int) : Nat := if -14 < n ∧ n < -7 then n.natAbs - 7 else min n.natAbs 7

private theorem signCount_of_wraps {n : Int} (h : Wraps n) : signCount n = n.natAbs - 7 := if_pos h

theorem signCount_of_not_wraps {n : Int} (h : ¬ Wraps n) : signCount n = min n.natAbs 7 := if_neg h

private theorem signCount_le (n : Int) : signCount n ≤ 7 := by
  rw [signCount]
  split <;> omega

private theorem length_signOrder (n : Int) : (signOrder n).length = 7 := by
  rw [signOrder]
  split <;> rfl

private theorem nodup_signOrder (n : Int) : (signOrder n).Nodup := by
  rw [signOrder]
  split <;> decide

theorem alteredLetters_eq (n : Int) :
    (accidentals n).alteredLetters = (signOrder n).take (signCount n) := by
  by_cases hsharp : 0 < n
  · have hkey : (accidentals n).alteredLetters = sharpOrder.take n.toNat := if_pos hsharp
    have horder : signOrder n = sharpOrder := if_pos hsharp
    rw [hkey, horder, List.take_eq_take_iff, signCount]
    simp only [sharpOrder, List.length_cons, List.length_nil]
    split <;> omega
  · have horder : signOrder n = sharpOrder.reverse := if_neg hsharp
    by_cases hflat : n < 0
    · have hkey : (accidentals n).alteredLetters = (sharpOrder.drop (flatStart n)).reverse :=
        (if_neg hsharp).trans (if_pos hflat)
      have hcount : 7 - flatStart n = signCount n := by
        simp only [flatStart, signCount]
        split <;> split <;> omega
      rw [hkey, horder, List.reverse_drop, ← hcount]
      rfl
    · obtain rfl : n = 0 := by omega
      rfl

/-- Of a list without repetitions, a front is part of another one only if it is no longer. -/
theorem take_subset_take_iff {α : Type} {l : List α} (hl : l.Nodup) {i j : Nat} (hi : i ≤ l.length) :
    l.take i ⊆ l.take j ↔ i ≤ j := by
  constructor
  · intro h
    have hle := (List.subperm_of_subset (hl.sublist (List.take_sublist i l)) h).length_le
    rw [List.length_take, List.length_take] at hle
    omega
  · exact fun h => (List.take_sublist_take_left h).subset

/-! ### Names under a key -/

/-- A letter that no sign follows gets a sign. Of what is behind it only the octave stays. -/
inductive Signed (letter : Letter) (sign : Alteration) : String → String → Prop
  | intro {written : String} {rest : List Char} (hwritten : written.toList = letter.toChar :: rest)
      (hrest : ¬ (rest.head? = some '#' ∨ rest.head? = some 'b')) :
      Signed letter sign written
        (String.ofList (letter.toChar :: (sign.sign ++ (NoteName.spanDigits rest).1)))

private theorem Signed.head? {letter : Letter} {sign : Alteration} {written sounding : String}
    (h : Signed letter sign written sounding) : written.toList.head? = some letter.toChar := by
  obtain ⟨hwritten, -⟩ := h
  rw [hwritten]
  rfl

variable {key key' : KeySignature} {written sounding : String}

/-- A key changes a name only by the sign that it puts behind a letter. -/
theorem signed_of_sounding (h : key.sounding written = .ok sounding) (hne : sounding ≠ written) :
    ∃ letter ∈ key.alteredLetters, Signed letter key.alteration written sounding := by
  rw [KeySignature.sounding] at h
  split at h
  · exact absurd (Except.ok.inj h).symm hne
  · split at h
    · cases h
    · next c rest hwritten =>
      split at h
      · cases h
      · next letter hletter =>
        dsimp only at h
        split at h
        · next haltered =>
          cases h
          rw [Bool.and_eq_true, Bool.not_eq_true', Bool.or_eq_false_iff, decide_eq_false_iff_not,
            decide_eq_false_iff_not, ← not_or, List.contains_iff_mem] at haltered
          rw [← NoteName.toChar_of_ofChar? hletter] at hwritten
          exact ⟨letter, haltered.1, .intro hwritten haltered.2⟩
        · exact absurd (Except.ok.inj h).symm hne

private theorem sounding_of_signed {letter : Letter} (hletter : letter ∈ key.alteredLetters)
    (h : Signed letter key.alteration written sounding) : key.sounding written = .ok sounding := by
  obtain ⟨hwritten, hrest⟩ := h
  have hcount : key.count ≠ 0 := by
    intro hcount
    rw [alteredLetters, hcount] at hletter
    cases hletter
  rw [KeySignature.sounding, if_neg hcount, hwritten]
  dsimp only
  rw [NoteName.ofChar?_toChar]
  dsimp only
  rw [if_pos]
  rw [Bool.and_eq_true, Bool.not_eq_true', Bool.or_eq_false_iff, decide_eq_false_iff_not,
    decide_eq_false_iff_not, ← not_or, List.contains_iff_mem]
  exact ⟨hletter, hrest⟩

/-- All names that get a sign from a key get it from another one, if this alters the same letters. -/
theorem sounding_kept_iff (hsign : key.alteration = key'.alteration) :
    (∀ written sounding, sounding ≠ written → key.sounding written = .ok sounding →
      key'.sounding written = .ok sounding) ↔ key.alteredLetters ⊆ key'.alteredLetters := by
  constructor
  · intro h letter hletter
    have hsigned : Signed letter key.alteration (String.ofList [letter.toChar])
        (String.ofList (letter.toChar :: (key.alteration.sign ++ []))) :=
      .intro String.toList_ofList (by rintro (h | h) <;> cases h)
    have hne : String.ofList (letter.toChar :: (key.alteration.sign ++ [])) ≠
        String.ofList [letter.toChar] := by
      rw [KeySignature.alteration, Ne, String.ofList_inj]
      split <;> exact fun h => by cases h
    have hkept := h _ _ hne (sounding_of_signed hletter hsigned)
    obtain ⟨letter', hletter', hsigned'⟩ := signed_of_sounding hkept hne
    have hchars := hsigned.head?.symm.trans hsigned'.head?
    have hletters := congrArg Letter.ofChar? (Option.some.inj hchars)
    rw [NoteName.ofChar?_toChar, NoteName.ofChar?_toChar] at hletters
    rwa [Option.some.inj hletters]
  · intro h written sounding hne hkey
    obtain ⟨letter, hletter, hsigned⟩ := signed_of_sounding hkey hne
    rw [hsign] at hsigned
    exact sounding_of_signed (h hletter) hsigned

/-! ### Keys with more signs -/

/-- The second key has at least as many signs of the same kind. -/
def Extends (n m : Int) : Prop := (0 < n ∧ n ≤ m) ∨ (m ≤ n ∧ n < 0)

instance (n m : Int) : Decidable (Extends n m) :=
  inferInstanceAs (Decidable ((0 < n ∧ n ≤ m) ∨ (m ≤ n ∧ n < 0)))

private theorem alteration_of_extends {n m : Int} (h : Extends n m) :
    (accidentals n).alteration = (accidentals m).alteration := by
  have hsharp : (0 < n) = (0 < m) := propext (by obtain h | h := h <;> omega)
  rw [alteration, alteration, isSharp, isSharp, count, count]
  simp only [hsharp]

private theorem signOrder_of_extends {n m : Int} (h : Extends n m) : signOrder n = signOrder m := by
  have hsharp : (0 < n) = (0 < m) := propext (by obtain h | h := h <;> omega)
  rw [signOrder, signOrder]
  simp only [hsharp]

/-- A key alters as many letters as it has sharps or flats, up to all seven of them, in the order in
which keys get their signs; and the names that it puts a sign on get this sign in all keys with more
signs of the kind. Keys of eight to thirteen flats are the exception, and the only one: they alter just
as many letters as they have flats above seven, so that other names lose the sign they had with fewer
flats. -/
theorem altered_inOrder (n : Int) :
    ((accidentals n).alteredLetters = (signOrder n).take (min n.natAbs 7) ↔ ¬ Wraps n) ∧
      (Wraps n → (accidentals n).alteredLetters = (signOrder n).take (n.natAbs - 7)) ∧
      ∀ m, Extends n m →
        ((∀ written sounding, sounding ≠ written → (accidentals n).sounding written = .ok sounding →
            (accidentals m).sounding written = .ok sounding) ↔
          (Wraps m → Wraps n ∨ m + 7 ≤ n)) := by
  refine ⟨?_, fun h => by rw [alteredLetters_eq, signCount_of_wraps h], fun m h => ?_⟩
  · rw [alteredLetters_eq]
    by_cases hn : Wraps n
    · obtain ⟨hl, hu⟩ := hn
      have hne : signCount n ≠ 7 := by
        rw [signCount_of_wraps ⟨hl, hu⟩]
        omega
      refine iff_of_false (fun he => hne ?_) (not_not_intro ⟨hl, hu⟩)
      rw [List.take_eq_take_iff, length_signOrder] at he
      have hle := signCount_le n
      omega
    · exact iff_of_true (by rw [signCount_of_not_wraps hn]) hn
  · rw [sounding_kept_iff (alteration_of_extends h), alteredLetters_eq, alteredLetters_eq,
      signOrder_of_extends h,
      take_subset_take_iff (nodup_signOrder m) (by rw [length_signOrder]; exact signCount_le n)]
    simp only [signCount, Wraps, Extends] at h ⊢
    split <;> split <;> omega

theorem altered_inOrder_nine_flats :
    Wraps (-9) ∧ (accidentals (-9)).alteredLetters = [.B, .E] ∧
      Extends (-2) (-9) ∧ (accidentals (-9)).sounding "E5" = .ok "Eb5" := by
  have hletters := (altered_inOrder (-9)).2.1 (by decide)
  have hkept := ((altered_inOrder (-2)).2.2 (-9) (by decide)).mpr fun _ => .inr (by decide)
  exact ⟨by decide, hletters, by decide, hkept "E5" "Eb5" (by decide) rfl⟩

/-- With an eighth flat, E is no longer altered. -/
theorem not_altered_eight_flats :
    (accidentals (-8)).alteredLetters ≠ (signOrder (-8)).take (min (-8 : Int).natAbs 7) ∧
      (accidentals (-7)).sounding "E5" = .ok "Eb5" ∧ (accidentals (-8)).sounding "E5" = .ok "E5" :=
  ⟨by decide, rfl, rfl⟩

end LeadSheet.KeySignature
