import LeadSheet.Proofs.Naming
import LeadSheet.Proofs.Pitch.Spelling

/-!
Names in parts, and the octave in which a letter lies closest to a reference. Of the octave of the
reference and its neighbours the closest one is taken; it is the closest of all octaves, and where two
are equally close the octave of the reference is one of them.
-/
namespace LeadSheet.NoteName

/-- The octave of a name, which may be left out. -/
def octaveDigits : Option Nat → List Char
  | none => []
  | some octave => (toString octave).toList

/-- The name of a letter with an alteration, in an octave or in none. -/
def inParts (letter : Letter) (alteration : Alteration) (octave : Option Nat) : String :=
  String.ofList (letter.toChar :: (alteration.sign ++ octaveDigits octave))

/-- A written note with an octave. -/
theorem inParts_written (letter : Letter) (octave : Nat) :
    inParts letter .natural (some octave) =
      String.ofList (letter.toChar :: Nat.toDigits 10 octave) := by
  rw [inParts, octaveDigits, Nat.toString_eq_repr, Nat.toList_repr]
  rfl

/-- The pitch of a letter with an alteration in an octave. -/
def pitchIn (letter : Letter) (alteration : Alteration) (octave : Nat) : Int :=
  offsetOf letter alteration + (octave + 1) * octaveSize

theorem pitch_inParts (letter : Letter) (alteration : Alteration) (octave : Nat) :
    pitch (inParts letter alteration (some octave)) = .ok (pitchIn letter alteration octave) :=
  pitch_of_parts letter alteration octave

theorem readable_inParts (letter : Letter) (alteration : Alteration) (octave : Nat) :
    Readable (inParts letter alteration (some octave)) :=
  ⟨_, pitch_inParts letter alteration octave⟩

theorem spanDigits_octaveDigits (octave : Option Nat) :
    (spanDigits (octaveDigits octave)).1 = octaveDigits octave := by
  cases octave with
  | none => rfl
  | some n => exact congrArg Prod.fst (spanDigits_toString n)

theorem withOctave_inParts (letter : Letter) (alteration : Alteration) (octave : Nat) :
    withOctave (inParts letter alteration none) octave = inParts letter alteration (some octave) := by
  rw [withOctave, inParts, inParts, octaveDigits, List.append_nil, octaveDigits, ← List.cons_append,
    String.ofList_append, String.ofList_toList]
  rfl

theorem head?_inParts_none (letter : Letter) (alteration : Alteration) :
    head? (inParts letter alteration none).toList = some (letter, alteration, []) := by
  rw [inParts, String.toList_ofList]
  exact head?_of_parts letter alteration fun c hc => by cases hc

theorem isBare_inParts (letter : Letter) (alteration : Alteration) :
    isBare (inParts letter alteration none) = true := by
  rw [isBare, head?_inParts_none]
  rfl

/-! ### The closest octave -/

section Closest
variable (letter : Letter) (alteration : Alteration) (reference : Int)

/-- How far a letter with an alteration lies above a reference in an octave. -/
def gapIn (octave : Nat) : Int := pitchIn letter alteration octave - reference

/-- How far it lies from the reference, above or below. -/
def distanceIn (octave : Nat) : Nat := (gapIn letter alteration reference octave).natAbs

private theorem gapIn_eq (octave other : Nat) : gapIn letter alteration reference other =
    gapIn letter alteration reference octave + 12 * (other - octave) := by
  simp only [gapIn, pitchIn, octaveSize]
  omega

/-- The next octave is not closer exactly if the letter lies half an octave below the reference at
most. -/
theorem distanceIn_le_succ_iff (octave : Nat) :
    distanceIn letter alteration reference octave ≤
      distanceIn letter alteration reference (octave + 1) ↔
        -6 ≤ gapIn letter alteration reference octave := by
  rw [distanceIn, distanceIn, gapIn_eq letter alteration reference octave (octave + 1)]
  omega

private theorem distanceIn_succ_le_iff (octave : Nat) :
    distanceIn letter alteration reference (octave + 1) ≤
      distanceIn letter alteration reference octave ↔
        gapIn letter alteration reference (octave + 1) ≤ 6 := by
  rw [distanceIn, distanceIn, gapIn_eq letter alteration reference octave (octave + 1)]
  omega

/-- An octave in which a letter is as close to a reference as in any other. Of two such octaves it is
the octave of the reference. -/
structure IsClosest (octave : Nat) : Prop where
  le : ∀ other, distanceIn letter alteration reference octave ≤
    distanceIn letter alteration reference other
  tie : ∀ other, other ≠ octave →
    distanceIn letter alteration reference other = distanceIn letter alteration reference octave →
      (octave : Int) = reference.fdiv octaveSize - 1

/-- The closer of two octaves, the first if they are equally close. -/
def closer (best other : Nat) : Nat :=
  if distanceIn letter alteration reference other < distanceIn letter alteration reference best
  then other else best

private theorem closerOctave_inParts (best octave : Nat) :
    closerOctave (inParts letter alteration none) reference
        (best, distanceIn letter alteration reference best) octave =
      .ok (closer letter alteration reference best octave,
        distanceIn letter alteration reference (closer letter alteration reference best octave)) := by
  rw [closerOctave]
  split
  · next hneg => exact absurd hneg (Int.not_lt.mpr (Int.natCast_nonneg octave))
  · rw [withOctave_inParts, pitch_inParts, closer]
    change Except.ok (if (distanceIn letter alteration reference octave : Int) <
      distanceIn letter alteration reference best then _ else _) = _
    simp only [Int.ofNat_lt]
    split <;> rfl

/-- There is no octave below the lowest one. -/
theorem closerOctave_of_neg (name : String) (best : Int × Int) {octave : Int} (h : octave < 0) :
    closerOctave name reference best octave = .ok best := by
  rw [closerOctave]
  split
  · rfl
  · contradiction

/-- The octave of the reference, or one of its neighbours that is closer. -/
def closestIn : Nat → Nat
  | 0 => closer letter alteration reference 0 1
  | middle + 1 => closer letter alteration reference
      (closer letter alteration reference (middle + 1) middle) (middle + 2)

private theorem closestOctave_inParts_eq {middle : Nat} (h : referenceOctave reference = middle) :
    closestOctave (inParts letter alteration none) reference =
      .ok (inParts letter alteration (some (closestIn letter alteration reference middle))) := by
  have hfold : [(middle : Int) - 1, middle + 1].foldlM
      (closerOctave (inParts letter alteration none) reference)
      (middle, distanceIn letter alteration reference middle) =
        .ok (closestIn letter alteration reference middle,
          distanceIn letter alteration reference (closestIn letter alteration reference middle)) := by
    rw [List.foldlM_cons]
    cases middle with
    | zero =>
      refine Except.bind_eq_ok_iff.mpr ⟨_, closerOctave_of_neg reference _ _ (by decide), ?_⟩
      rw [List.foldlM_cons]
      exact Except.bind_eq_ok_iff.mpr ⟨_, closerOctave_inParts letter alteration reference 0 1, rfl⟩
    | succ middle =>
      have hbelow : ((middle + 1 : Nat) : Int) - 1 = middle := by omega
      rw [hbelow]
      refine Except.bind_eq_ok_iff.mpr
        ⟨_, closerOctave_inParts letter alteration reference (middle + 1) middle, ?_⟩
      rw [List.foldlM_cons]
      exact Except.bind_eq_ok_iff.mpr
        ⟨_, closerOctave_inParts letter alteration reference _ (middle + 2), rfl⟩
  rw [closestOctave, isBare_inParts, h]
  change (pitch (withOctave (inParts letter alteration none) middle) >>= _) = _
  rw [withOctave_inParts, pitch_inParts]
  refine Except.bind_eq_ok_iff.mpr ⟨_, rfl, Except.bind_eq_ok_iff.mpr ⟨_, hfold, ?_⟩⟩
  exact congrArg Except.ok (withOctave_inParts letter alteration _)

private theorem closer_spec (best other : Nat) :
    closer letter alteration reference best other = best ∧
        distanceIn letter alteration reference best ≤ distanceIn letter alteration reference other ∨
      closer letter alteration reference best other = other ∧
        distanceIn letter alteration reference other < distanceIn letter alteration reference best := by
  rw [closer]
  split
  · next h => exact .inr ⟨rfl, h⟩
  · next h => exact .inl ⟨rfl, Nat.le_of_not_lt h⟩

/-- The octave of the reference, unless a neighbour is strictly closer. -/
theorem closestIn_spec (middle : Nat) {octave : Nat}
    (h : closestIn letter alteration reference middle = octave) :
    (octave = middle ∨ (octave = middle + 1 ∨ middle = octave + 1) ∧
      distanceIn letter alteration reference octave < distanceIn letter alteration reference middle) ∧
    distanceIn letter alteration reference octave ≤
      distanceIn letter alteration reference (middle + 1) ∧
    ∀ below, middle = below + 1 → distanceIn letter alteration reference octave ≤
      distanceIn letter alteration reference below := by
  cases middle with
  | zero =>
    rw [closestIn] at h
    obtain ⟨hkeep, hd⟩ | ⟨hmove, hd⟩ := closer_spec letter alteration reference 0 1
    · obtain rfl : octave = 0 := h.symm.trans hkeep
      exact ⟨.inl rfl, hd, fun below hbelow => by omega⟩
    · obtain rfl : octave = 1 := h.symm.trans hmove
      exact ⟨.inr ⟨.inl rfl, hd⟩, le_rfl, fun below hbelow => by omega⟩
  | succ below =>
    rw [closestIn] at h
    have hfirst := closer_spec letter alteration reference (below + 1) below
    generalize closer letter alteration reference (below + 1) below = best at h hfirst
    have hsecond := closer_spec letter alteration reference best (below + 2)
    rw [h] at hsecond
    refine ⟨?_, ?_, fun other hother => ?_⟩
    · obtain ⟨rfl, hd⟩ | ⟨rfl, hd⟩ := hfirst <;> obtain ⟨rfl, hd'⟩ | ⟨rfl, hd'⟩ := hsecond
      · exact .inl rfl
      · exact .inr ⟨.inl rfl, hd'⟩
      · exact .inr ⟨.inr rfl, hd⟩
      · exact .inr ⟨.inl rfl, hd'.trans hd⟩
    · obtain ⟨rfl, hd⟩ | ⟨rfl, hd⟩ := hsecond
      · exact hd
      · exact le_rfl
    · obtain rfl : other = below := by omega
      obtain ⟨rfl, hd⟩ | ⟨rfl, hd⟩ := hfirst <;> obtain ⟨rfl, hd'⟩ | ⟨rfl, hd'⟩ := hsecond
      · exact hd
      · exact hd'.le.trans hd
      · exact le_rfl
      · exact hd'.le

/-- In the octave of the reference a letter lies an octave from it at most, and above it if there is
no lower octave. -/
theorem gapIn_referenceOctave {middle : Nat} (h : referenceOctave reference = middle) :
    gapIn letter alteration reference middle ≤ 12 ∧ (middle : Int) = reference.fdiv octaveSize - 1 ∧
        -12 ≤ gapIn letter alteration reference middle ∨
      middle = 0 ∧ 0 ≤ gapIn letter alteration reference middle := by
  have hlow : -1 ≤ offsetOf letter alteration := by cases letter <;> cases alteration <;> decide
  have hhigh : offsetOf letter alteration ≤ 12 := by cases letter <;> cases alteration <;> decide
  have hdiv : reference.fdiv octaveSize = reference / 12 :=
    Int.fdiv_eq_ediv_of_nonneg _ (by decide)
  rw [referenceOctave, hdiv] at h
  rw [hdiv, gapIn, pitchIn]
  generalize offsetOf letter alteration = offset at hlow hhigh
  simp only [octaveSize]
  omega

/-- The octave that is found is no farther than half an octave from the reference, unless it is the
lowest one. Exactly half an octave away it is the octave of the reference. -/
theorem gapIn_closestIn {middle octave : Nat} (h : referenceOctave reference = middle)
    (hoctave : closestIn letter alteration reference middle = octave) :
    -6 ≤ gapIn letter alteration reference octave ∧
      (octave = 0 ∨ gapIn letter alteration reference octave ≤ 6) ∧
      (gapIn letter alteration reference octave = -6 ∨
          octave ≠ 0 ∧ gapIn letter alteration reference octave = 6 →
        (octave : Int) = reference.fdiv octaveSize - 1) := by
  obtain ⟨hnear, habove, hbelow⟩ := closestIn_spec letter alteration reference middle hoctave
  have hmiddle := gapIn_referenceOctave letter alteration reference h
  rcases hnear with rfl | ⟨rfl | rfl, hcloser⟩
  · rw [distanceIn_le_succ_iff] at habove
    have hupper : octave = 0 ∨ gapIn letter alteration reference octave ≤ 6 := by
      cases octave with
      | zero => exact .inl rfl
      | succ below =>
        exact .inr ((distanceIn_succ_le_iff letter alteration reference below).mp (hbelow below rfl))
    refine ⟨habove, hupper, ?_⟩
    omega
  · rw [← not_le, distanceIn_le_succ_iff] at hcloser
    have hgap := gapIn_eq letter alteration reference middle (middle + 1)
    omega
  · rw [← not_le, distanceIn_succ_le_iff] at hcloser
    have hgap := gapIn_eq letter alteration reference (octave + 1) octave
    omega

private theorem isClosest_closestIn {middle : Nat} (h : referenceOctave reference = middle) :
    IsClosest letter alteration reference (closestIn letter alteration reference middle) := by
  obtain ⟨hlow, hhigh, htie⟩ := gapIn_closestIn letter alteration reference h rfl
  generalize closestIn letter alteration reference middle = octave at hlow hhigh htie
  constructor
  · intro other
    rw [distanceIn, distanceIn, gapIn_eq letter alteration reference octave other]
    omega
  · intro other hne hsame
    rw [distanceIn, distanceIn, gapIn_eq letter alteration reference octave other] at hsame
    exact htie (by omega)

/-- A name without octave always gets one, and it is the closest. -/
theorem exists_closestOctave : ∃ octave : Nat,
    closestOctave (inParts letter alteration none) reference =
        .ok (inParts letter alteration (some octave)) ∧
      IsClosest letter alteration reference octave := by
  obtain ⟨middle, hmiddle⟩ :=
    Int.eq_ofNat_of_zero_le (Int.le_max_right (reference.fdiv octaveSize - 1) 0)
  exact ⟨_, closestOctave_inParts_eq letter alteration reference hmiddle,
    isClosest_closestIn letter alteration reference hmiddle⟩

variable {letter alteration reference} in
/-- Half an octave is the farthest, unless the reference lies below the middle of the lowest
octave. -/
theorem IsClosest.distanceIn_le {octave : Nat} (h : IsClosest letter alteration reference octave)
    (hreference : 18 ≤ reference) : distanceIn letter alteration reference octave ≤ 6 := by
  have hhigh : offsetOf letter alteration ≤ 12 := by cases letter <;> cases alteration <;> decide
  have habove := (distanceIn_le_succ_iff letter alteration reference octave).mp (h.le _)
  cases octave with
  | zero =>
    rw [distanceIn, gapIn, pitchIn, octaveSize] at *
    omega
  | succ below =>
    have hbelow := (distanceIn_succ_le_iff letter alteration reference below).mp (h.le _)
    rw [distanceIn]
    omega

/-- A name without octave always has a pitch in the end. -/
theorem closestOctave_inParts :
    ∃ name, closestOctave (inParts letter alteration none) reference = .ok name ∧ Readable name := by
  obtain ⟨octave, h, -⟩ := exists_closestOctave letter alteration reference
  exact ⟨_, h, readable_inParts letter alteration octave⟩

end Closest

/-- What stands before the octave of a name is no digit. -/
theorem isDigitSign_getLast? (letter : Letter) (alteration : Alteration) :
    ∃ c, (letter.toChar :: alteration.sign).getLast? = some c ∧ Text.isDigitSign c = false := by
  cases alteration with
  | natural => exact ⟨letter.toChar, rfl, by cases letter <;> decide⟩
  | sharp => exact ⟨'#', rfl, by decide⟩
  | flat => exact ⟨'b', rfl, by decide⟩

end LeadSheet.NoteName
