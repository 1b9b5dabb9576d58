import LeadSheet.Proofs.Harmony.Steps
import LeadSheet.Proofs.Pitch.Root

/-!
The notes of a scale over a range. From any offset on, below the root or above it, they are the names
of the pitches that follow the steps from the root in its octave; so a round of steps that fill an
octave raises all notes by an octave. The one root that is let pass and leads to no notes is one with
a line feed behind it.
-/
namespace LeadSheet.Scale
open NoteName

theorem checkRoot_eq_ok_iff {root : String} : checkRoot root = .ok () ↔ isBare root = true := by
  rw [checkRoot]
  split <;> simp_all

/-- The kind of accidentals can be told for every root that is let pass. -/
theorem exists_isFlat (scale : Scale) (h : isBare scale.root = true) :
    ∃ flat, scale.isFlat = .ok flat := by
  obtain ⟨c, hc⟩ := exists_pitchClass_of_isBare h
  obtain ⟨classes, hclasses⟩ : ∃ classes, fifths.mapM pitchClass = .ok classes :=
    Except.exists_eq_ok (by decide)
  exact Except.exists_bind_eq_ok hc (Except.exists_bind_eq_ok hclasses ⟨_, rfl⟩)

section Notes
variable {scale : Scale} {root : String} {p : Int} {flat : Bool} {P : Int → Int}

/-- The walk down to a place below the root, or past the places in front of an offset, arrives at
the offset. -/
theorem rangeFrom_eq (hp : pitch root = .ok p) (hflat : scale.isFlat = .ok flat)
    (hne : scale.steps ≠ []) (hP : Follows scale.steps P) (hzero : P 0 = p) (count : Nat)
    (offset : Int) :
    scale.rangeFrom root count offset = .ok ((List.range count).map fun (j : Nat) =>
      spell (P (offset + j)) (scale.chromatic || !flat)) := by
  have hcheck : scale.checkSteps = .ok () := by
    rw [checkSteps, if_neg (by simpa using hne)]
  have hdescend := hP.descend (-offset).toNat 0
  have hascend := hP.ascend_emod (count + offset.toNat) (0 - (-offset).toNat)
  -- the places in front of a positive offset are walked over and left out
  have hdrop : ((List.range (count + offset.toNat)).map fun (j : Nat) =>
      P (0 - (-offset).toNat + j)).drop offset.toNat =
        (List.range count).map fun (j : Nat) => P (offset + j) := by
    rw [Nat.add_comm, List.range_add, List.map_append, List.map_map, List.drop_left' (by simp)]
    apply List.map_congr_left
    intro j _
    simp only [Function.comp]
    congr 1
    omega
  rw [rangeFrom, hp]
  refine Except.bind_eq_ok_iff.mpr ⟨p, rfl, Except.bind_eq_ok_iff.mpr ⟨flat, hflat,
    Except.bind_eq_ok_iff.mpr ⟨(), hcheck, ?_⟩⟩⟩
  rw [← hzero, hdescend, Except.pure_eq_ok_iff]
  rw [hascend, hdrop, List.map_map]
  rfl

private theorem range_eq {octave : Int} (hp : pitch (withOctave scale.root octave) = .ok p)
    (hflat : scale.isFlat = .ok flat) (hne : scale.steps ≠ []) (hP : Follows scale.steps P)
    (hzero : P 0 = p) (count : Nat) (offset : Int) :
    scale.range octave count offset = .ok ((List.range count).map fun (j : Nat) =>
      spell (P (offset + j)) (scale.chromatic || !flat)) :=
  rangeFrom_eq hp hflat hne hP hzero count offset

end Notes

/-- A root with a line feed behind it leads to no notes. -/
theorem range_of_endsLine {scale : Scale} (h : isBare scale.root = true)
    (hline : EndsLine scale.root) (octave : Int) (count : Nat) (offset : Int) :
    scale.range octave count offset = .error (.noPitch (withOctave scale.root octave)) := by
  rw [range, rangeFrom, pitch_withOctave_of_endsLine h hline]
  rfl

/-- The notes of a root in an octave, by how high they lie above it. -/
theorem range_eq_heights {scale : Scale} {octave p : Int} {flat : Bool}
    (hp : pitch (withOctave scale.root octave) = .ok p) (hflat : scale.isFlat = .ok flat)
    (hne : scale.steps ≠ []) (count : Nat) (offset : Int) :
    scale.range octave count offset = .ok ((List.range count).map fun (j : Nat) =>
      spell (p + height scale.steps (offset + j)) (scale.chromatic || !flat)) := by
  have hzero : p + height scale.steps 0 = p := by rw [height_zero, Int.add_zero]
  exact range_eq hp hflat hne ((follows_height hne).raise p) hzero count offset

/-- What notes tell when there are some: they lie above a pitch of the root's class. -/
theorem range_eq_ok {scale : Scale} {octave offset : Int} {count : Nat} {names : List String}
    (hbare : isBare scale.root = true) (hne : scale.steps ≠ [])
    (h : scale.range octave count offset = .ok names) :
    ∃ p flat, pitchClass scale.root = .ok (p % octaveSize) ∧
      names = (List.range count).map fun (j : Nat) =>
        spell (p + height scale.steps (offset + j)) (scale.chromatic || !flat) := by
  obtain ⟨p, hp, -⟩ := Except.bind_eq_ok_iff.mp h
  obtain ⟨flat, hflat⟩ := exists_isFlat scale hbare
  have hclass := pitchClass_of_pitch hp
  rw [pitchClass_withOctave hbare] at hclass
  rw [range_eq_heights hp hflat hne] at h
  exact ⟨p, flat, hclass, (Except.ok.inj h).symm⟩

/-- Where the steps fill an octave, a round of them leads to the notes of the next octave. -/
theorem range_add_length {scale : Scale} (h : isBare scale.root = true)
    (hline : ¬ EndsLine scale.root) (hne : scale.steps ≠ []) (octave : Nat)
    (hwidth : width scale.steps = octaveSize) (count : Nat) (offset : Int) :
    scale.range octave count (offset + scale.steps.length) =
      scale.range (octave + 1) count offset := by
  obtain ⟨lowest, -, hpitch⟩ := exists_pitch_withOctave h hline
  obtain ⟨flat, hflat⟩ := exists_isFlat scale h
  rw [range_eq_heights (hpitch octave) hflat hne, ← Int.natCast_succ,
    range_eq_heights (hpitch (octave + 1)) hflat hne]
  congr 1
  apply List.map_congr_left
  intro j _
  have hround := (follows_height hne).add_length hne (offset + j)
  rw [hwidth, Int.add_right_comm offset] at hround
  rw [hround]
  congr 1
  simp only [octaveSize, Int.natCast_succ]
  omega

/-- The notes of a scale follow its steps from the root in the octave, in both directions and from
every offset on. Where the steps fill an octave, a round of them is the next octave. A root with a
line feed behind it leads to no notes. -/
theorem range_along_steps {scale : Scale} (hroot : checkRoot scale.root = .ok ())
    (hne : scale.steps ≠ []) (octave : Nat) :
    (¬ EndsLine scale.root →
      ∃ p flat, pitch (withOctave scale.root octave) = .ok p ∧ scale.isFlat = .ok flat ∧
        (∃! P, Follows scale.steps P ∧ P 0 = p) ∧
        (∀ P, Follows scale.steps P → P 0 = p → ∀ (count : Nat) (offset : Int),
          scale.range octave count offset = .ok ((List.range count).map fun (j : Nat) =>
            spell (P (offset + j)) (scale.chromatic || !flat))) ∧
        (width scale.steps = octaveSize → ∀ (count : Nat) (offset : Int),
          scale.range octave count (offset + scale.steps.length) =
            scale.range (octave + 1) count offset)) ∧
      (EndsLine scale.root → ∀ (count : Nat) (offset : Int),
        scale.range octave count offset = .error (.noPitch (withOctave scale.root octave))) := by
  have hbare := checkRoot_eq_ok_iff.mp hroot
  refine ⟨fun hline => ?_, fun hline => range_of_endsLine hbare hline octave⟩
  obtain ⟨lowest, -, hpitch⟩ := exists_pitch_withOctave hbare hline
  obtain ⟨flat, hflat⟩ := exists_isFlat scale hbare
  refine ⟨_, flat, hpitch octave, hflat, ?_, ?_, range_add_length hbare hline hne octave⟩
  · have hraise := (follows_height hne).raise (lowest + octave * octaveSize)
    refine ⟨_, ⟨hraise, ?_⟩, ?_⟩
    · rw [height_zero, Int.add_zero]
    · rintro Q ⟨hQ, hzero⟩
      apply hQ.eq hraise
      rw [hzero, height_zero, Int.add_zero]
  · intro P hP hzero count offset
    exact range_eq (hpitch octave) hflat hne hP hzero count offset

theorem range_along_steps_seventh :
    let seventh : Scale := ⟨"Bb", [4, 3, 3, 2], false, false⟩
    checkRoot seventh.root = .ok () ∧ seventh.steps ≠ [] ∧ ¬ EndsLine seventh.root ∧
      width seventh.steps = octaveSize ∧ seventh.range 3 3 (-5) = .ok ["Ab2", "Bb2", "D3"] ∧
      seventh.range 3 3 (-5 + 4) = seventh.range 4 3 (-5) := by
  intro seventh
  have hroot : checkRoot seventh.root = .ok () := by decide
  have hne : seventh.steps ≠ [] := by decide
  have hp : pitch (withOctave seventh.root 3) = .ok 58 := by decide
  have hflat : seventh.isFlat = .ok true := by decide
  obtain ⟨p, flat, hp', hflat', -, hrange, hround⟩ := (range_along_steps hroot hne 3).1 (by decide)
  obtain rfl : 58 = p := Except.ok.inj (hp.symm.trans hp')
  obtain rfl : true = flat := Except.ok.inj (hflat.symm.trans hflat')
  have hnotes := hrange _ ((follows_height hne).raise 58) (by decide) 3 (-5)
  exact ⟨hroot, hne, by decide, by decide, hnotes.trans (by decide), hround (by decide) 3 (-5)⟩

/-- A root with a line feed behind it is let pass, but no note can be named. -/
theorem not_range_line_feed :
    ∃ scale, onRoot .major "C\n" = .ok scale ∧ scale.steps ≠ [] ∧
      scale.range 4 1 0 = .error (.noPitch "C\n4") :=
  ⟨_, rfl, by decide, rfl⟩

end LeadSheet.Scale
