import LeadSheet.Proofs.Pitch.Spelling

/-!
Intervals added to names. A spelled pitch is read back exactly from the C of octave zero upwards, and
so an interval can be added to a name in two parts as long as the first one does not lead below it.
-/
namespace LeadSheet.NoteName

section
variable {name : String} {p : Int} (h : pitch name = .ok p)
include h

/-- Between the parts of an interval the pitch is spelled, and the name is read again. -/
theorem transpose_in_parts (a b : Int) :
    (do transpose (← transpose name a) b) =
      (pitch (ofPitch (p + a))).map fun q => ofPitch (q + b) := by
  rw [transpose_of_pitch h]
  exact transpose_eq_map (ofPitch (p + a)) b

private theorem transpose_in_parts_of_le {a : Int} (hle : 12 ≤ p + a) (b : Int) :
    (do transpose (← transpose name a) b) = .ok (ofPitch (p + (a + b))) := by
  rw [transpose_in_parts h, ofPitch, pitch_spell_of_le hle, ← Int.add_assoc]
  rfl

private theorem transpose_in_parts_of_lt {a : Int} (hlt : p + a < 12) (b : Int) :
    (do transpose (← transpose name a) b) = .error (.noPitch (ofPitch (p + a))) := by
  rw [transpose_in_parts h, ofPitch, pitch_spell_of_lt hlt]
  rfl

end

/-- A pitch is read from the name that it is spelled with, by sharps or by flats, exactly from the C
of octave zero upwards, and no other pitch is read from it. So to add two intervals to a name, one
after the other, is to add their sum; but where the first one leads below that C, the name between them
is not readable, and only the sum can be added. -/
theorem transpose_by_parts :
    (∀ p q sharpen, pitch (spell p sharpen) = .ok q ↔ 12 ≤ p ∧ q = p) ∧
      ∀ name p, pitch name = .ok p → ∀ a b,
        transpose name (a + b) = .ok (ofPitch (p + (a + b))) ∧
          (12 ≤ p + a →
            (do transpose (← transpose name a) b) = .ok (ofPitch (p + (a + b)))) ∧
          (p + a < 12 →
            (do transpose (← transpose name a) b) = .error (.noPitch (ofPitch (p + a)))) :=
  ⟨fun _ _ _ => pitch_spell_eq_ok_iff, fun _ _ h a b => ⟨transpose_of_pitch h (a + b),
    fun hle => transpose_in_parts_of_le h hle b, fun hlt => transpose_in_parts_of_lt h hlt b⟩⟩

/-- From a flat down to the C of octave zero and up again. A semitone further down there is no way
back. -/
theorem transpose_by_parts_flat :
    pitch "Bb1" = .ok 34 ∧ 12 ≤ 34 + (-22) ∧
      (do transpose (← transpose "Bb1" (-22)) 25) = .ok "C#2" ∧
      (do transpose (← transpose "Bb1" (-23)) 25) = .error (.noPitch "B-1") := by
  have h : pitch "Bb1" = .ok 34 := by decide
  have hname : ofPitch (34 + (-22 + 25)) = "C#2" := by decide
  have hlow : ofPitch (34 + (-23)) = "B-1" := by decide
  have hsum := (transpose_by_parts.2 "Bb1" 34 h (-22) 25).2.1 (by decide)
  have hbetween := (transpose_by_parts.2 "Bb1" 34 h (-23) 25).2.2 (by decide)
  rw [hname] at hsum
  rw [hlow] at hbetween
  exact ⟨h, by decide, hsum, hbetween⟩

end LeadSheet.NoteName
