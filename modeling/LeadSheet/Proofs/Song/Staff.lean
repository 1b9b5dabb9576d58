import LeadSheet.Proofs.Outcome
import LeadSheet.Proofs.Pitch.Root
import LeadSheet.Song.Extent

/-!
The range of the notes and the staff that suits them. The range is found in pitches, but handed on in
names, and a Cb in octave zero has a pitch for which there is no readable name.
-/
namespace LeadSheet.Sheet
open NoteName
variable {α : Type} {s : Sheet α}

/-- The notes reach from one pitch to another, and both are pitches of notes. -/
structure Spans (s : Sheet α) (low high : Int) : Prop where
  lowest : ∃ note ∈ s.notes, pitch note.name = .ok low
  highest : ∃ note ∈ s.notes, pitch note.name = .ok high
  within : ∀ note ∈ s.notes, ∃ p, pitch note.name = .ok p ∧ low ≤ p ∧ p ≤ high

/-- The staff that notes from one pitch to another need. -/
def staffOver (low high : Int) : String :=
  if middleC + 4 < high && low < middleC - 4 then "grand"
  else if low < middleC - 4 then "bass" else "treble"

/-- The answers that there are to the question for a staff. -/
def staves : List String := ["treble", "bass", "grand"]

private theorem staffOver_mem (low high : Int) : staffOver low high ∈ staves := by
  rw [staffOver]
  split
  · decide
  · split <;> decide

/-! ### The range -/

private theorem Spans.low_le_high {low high : Int} (h : s.Spans low high) : low ≤ high := by
  obtain ⟨note, hnote, hlow⟩ := h.lowest
  obtain ⟨p, hp, -, hle⟩ := h.within note hnote
  rw [hlow] at hp
  obtain rfl := Except.ok.inj hp
  exact hle

/-- No note lies below the Cb of octave zero. -/
theorem Spans.le_low {low high : Int} (h : s.Spans low high) : 11 ≤ low := by
  obtain ⟨note, -, hlow⟩ := h.lowest
  exact le_of_pitch hlow

private theorem exists_spans (hne : s.notes ≠ [])
    (h : ∀ note ∈ s.notes, ∃ p, pitch note.name = .ok p) :
    ∃ low high, s.Spans low high ∧ s.noteRange = .ok (some (ofPitch low, ofPitch high)) := by
  obtain ⟨pitches, hpitches⟩ := Except.exists_mapM_eq_ok h
  obtain ⟨p, rest, rfl⟩ := List.exists_cons_of_ne_nil (Except.ne_nil_of_mapM hpitches hne)
  have hmin : (p :: rest).min? = some (rest.foldl min p) := List.min?_cons'
  have hmax : (p :: rest).max? = some (rest.foldl max p) := List.max?_cons'
  obtain ⟨hlow, hle⟩ := List.min?_eq_some_iff.mp hmin
  obtain ⟨hhigh, hge⟩ := List.max?_eq_some_iff.mp hmax
  refine ⟨rest.foldl min p, rest.foldl max p, ?_, ?_⟩
  · refine ⟨Except.exists_of_mem_mapM hpitches hlow, Except.exists_of_mem_mapM hpitches hhigh,
      fun note hnote => ?_⟩
    obtain ⟨q, hq, hname⟩ := Except.exists_mem_of_mapM hpitches hnote
    exact ⟨q, hname, hle q hq, hge q hq⟩
  · rw [noteRange, hpitches]
    rfl

/-! ### The staff -/

variable [Timebase α]

private theorem clefStaff_mem {staff : String} (h : s.clefStaff = some staff) : staff ∈ staves := by
  rw [clefStaff] at h
  split at h
  · split_ifs at h
    · obtain rfl := Option.some.inj h
      decide
    · obtain rfl := Option.some.inj h
      decide
  · cases h

private theorem fittingStaff_of_clefStaff {staff : String} (h : s.clefStaff = some staff) :
    s.fittingStaff = .ok staff := by
  rw [fittingStaff, h]
  rfl

/-- Without a clef the names of the range are read again, the lower one first. -/
theorem fittingStaff_of_noteRange {low high : String} (hclef : s.clefStaff = none)
    (hrange : s.noteRange = .ok (some (low, high))) :
    s.fittingStaff = do return staffOver (← pitch low) (← pitch high) := by
  rw [fittingStaff, hclef, hrange]
  rfl

/-- The range is that of the pitches. Where all notes lie above the Cb of octave zero, its names
are read back as they are, and there is a staff: what the clef says, or else what the range needs. With
that Cb among the notes the lower name is B-1, which is not readable, and only a clef gives a staff. -/
theorem noteRange_fittingStaff (hne : s.notes ≠ [])
    (h : ∀ note ∈ s.notes, ∃ p, pitch note.name = .ok p) :
    ∃ low high, s.Spans low high ∧ s.noteRange = .ok (some (ofPitch low, ofPitch high)) ∧
      (11 < low → pitch (ofPitch low) = .ok low ∧ pitch (ofPitch high) = .ok high ∧
        s.fittingStaff = .ok (s.clefStaff.getD (staffOver low high)) ∧
        s.clefStaff.getD (staffOver low high) ∈ staves) ∧
      (¬ 11 < low → low = 11 ∧ ofPitch low = "B-1" ∧
        pitch (ofPitch low) = .error (.noPitch "B-1") ∧
        (s.clefStaff = none → s.fittingStaff = .error (.noPitch "B-1")) ∧
        ∀ staff, s.clefStaff = some staff → s.fittingStaff = .ok staff ∧ staff ∈ staves) := by
  obtain ⟨low, high, hspans, hrange⟩ := exists_spans hne h
  refine ⟨low, high, hspans, hrange, fun hlow => ?_, fun hlow => ?_⟩
  · have hlowname : pitch (ofPitch low) = .ok low := pitch_spell_of_le hlow true
    have hhighname : pitch (ofPitch high) = .ok high :=
      pitch_spell_of_le (Int.le_trans hlow hspans.low_le_high) true
    refine ⟨hlowname, hhighname, ?_⟩
    cases hclef : s.clefStaff with
    | some staff => exact ⟨fittingStaff_of_clefStaff hclef, clefStaff_mem hclef⟩
    | none =>
      refine ⟨?_, staffOver_mem low high⟩
      rw [fittingStaff_of_noteRange hclef hrange, hlowname, hhighname]
      rfl
  · obtain rfl : low = 11 := Int.le_antisymm (Int.not_lt.mp hlow) hspans.le_low
    have hname : ofPitch 11 = "B-1" := by decide
    have hpitch : pitch (ofPitch 11) = .error (.noPitch "B-1") := by decide
    refine ⟨rfl, hname, hpitch, fun hclef => ?_, fun staff hclef =>
      ⟨fittingStaff_of_clefStaff hclef, clefStaff_mem hclef⟩⟩
    rw [fittingStaff_of_noteRange hclef hrange, hpitch]
    rfl

/-- Notes around middle C, the lower one far enough below it for the bass staff. -/
theorem noteRange_fittingStaff_bass :
    ∃ s : Sheet Rat, s.notes.map Note.name = ["E3", "Cb4"] ∧ s.notes ≠ [] ∧
      s.noteRange = .ok (some ("E3", "B3")) ∧ s.fittingStaff = .ok "bass" := by
  let s : Sheet Rat := ofNotes [⟨0, "E3", 0, 1, none⟩, ⟨1, "Cb4", 1, 1, none⟩]
  have hne : s.notes ≠ [] := List.cons_ne_nil _ _
  have hnames : ∀ note ∈ s.notes, ∃ p, pitch note.name = .ok p := by
    intro note hnote
    rcases List.mem_pair.mp hnote with rfl | rfl
    · exact ⟨52, by decide⟩
    · exact ⟨59, by decide⟩
  have hrange : s.noteRange = .ok (some ("E3", "B3")) := by decide
  obtain ⟨low, high, -, hfound, hstaff, -⟩ := noteRange_fittingStaff hne hnames
  rw [hrange] at hfound
  obtain ⟨hlow, hhigh⟩ := Prod.mk.inj (Option.some.inj (Except.ok.inj hfound))
  have hE : ofPitch 52 = "E3" := by decide
  have hB : ofPitch 59 = "B3" := by decide
  obtain rfl : 52 = low := eq_of_spell_eq (hE.trans hlow)
  obtain rfl : 59 = high := eq_of_spell_eq (hB.trans hhigh)
  exact ⟨s, rfl, hne, hrange, (hstaff (by decide)).2.2.1⟩

/-- A single Cb in octave zero. -/
theorem not_fittingStaff_below_octaves :
    ∃ s : Sheet Rat, s.notes.map Note.name = ["Cb0"] ∧ pitch "Cb0" = .ok 11 ∧
      s.noteRange = .ok (some ("B-1", "B-1")) ∧ pitch "B-1" = .error (.noPitch "B-1") ∧
      s.fittingStaff = .error (.noPitch "B-1") :=
  ⟨ofNotes [⟨0, "Cb0", 0, 1, none⟩], rfl, by decide, by decide, by decide, by decide⟩

end LeadSheet.Sheet
