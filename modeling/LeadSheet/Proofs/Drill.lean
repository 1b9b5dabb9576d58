import LeadSheet.Drill
import LeadSheet.Proofs.Pitch.WithoutOctave
import Mathlib.Data.List.Perm.Subperm

/-!
Playing the next item of a drill. The notes of a column are looked for one by one among those that are
played; where all of them are different and as many are played, these are the column in some order.
Octaves aside, a single note is compared by its pitch class, but the notes of a column are compared by
their names, so that a column may be missed for the spelling of its notes.
-/
namespace LeadSheet.DrillItem
open NoteName

variable {notes played : List String} {pitches heard : List Int}

/-! ### Pitches among pitches -/

private theorem allAmong_eq_ok (heard : List Int) (h : notes.mapM pitch = .ok pitches) :
    allAmong heard notes = .ok (pitches.all heard.contains) := by
  induction notes generalizing pitches with
  | nil =>
    obtain rfl := Except.pure_eq_ok_iff.mp h
    rfl
  | cons note notes ih =>
    obtain ⟨p, rest, hp, hrest, rfl⟩ := Except.mapM_cons_eq_ok_iff.mp h
    rw [allAmong, hp, List.all_cons]
    refine Except.bind_eq_ok_iff.mpr ⟨p, rfl, ?_⟩
    cases hheard : heard.contains p with
    | true => simp [ih hrest]
    | false => simp [pure, Except.pure]

/-- A search that finds all notes has read all of them. -/
theorem forall_of_allAmong (h : allAmong heard notes = .ok true) :
    ∀ note ∈ notes, ∃ p ∈ heard, pitch note = .ok p := by
  induction notes with
  | nil => simp
  | cons note notes ih =>
    obtain ⟨p, hp, h⟩ := Except.bind_eq_ok_iff.mp h
    by_cases hheard : heard.contains p = true
    · rw [if_pos hheard] at h
      exact List.forall_mem_cons.mpr ⟨⟨p, List.contains_iff_mem.mp hheard, hp⟩, ih h⟩
    · rw [if_neg hheard] at h
      cases h

private theorem isPlayed_column (hpitches : notes.mapM pitch = .ok pitches)
    (hheard : played.mapM pitch = .ok heard) :
    ∃ found, (column notes).isPlayed played false = .ok found ∧
      (found = true ↔ pitches.length = heard.length ∧ pitches ⊆ heard) := by
  have hlength := (Except.mapM_eq_ok_iff_forall₂.mp hpitches).length_eq
  have hlength' := (Except.mapM_eq_ok_iff_forall₂.mp hheard).length_eq
  rw [isPlayed]
  by_cases hsame : notes.length = played.length
  · refine ⟨pitches.all heard.contains, ?_, ?_⟩
    · rw [if_neg (not_not_intro hsame), hheard]
      exact allAmong_eq_ok heard hpitches
    · rw [← hlength, ← hlength', and_iff_right hsame]
      simp [List.subset_def]
  · refine ⟨false, if_pos hsame, ?_⟩
    simp [← hlength, ← hlength', hsame]

/-- Different pitches that are found among as many are all of them, in some order. -/
theorem perm_iff_of_nodup (h : pitches.Nodup) :
    pitches.length = heard.length ∧ pitches ⊆ heard ↔ heard.Perm pitches := by
  constructor
  · rintro ⟨hlength, hsubset⟩
    -- a list without repetitions takes a place of its own for each member
    have hsubperm := List.subperm_of_subset h hsubset
    exact (hsubperm.perm_of_length_le hlength.ge).symm
  · exact fun hperm => ⟨hperm.length_eq.symm, hperm.symm.subset⟩

/-! ### Octaves aside -/

/-- Every note of a column that is played exactly is played by some name. -/
theorem exists_same_pitch (h : (column notes).isPlayed played false = .ok true) :
    notes.length = played.length ∧ (∀ one ∈ played, ∃ p, pitch one = .ok p) ∧
      ∀ note ∈ notes, ∃ one ∈ played, ∃ p, pitch one = .ok p ∧ pitch note = .ok p := by
  rw [isPlayed] at h
  split at h
  · cases h
  · next hlength =>
    obtain ⟨heard, hheard, h⟩ := Except.bind_eq_ok_iff.mp h
    refine ⟨not_not.mp hlength, fun one hone => ?_, fun note hnote => ?_⟩
    · obtain ⟨p, -, hp⟩ := Except.exists_mem_of_mapM hheard hone
      exact ⟨p, hp⟩
    · obtain ⟨p, hp, hpitch⟩ := forall_of_allAmong h note hnote
      obtain ⟨one, hone, hsame⟩ := Except.exists_of_mem_mapM hheard hp
      exact ⟨one, hone, p, hsame, hpitch⟩

/-- A column that is played exactly is played, octaves aside, exactly if each note is played in its own
spelling. -/
theorem isPlayed_column_any_octave (h : (column notes).isPlayed played false = .ok true) :
    ∃ found, (column notes).isPlayed played true = .ok found ∧
      (found = true ↔ ∀ note ∈ notes, ∃ one ∈ played, SpelledAlike one note) := by
  obtain ⟨hlength, hplayed, hnotes⟩ := exists_same_pitch h
  refine ⟨_, by rw [isPlayed, if_neg (not_not_intro hlength), if_pos rfl], ?_⟩
  rw [List.all_eq_true]
  refine forall₂_congr fun note hnote => ?_
  obtain ⟨-, -, q, -, hq⟩ := hnotes note hnote
  rw [List.contains_iff_mem, List.mem_map]
  refine exists_congr fun one => and_congr_right fun hone => ?_
  obtain ⟨p, hp⟩ := hplayed one hone
  exact stripOctave_eq_iff hp hq

private theorem isPlayed_single_any_octave {note : String}
    (h : (single note).isPlayed played false = .ok true) :
    (single note).isPlayed played true = .ok true := by
  cases played with
  | nil => cases h
  | cons one rest =>
    cases rest with
    | cons _ _ => cases h
    | nil =>
      obtain ⟨p, hp, h⟩ := Except.bind_eq_ok_iff.mp h
      obtain ⟨q, hq, h⟩ := Except.bind_eq_ok_iff.mp h
      obtain rfl : p = q := of_decide_eq_true (Except.pure_eq_ok_iff.mp h)
      change sameClass one note = .ok true
      rw [sameClass, pitchClass_of_pitch hp, pitchClass_of_pitch hq]
      exact congrArg Except.ok (decide_eq_true rfl)

end LeadSheet.DrillItem

namespace LeadSheet.Drill
open NoteName DrillItem

variable {drill : Drill} {played : List String}

private theorem matchesHead_of_head {item : DrillItem} (h : drill.head = .ok item)
    (anyOctave : Bool) :
    drill.matchesHead played anyOctave = item.isPlayed played anyOctave := by
  rw [matchesHead, h]
  rfl

/-- A column of different notes is matched exactly by the notes with its pitches, in any order and
under any names. -/
theorem matchesHead_iff_perm {notes : List String} {pitches heard : List Int}
    (hhead : drill.head = .ok (.column notes)) (hpitches : notes.mapM pitch = .ok pitches)
    (hdistinct : pitches.Nodup) (hheard : played.mapM pitch = .ok heard) :
    ∃ found, drill.matchesHead played false = .ok found ∧ (found = true ↔ heard.Perm pitches) := by
  obtain ⟨found, hfound, hiff⟩ := isPlayed_column hpitches hheard
  refine ⟨found, ?_, hiff.trans (perm_iff_of_nodup hdistinct)⟩
  rw [matchesHead_of_head hhead, hfound]

theorem matchesHead_iff_perm_enharmonic :
    let drill : Drill := [.column ["C4", "F#4", "Bb4"], .single "D4"]
    drill.head = .ok (.column ["C4", "F#4", "Bb4"]) ∧
      ["C4", "F#4", "Bb4"].mapM pitch = .ok [60, 66, 70] ∧ [60, 66, 70].Nodup ∧
      ["A#4", "B#3", "Gb4"].mapM pitch = .ok [70, 60, 66] ∧
      drill.matchesHead ["A#4", "B#3", "Gb4"] false = .ok true := by
  intro drill
  have hhead : drill.head = .ok (.column ["C4", "F#4", "Bb4"]) := rfl
  have hpitches : ["C4", "F#4", "Bb4"].mapM pitch = .ok [60, 66, 70] := by decide
  have hdistinct : [(60 : Int), 66, 70].Nodup := by decide
  have hheard : ["A#4", "B#3", "Gb4"].mapM pitch = .ok [70, 60, 66] := by decide
  obtain ⟨found, hfound, hiff⟩ := matchesHead_iff_perm hhead hpitches hdistinct hheard
  rw [hiff.mpr (by decide)] at hfound
  exact ⟨hhead, hpitches, by decide, hheard, hfound⟩

/-- Notes that match exactly match in any octave as well, if the item is a single note. If it is a
column, they do so exactly if each of its notes is played in its own spelling; so nothing is lost where
notes of one pitch are spelled alike. -/
theorem matchesHead_any_octave (h : drill.matchesHead played false = .ok true) :
    ∃ item found, drill.head = .ok item ∧ drill.matchesHead played true = .ok found ∧
      (found = true ↔ (∃ note, item = .single note) ∨
        ∀ note ∈ item.notes, ∃ one ∈ played, SpelledAlike one note) ∧
      ((∀ note ∈ item.notes, ∀ one ∈ played, pitch one = pitch note → SpelledAlike one note) →
        found = true) := by
  obtain ⟨item, hhead, h⟩ := Except.bind_eq_ok_iff.mp h
  cases item with
  | single note =>
    have hfound := isPlayed_single_any_octave h
    rw [← matchesHead_of_head hhead] at hfound
    exact ⟨_, true, hhead, hfound, iff_of_true rfl (.inl ⟨note, rfl⟩), fun _ => rfl⟩
  | column notes =>
    obtain ⟨-, -, hnotes⟩ := exists_same_pitch h
    obtain ⟨found, hfound, hiff⟩ := isPlayed_column_any_octave h
    rw [← matchesHead_of_head hhead] at hfound
    refine ⟨_, found, hhead, hfound, ?_, fun halike => hiff.mpr fun note hnote => ?_⟩
    · rw [hiff, or_iff_right]
      · rfl
      · rintro ⟨note, hsingle⟩
        cases hsingle
    · obtain ⟨one, hone, p, hp, hpitch⟩ := hnotes note hnote
      exact ⟨one, hone, halike note hnote one hone (hp.trans hpitch.symm)⟩

theorem matchesHead_any_octave_column :
    let drill : Drill := [.column ["Bb3", "D4", "F#4"]]
    drill.matchesHead ["F#4", "Bb3", "D4"] false = .ok true ∧
      drill.matchesHead ["F#4", "Bb3", "D4"] true = .ok true := by
  intro drill
  have hexact : drill.matchesHead ["F#4", "Bb3", "D4"] false = .ok true := by decide
  obtain ⟨item, found, hhead, hfound, hiff, -⟩ := matchesHead_any_octave hexact
  obtain rfl : .column ["Bb3", "D4", "F#4"] = item := Except.ok.inj hhead
  rw [hiff.mpr (.inr (by decide))] at hfound
  exact ⟨hexact, hfound⟩

/-- A column is missed, octaves aside, by a note of its very pitch. -/
theorem not_matchesHead_respelled :
    let drill : Drill := [.column ["C#4"]]
    drill.matchesHead ["Db4"] false = .ok true ∧ drill.matchesHead ["Db4"] true = .ok false :=
  ⟨by decide, by decide⟩

end LeadSheet.Drill
