import LeadSheet.Proofs.Harmony.Thirds

/-!
The notes of a scale between two notes. They are taken from the full range, which starts at the root in
octave zero and ends eight octaves and seven steps above it; so what is found are all notes of the scale
between the two that lie in the full range, and what lies below the root or above the end is missed. A
root below the C of octave zero leads to no notes, since its own name there cannot be read.
-/
namespace LeadSheet.Scale
open NoteName

/-! ### Pitches of the full range -/

section Heights
variable {steps : List Int}

/-- Every height that is a note's within an octave is the height of a place. -/
theorem exists_height_iff (hpos : ∀ step ∈ steps, 0 < step) (hwidth : width steps = octaveSize)
    {d : Int} (hd : 0 ≤ d) :
    (∃ j : Nat, height steps j = d) ↔ ∃ i : Nat, height steps i = d % octaveSize := by
  have hne : steps ≠ [] := ne_nil_of_width_pos (width_pos_of_octave hwidth)
  have hfirst (i : Nat) := exists_height_emod hne (nonneg_of_pos hpos) hwidth i
  constructor
  · rintro ⟨j, rfl⟩
    obtain ⟨k, -, hk⟩ := hfirst j
    exact ⟨k, hk⟩
  · rintro ⟨i, hi⟩
    obtain ⟨k, hk, hheight⟩ := hfirst i
    obtain ⟨octaves, hoctaves⟩ := Int.eq_ofNat_of_zero_le (show 0 ≤ d / octaveSize from
      Int.ediv_nonneg hd (by decide))
    refine ⟨octaves * steps.length + k, ?_⟩
    rw [Int.natCast_add, Int.natCast_mul, height_round octaves hk, ← height_of_le hne hk.le, hheight,
      hi, Int.emod_emod_of_dvd d (Int.dvd_refl _), hwidth, ← hoctaves]
    exact Int.ediv_mul_add_emod d octaveSize

/-- The places up to a last one are as high as the notes of the scale up to it. -/
theorem exists_place_iff (hpos : ∀ step ∈ steps, 0 < step) (hwidth : width steps = octaveSize)
    (last : Nat) (d : Int) :
    (∃ j : Nat, j ≤ last ∧ height steps j = d) ↔
      (0 ≤ d ∧ d ≤ height steps last) ∧ ∃ i : Nat, height steps i = d % octaveSize := by
  have hne : steps ≠ [] := ne_nil_of_width_pos (width_pos_of_octave hwidth)
  have hup := follows_height hne
  have hlow (j : Nat) : 0 ≤ height steps j := by
    rw [← height_zero steps]
    exact hup.monotone (nonneg_of_pos hpos) (Int.natCast_nonneg j)
  constructor
  · rintro ⟨j, hj, rfl⟩
    exact ⟨⟨hlow j, hup.monotone (nonneg_of_pos hpos) (Int.ofNat_le.mpr hj)⟩,
      (exists_height_iff hpos hwidth (hlow j)).mp ⟨j, rfl⟩⟩
  · rintro ⟨⟨hd, hle⟩, hclass⟩
    obtain ⟨j, rfl⟩ := (exists_height_iff hpos hwidth hd).mpr hclass
    refine ⟨j, ?_, rfl⟩
    by_contra hlong
    have hlt := hup.lt_of_lt hne hpos (show (last : Int) < j by omega)
    omega

end Heights

section Range
variable {scale : Scale} {first : Int} {flat : Bool} {low high : String} {lowest highest : Int}

/-- The last place of the full range. -/
def lastPlace (scale : Scale) : Nat := 8 * scale.steps.length + 7

private theorem fullRange_eq (hfirst : pitch (withOctave scale.root 0) = .ok first)
    (hflat : scale.isFlat = .ok flat) (hne : scale.steps ≠ []) :
    scale.fullRange = .ok ((List.range (scale.lastPlace + 1)).map fun (j : Nat) =>
      spell (first + height scale.steps j) (scale.chromatic || !flat)) := by
  have hcount : scale.octaveCount * 8 = scale.lastPlace + 1 := by
    rw [octaveCount, lastPlace]
    omega
  rw [fullRange, hcount, range_eq_heights hfirst hflat hne]
  simp only [Int.zero_add]

/-- The pitches of the full range that lie between two pitches. -/
def pitchesBetween (scale : Scale) (first lowest highest : Int) : List Int :=
  ((List.range (scale.lastPlace + 1)).map fun (j : Nat) => first + height scale.steps j).filter
    fun p => lowest ≤ p && p ≤ highest

private theorem pairwise_pitchesBetween (hne : scale.steps ≠ [])
    (hpos : ∀ step ∈ scale.steps, 0 < step) :
    (scale.pitchesBetween first lowest highest).Pairwise (· < ·) := by
  apply List.Pairwise.filter
  rw [List.pairwise_map]
  apply List.pairwise_lt_range.imp
  intro i j hij
  have hlt := (follows_height hne).lt_of_lt hne hpos (Int.ofNat_lt.mpr hij)
  omega

private theorem mem_pitchesBetween (hr : pitchClass scale.root = .ok (first % octaveSize))
    (hpos : ∀ step ∈ scale.steps, 0 < step) (hwidth : width scale.steps = octaveSize) (p : Int) :
    p ∈ scale.pitchesBetween first lowest highest ↔
      (first ≤ p ∧ p ≤ first + height scale.steps scale.lastPlace) ∧ lowest ≤ p ∧ p ≤ highest ∧
        scale.contains (ofPitch p) = .ok true := by
  obtain ⟨found, hfound, hiff⟩ := exists_contains hr (pitchClass_spell p true) (nonneg_of_pos hpos)
    (width_pos_of_octave hwidth)
  have habove : above (first % octaveSize) (p % octaveSize) = (p - first) % octaveSize := by
    simp only [above, octaveSize]
    omega
  have hplace := exists_place_iff hpos hwidth scale.lastPlace (p - first)
  rw [habove] at hiff
  rw [ofPitch, hfound, Except.ok.injEq, hiff, pitchesBetween, List.mem_filter, Bool.and_eq_true,
    decide_eq_true_eq, decide_eq_true_eq, List.mem_map]
  have hin : (∃ j ∈ List.range (scale.lastPlace + 1), first + height scale.steps (j : Nat) = p) ↔
      ∃ j : Nat, j ≤ scale.lastPlace ∧ height scale.steps j = p - first := by
    refine exists_congr fun j => and_congr ?_ ?_
    · rw [List.mem_range, Nat.lt_succ_iff]
    · omega
  have hlast : p - first ≤ height scale.steps scale.lastPlace ↔
      p ≤ first + height scale.steps scale.lastPlace := by omega
  rw [hin, hplace, Int.sub_nonneg, hlast]
  constructor
  · rintro ⟨⟨hrange, hclass⟩, hlow, hhigh⟩
    exact ⟨hrange, hlow, hhigh, hclass⟩
  · rintro ⟨hrange, hlow, hhigh, hclass⟩
    exact ⟨⟨hrange, hclass⟩, hlow, hhigh⟩

/-- Of a full range whose names can be read, those are taken that lie between the two notes. -/
theorem looseRange_eq (hfirst : pitch (withOctave scale.root 0) = .ok first) (hle : 12 ≤ first)
    (hflat : scale.isFlat = .ok flat) (hne : scale.steps ≠ [])
    (hnonneg : ∀ step ∈ scale.steps, 0 ≤ step) (hlow : pitch low = .ok lowest)
    (hhigh : pitch high = .ok highest) :
    scale.looseRange low high = .ok ((scale.pitchesBetween first lowest highest).map fun p =>
      spell p (scale.chromatic || !flat)) := by
  have hread (j : Nat) : pitch (spell (first + height scale.steps j) (scale.chromatic || !flat)) =
      .ok (first + height scale.steps j) := by
    have hup := (follows_height hne).monotone hnonneg (Int.natCast_nonneg j)
    rw [height_zero] at hup
    exact pitch_spell_of_le (by omega) _
  rw [looseRange, hlow, hhigh, fullRange_eq hfirst hflat hne]
  refine Except.bind_eq_ok_iff.mpr ⟨_, rfl, Except.bind_eq_ok_iff.mpr ⟨_, rfl,
    Except.bind_eq_ok_iff.mpr ⟨_, rfl, ?_⟩⟩⟩
  rw [pitchesBetween, List.filter_map, List.map_map, Except.filterM_map fun _ => rfl,
    Except.filterM_eq_ok fun j _ => by rw [hread]; rfl]
  rfl

/-- A root whose own name in octave zero cannot be read leads to no notes. -/
theorem looseRange_of_lt (hfirst : pitch (withOctave scale.root 0) = .ok first) (hlt : first < 12)
    (hflat : scale.isFlat = .ok flat) (hne : scale.steps ≠ []) (hlow : pitch low = .ok lowest)
    (hhigh : pitch high = .ok highest) :
    scale.looseRange low high =
      .error (.noPitch (spell first (scale.chromatic || !flat))) := by
  have hroot : first + height scale.steps (0 : Nat) = first := by
    rw [Int.natCast_zero, height_zero, Int.add_zero]
  rw [looseRange, hlow, hhigh, fullRange_eq hfirst hflat hne, List.range_succ_eq_map, List.map_cons,
    hroot]
  exact Except.filterM_cons_eq_error (by rw [pitch_spell_of_lt hlt]; rfl) _

private theorem looseRange_of_endsLine (hbare : isBare scale.root = true)
    (hline : EndsLine scale.root)
    (hlow : pitch low = .ok lowest) (hhigh : pitch high = .ok highest) :
    scale.looseRange low high = .error (.noPitch (withOctave scale.root 0)) := by
  rw [looseRange, hlow, hhigh, fullRange, range_of_endsLine hbare hline]
  rfl

private theorem looseRange_of_nil (hfirst : pitch (withOctave scale.root 0) = .ok first)
    (hflat : scale.isFlat = .ok flat) (hnil : scale.steps = []) (hlow : pitch low = .ok lowest)
    (hhigh : pitch high = .ok highest) : scale.looseRange low high = .error .divisionByZero := by
  have hsteps : scale.checkSteps = .error .divisionByZero := by
    rw [checkSteps, hnil]
    rfl
  rw [looseRange, hlow, hhigh, fullRange, range, rangeFrom, hfirst, hflat, hsteps]
  rfl

end Range

/-- The full range of every known scale ends at least eight octaves and seven semitones above the root. -/
theorem le_height_lastPlace {kind : ScaleKind} (h : kind ≠ .base) {scale : Scale}
    (hsteps : scale.steps = kind.steps) : 103 ≤ height scale.steps scale.lastPlace := by
  rw [lastPlace, hsteps]
  cases kind with
  | base => exact absurd rfl h
  | major | minor | harmonicMinor | ascendingMelodicMinor | majorBlues | minorBlues | chromatic =>
    decide

/-- Between two notes those notes of a known scale are found that lie in its full range, which starts
at the root in octave zero and goes on for eight octaves and seven steps: in ascending order, each of
them once, and all of them from C1 to G8. What lies below the root or above the end is missed. A Cb and a
root with a line feed behind it lead to no notes, and so do scales without steps. -/
theorem looseRange_in_fullRange {kind : ScaleKind} {root : String} {scale : Scale}
    (hscale : onRoot kind root = .ok scale) {low high : String} {lowest highest : Int}
    (hlow : pitch low = .ok lowest) (hhigh : pitch high = .ok highest) :
    (kind ≠ .base → ¬ EndsLine root → root ≠ "Cb" →
      ∃ (first last : Int) (flat : Bool) (pitches : List Int),
      pitch (withOctave root 0) = .ok first ∧
      last = first + height scale.steps scale.lastPlace ∧ first ≤ 24 ∧ 115 ≤ last ∧
      scale.isFlat = .ok flat ∧
      scale.looseRange low high =
        .ok (pitches.map fun p => spell p (scale.chromatic || !flat)) ∧
      pitches.Pairwise (· < ·) ∧
      ∀ p, p ∈ pitches ↔ (first ≤ p ∧ p ≤ last) ∧
        12 ≤ p ∧ lowest ≤ p ∧ p ≤ highest ∧ scale.contains (ofPitch p) = .ok true) ∧
    (kind ≠ .base → root = "Cb" → scale.looseRange low high = .error (.noPitch "B-1")) ∧
    (kind = .base → ¬ EndsLine root → scale.looseRange low high = .error .divisionByZero) ∧
    (EndsLine root → scale.looseRange low high = .error (.noPitch (withOctave root 0))) := by
  obtain ⟨hbare, rfl, hsteps⟩ := onRoot_eq_ok hscale
  obtain ⟨flat, hflat⟩ := exists_isFlat scale hbare
  have hfirst (hline : ¬ EndsLine scale.root) :
      ∃ first, pitchClass scale.root = .ok (first % octaveSize) ∧
        pitch (withOctave scale.root 0) = .ok first := by
    obtain ⟨first, hr, hpitch⟩ := exists_pitch_withOctave hbare hline
    have hp := hpitch 0
    rw [Int.natCast_zero, Int.zero_mul, Int.add_zero] at hp
    exact ⟨first, hr, hp⟩
  refine ⟨fun hkind hline hne => ?_, fun hkind hroot => ?_, fun hkind hline => ?_, fun hline =>
    looseRange_of_endsLine hbare hline hlow hhigh⟩
  · obtain ⟨first, hr, hp⟩ := hfirst hline
    obtain ⟨hpos, hwidth⟩ := steps_of_kind hkind
    have hlong := le_height_lastPlace hkind hsteps
    rw [← hsteps] at hpos hwidth
    have hsome := ne_nil_of_width_pos (width_pos_of_octave hwidth)
    have hle := le_pitch_withOctave_zero hbare hp hne
    refine ⟨first, _, flat, scale.pitchesBetween first lowest highest, hp, rfl,
      pitch_withOctave_zero_le hbare hp, by omega, hflat,
      looseRange_eq hp hle hflat hsome (nonneg_of_pos hpos) hlow hhigh,
      pairwise_pitchesBetween hsome hpos, fun p => ?_⟩
    rw [mem_pitchesBetween hr hpos hwidth]
    exact and_congr_right fun hrange => (and_iff_right (Int.le_trans hle hrange.1)).symm
  · have hsome := ne_nil_of_width_pos (width_pos_of_octave (steps_of_kind hkind).2)
    rw [← hsteps] at hsome
    have hp : pitch (withOctave scale.root 0) = .ok 11 := by
      rw [hroot]
      decide
    have hname : ∀ sharpen, spell 11 sharpen = "B-1" := by decide
    rw [looseRange_of_lt hp (by decide) hflat hsome hlow hhigh, hname]
  · obtain ⟨first, -, hp⟩ := hfirst hline
    exact looseRange_of_nil hp hflat (by rw [hsteps, hkind]; rfl) hlow hhigh

theorem looseRange_in_fullRange_flats :
    ∃ scale flat pitches, onRoot .minor "G" = .ok scale ∧ pitch "D#4" = .ok 63 ∧
      pitch "B#4" = .ok 72 ∧ scale.looseRange "D#4" "B#4" =
        .ok (List.map (fun p => spell p (scale.chromatic || !flat)) pitches) ∧
      70 ∈ pitches ∧ 71 ∉ pitches := by
  obtain ⟨scale, hscale⟩ : ∃ scale, onRoot .minor "G" = .ok scale := ⟨_, rfl⟩
  have hlow : pitch "D#4" = .ok 63 := by decide
  have hhigh : pitch "B#4" = .ok 72 := by decide
  obtain ⟨first, last, flat, pitches, hfirst, -, hle, hlast, -, hfound, -, hmem⟩ :=
    (looseRange_in_fullRange hscale hlow hhigh).1 (by decide) (by decide) (by decide)
  cases hscale
  refine ⟨_, flat, pitches, rfl, hlow, hhigh, hfound, (hmem 70).mpr ?_, fun h => ?_⟩
  · exact ⟨by omega, by decide, by decide, by decide, by decide⟩
  · exact absurd ((hmem 71).mp h).2.2.2.2 (by decide)

/-- D0 is a note of A major in octave zero, but it lies below the root. -/
theorem not_looseRange_below_root :
    ∃ scale, onRoot .major "A" = .ok scale ∧ pitch "C0" = .ok 12 ∧ pitch "C1" = .ok 24 ∧
      scale.contains (ofPitch 14) = .ok true ∧ ofPitch 14 = "D0" ∧
      scale.looseRange "C0" "C1" = .ok ["A0", "B0"] :=
  ⟨_, rfl, by decide, by decide, by decide, by decide, by decide⟩

end LeadSheet.Scale
