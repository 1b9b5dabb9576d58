import LeadSheet.Proofs.Harmony.Chord

/-!
Notes that belong to a scale or a chord. The steps are gone up from the root; a note is found exactly
if some place lies as high above the root as the note does within one octave. Where the steps fill an
octave these are all notes of the scale, and the degree of a note tells its place.
-/
namespace LeadSheet.Scale
open NoteName

/-- How far a pitch class lies above that of a root, within one octave. -/
def above (r c : Int) : Int := (c - r) % octaveSize

theorem above_bounds (r c : Int) : 0 ≤ above r c ∧ above r c < 12 := by
  simp only [above, octaveSize]
  omega

section Search
variable {scale : Scale} {note : String} {r c : Int}

theorem reach_eq (hr : pitchClass scale.root = .ok r) (hc : pitchClass note = .ok c) :
    scale.reach note = .ok (r, r + above r c) := by
  obtain ⟨hr0, hr12⟩ := pitchClass_bounds hr
  obtain ⟨hc0, hc12⟩ := pitchClass_bounds hc
  have htarget : (if c < r then c + octaveSize else c) = r + above r c := by
    simp only [above, octaveSize]
    split <;> omega
  rw [reach, hr, hc, ← htarget]
  rfl

private theorem contains_eq_meets (hr : pitchClass scale.root = .ok r)
    (hc : pitchClass note = .ok c)
    (hne : scale.steps ≠ []) :
    scale.contains note =
      .ok (meets scale.steps (r + above r c) (12 * scale.steps.length + 1) 0 r) := by
  rw [contains, reach_eq hr hc]
  change (if r = r + above r c then _ else _) = _
  split
  · next hroot =>
    rw [← hroot, meets, if_neg (Int.lt_irrefl r), if_pos rfl]
    rfl
  · rw [checkSteps, if_neg (by simpa using hne)]
    rfl

/-- Twelve rounds of steps that lead upwards are an octave at least. -/
theorem le_height_of_lt (hnonneg : ∀ step ∈ scale.steps, 0 ≤ step) (hpos : 0 < width scale.steps)
    {i : Nat} (hi : 12 * scale.steps.length < i) : 12 ≤ height scale.steps i := by
  have hne := ne_nil_of_width_pos hpos
  have hround := height_round 12 (List.length_pos_iff.mpr hne)
  have hle := (follows_height hne).monotone hnonneg
    (show (12 : Int) * scale.steps.length + (0 : Nat) ≤ i by omega)
  rw [hround, List.take_zero, show width [] = 0 from rfl] at hle
  omega

/-- A note is found exactly if the steps land as high above the root as it lies within an octave. -/
theorem exists_contains (hr : pitchClass scale.root = .ok r) (hc : pitchClass note = .ok c)
    (hnonneg : ∀ step ∈ scale.steps, 0 ≤ step) (hpos : 0 < width scale.steps) :
    ∃ found, scale.contains note = .ok found ∧
      (found = true ↔ ∃ i : Nat, height scale.steps i = above r c) := by
  have hne := ne_nil_of_width_pos hpos
  have hP := (follows_height hne).raise r
  have hmeets := hP.meets_iff hnonneg (r + above r c) (12 * scale.steps.length + 1) 0
  rw [height_zero, Int.add_zero] at hmeets
  refine ⟨_, contains_eq_meets hr hc hne, hmeets.trans ?_⟩
  simp only [Int.zero_add, Int.add_right_inj]
  constructor
  · rintro ⟨i, -, hi⟩
    exact ⟨i, hi⟩
  · rintro ⟨i, hi⟩
    refine ⟨i, ?_, hi⟩
    -- no place that the search does not get to lies within the octave
    by_contra hlong
    have hhigh := le_height_of_lt hnonneg hpos (show 12 * scale.steps.length < i by omega)
    have hlow := (above_bounds r c).2
    omega

/-- A note of the scale is found exactly if the steps land on its pitch class in the octave above the
root. -/
theorem exists_contains_range (hbare : isBare scale.root = true)
    (hnonneg : ∀ step ∈ scale.steps, 0 ≤ step) (hpos : 0 < width scale.steps) {octave : Int}
    {count : Nat} {offset : Int} {names : List String}
    (h : scale.range octave count offset = .ok names) {j : Nat} (hj : names[j]? = some note) :
    ∃ found, scale.contains note = .ok found ∧ (found = true ↔
      ∃ i : Nat, height scale.steps i = height scale.steps (offset + j) % octaveSize) := by
  obtain ⟨p, flat, hr, rfl⟩ := range_eq_ok hbare (ne_nil_of_width_pos hpos) h
  rw [List.getElem?_map] at hj
  obtain ⟨j', hj', rfl⟩ := Option.map_eq_some_iff.mp hj
  obtain ⟨hlt, rfl⟩ := List.getElem?_eq_some_iff.mp hj'
  rw [List.getElem_range]
  have habove : above (p % octaveSize) ((p + height scale.steps (offset + j)) % octaveSize) =
      height scale.steps (offset + j) % octaveSize := by
    simp only [above, octaveSize]
    omega
  rw [← habove]
  exact exists_contains hr (pitchClass_spell _ _) hnonneg hpos

end Search
end LeadSheet.Scale

namespace LeadSheet.Chord
open NoteName

/-- The last step closes the chord at an octave of the root. -/
theorem width_closed (intervals : List Int) :
    Scale.width (intervals ++ [-Scale.width intervals % octaveSize]) =
      Scale.width intervals + -Scale.width intervals % octaveSize := by
  rw [Scale.width_append]
  simp [Scale.width]

section Positive
variable {root : String} {intervals : List Int} {chord : Chord}

/-- A chord of intervals upwards goes up to an octave of its root. -/
theorem steps_of_positive (h : onRoot root (.intervals intervals) = .ok chord)
    (hpos : ∀ interval ∈ intervals, 0 < interval) :
    (∀ step ∈ chord.steps, 0 ≤ step) ∧ 0 < Scale.width chord.steps ∧
      (Scale.width intervals ≤ octaveSize → Scale.width chord.steps = octaveSize) := by
  obtain ⟨-, _, hsteps, hne, rfl⟩ := onRoot_eq_ok_iff.mp h
  obtain rfl := Except.ok.inj hsteps
  have hwidth := Scale.width_pos hne hpos
  refine ⟨?_, ?_, ?_⟩
  · intro step hstep
    rcases List.mem_append.mp hstep with hstep | hstep
    · exact Int.le_of_lt (hpos step hstep)
    · obtain rfl := List.mem_singleton.mp hstep
      simp only [octaveSize]
      omega
  · dsimp only
    rw [width_closed]
    simp only [octaveSize]
    omega
  · intro hle
    dsimp only
    rw [width_closed]
    simp only [octaveSize] at hle ⊢
    omega

/-- A note of a chord is found in it exactly if the chord has a note of its pitch class in the octave
above the root; so all of them are found where the intervals stay within an octave. -/
theorem contains_range (h : onRoot root (.intervals intervals) = .ok chord)
    (hpos : ∀ interval ∈ intervals, 0 < interval) {octave : Int} {count : Nat}
    {names : List String} (hnames : chord.toScale.range octave count 0 = .ok names) :
    (∀ (j : Nat) name, names[j]? = some name → ∃ found,
      chord.toScale.contains name = .ok found ∧ (found = true ↔
        ∃ i : Nat, Scale.height chord.steps i = Scale.height chord.steps j % octaveSize)) ∧
      (Scale.width intervals ≤ octaveSize →
        ∀ name ∈ names, chord.toScale.contains name = .ok true) := by
  obtain ⟨hnonneg, hwidth, hoctave⟩ := steps_of_positive h hpos
  have hbare : isBare chord.toScale.root = true := by
    obtain ⟨hbare, _, -, -, rfl⟩ := onRoot_eq_ok_iff.mp h
    exact hbare
  have hfound {j : Nat} {name : String} (hj : names[j]? = some name) :=
    Scale.exists_contains_range hbare hnonneg hwidth hnames hj
  simp only [Int.zero_add] at hfound
  refine ⟨fun j name hj => hfound hj, fun hle name hname => ?_⟩
  obtain ⟨j, hj⟩ := List.mem_iff_getElem?.mp hname
  obtain ⟨found, hcontains, hiff⟩ := hfound hj
  obtain ⟨k, -, hk⟩ := Scale.exists_height_emod (steps_ne_nil h) hnonneg (hoctave hle) j
  rw [hcontains, hiff.mpr ⟨k, hk⟩]

end Positive

theorem contains_range_augmented :
    let augmented : Chord := ⟨"C", [4, 4, 4, 0]⟩
    onRoot "C" (.intervals [4, 4, 4]) = .ok augmented ∧
      (∀ interval ∈ ([4, 4, 4] : List Int), 0 < interval) ∧
      augmented.toScale.range 4 4 0 = .ok ["C4", "E4", "G#4", "C5"] ∧
      augmented.toScale.contains "G#4" = .ok true := by
  intro augmented
  have hchord : onRoot "C" (.intervals [4, 4, 4]) = .ok augmented := by decide
  have hpos : ∀ interval ∈ ([4, 4, 4] : List Int), 0 < interval := by decide
  have hnames : augmented.toScale.range 4 4 0 = .ok ["C4", "E4", "G#4", "C5"] := by decide
  exact ⟨hchord, hpos, hnames, (contains_range hchord hpos hnames).2 (by decide) "G#4" (by decide)⟩

/-- The ninth of a chord of stacked thirds is passed on the way up to the octave. -/
theorem not_contains_ninth :
    ∃ scale chords chord, Scale.onRoot .major "C" = .ok scale ∧ scale.chords 5 = .ok chords ∧
      chords[0]? = some chord ∧ onRoot "C" (.intervals [4, 3, 4, 3]) = .ok chord ∧
      chord.toScale.range 4 5 0 = .ok ["C4", "E4", "G4", "B4", "D5"] ∧
      chord.toScale.contains "D5" = .ok false :=
  ⟨_, _, _, rfl, rfl, rfl, rfl, by decide, by decide⟩

end LeadSheet.Chord
