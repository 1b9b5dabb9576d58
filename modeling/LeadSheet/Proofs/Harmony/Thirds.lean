import LeadSheet.Proofs.Harmony.Degree
import LeadSheet.Proofs.Rows

/-!
Chords of stacked thirds on the degrees of a scale. A third takes two steps of the scale, so the notes
of such a chord lie at every second place of the scale, and the step that closes the chord changes no
pitch class. Where the steps of the scale fill an octave, all notes of the chords belong to the scale,
however many thirds are stacked.
-/
namespace LeadSheet.Scale
open NoteName

/-! ### Intervals of stacked thirds -/

private theorem length_thirds (scale : Scale) (degree : Int) (count : Nat) :
    (scale.thirds degree count).length = count := by simp [thirds]

private theorem thirds_succ (scale : Scale) (degree : Int) (count : Nat) :
    scale.thirds degree (count + 1) = scale.thirds degree count ++
      [stepAt scale.steps (degree - 1 + 2 * count) + stepAt scale.steps (degree + 2 * count)] := by
  simp only [thirds, List.range_succ, List.map_append, List.map_singleton]

/-- Fewer thirds are the first ones. -/
theorem take_thirds (scale : Scale) (degree : Int) {k count : Nat} (h : k ≤ count) :
    (scale.thirds degree count).take k = scale.thirds degree k := by
  simp only [thirds, ← List.map_take, List.take_range, Nat.min_eq_left h]

/-- Stacked thirds lead up by two places each. -/
theorem width_thirds {scale : Scale} (hne : scale.steps ≠ []) (degree : Int) (count : Nat) :
    width (scale.thirds degree count) =
      height scale.steps (degree - 1 + 2 * count) - height scale.steps (degree - 1) := by
  induction count with
  | zero => simp [thirds, width]
  | succ count ih =>
    have hlow := (follows_height hne).add_one (degree - 1 + 2 * count)
    have hhigh := (follows_height hne).add_one (degree + 2 * count)
    have hmiddle : degree - 1 + 2 * (count : Int) + 1 = degree + 2 * count := by omega
    have hplace : degree - 1 + 2 * ((count + 1 : Nat) : Int) = degree + 2 * count + 1 := by omega
    rw [hmiddle] at hlow
    rw [thirds_succ, width_append, ih, hplace, hhigh, hlow]
    simp only [width, List.foldr_cons, List.foldr_nil]
    omega

/-! ### Notes of stacked thirds -/

/-- A chord of stacked thirds on a place of a scale, whose root is of a pitch class. -/
structure Stacked (scale : Scale) (r : Int) (count : Nat) (place : Int) (chord : Chord) : Prop where
  bare : isBare chord.root = true
  oneLine : ¬ EndsLine chord.root
  root : pitchClass chord.root = .ok ((r + height scale.steps place) % octaveSize)
  steps : chord.steps = scale.thirds (place + 1) count ++
    [-width (scale.thirds (place + 1) count) % octaveSize]

namespace Stacked
variable {scale : Scale} {r place : Int} {count : Nat} {chord : Chord}

private theorem length_steps (h : Stacked scale r count place chord) :
    chord.steps.length = count + 1 := by
  rw [h.steps, List.length_append, length_thirds]
  rfl

private theorem steps_ne_nil (h : Stacked scale r count place chord) : chord.steps ≠ [] := by
  apply List.length_pos_iff.mp
  rw [h.length_steps]
  omega

/-- The notes of the chord are as high above its root as notes of the scale, but for whole octaves. -/
theorem exists_height (h : Stacked scale r count place chord) (hne : scale.steps ≠ []) (i : Int) :
    ∃ j : Int, height chord.steps i % octaveSize =
      (height scale.steps j - height scale.steps place) % octaveSize := by
  have hlength := h.length_steps
  obtain ⟨octaves, hclosed⟩ : ∃ octaves, width chord.steps = 12 * octaves := by
    refine ⟨width chord.steps / 12, ?_⟩
    rw [h.steps, Chord.width_closed]
    simp only [octaveSize]
    omega
  obtain ⟨rounds, k, hk, rfl⟩ := exists_round h.steps_ne_nil i
  -- in a round only the steps in front of the closing one count
  have hfront : chord.steps.take k = scale.thirds (place + 1) k := by
    rw [h.steps, List.take_append_of_le_length (by rw [length_thirds]; omega),
      take_thirds scale _ (by omega)]
  refine ⟨place + 2 * k, ?_⟩
  rw [height_round rounds hk, hfront, width_thirds hne, hclosed, Int.mul_left_comm,
    Int.add_sub_cancel]
  simp only [octaveSize]
  omega

/-- All notes of the chord belong to the scale. -/
theorem range_in_scale (h : Stacked scale r count place chord)
    (hr : pitchClass scale.root = .ok (r % octaveSize)) (hnonneg : ∀ step ∈ scale.steps, 0 ≤ step)
    (hwidth : width scale.steps = octaveSize) (octave size : Nat) (offset : Int) :
    ∃ names, chord.toScale.range octave size offset = .ok names ∧ names.length = size ∧
      ∀ name ∈ names, scale.contains name = .ok true := by
  have hup := width_pos_of_octave hwidth
  have hne := ne_nil_of_width_pos hup
  obtain ⟨lowest, hclass, hpitch⟩ := exists_pitch_withOctave h.bare h.oneLine
  obtain ⟨flat, hflat⟩ := exists_isFlat chord.toScale h.bare
  refine ⟨_, Chord.range_toScale h.steps_ne_nil (hpitch octave) hflat size offset, by simp, ?_⟩
  intro name hname
  obtain ⟨j, -, rfl⟩ := List.mem_map.mp hname
  obtain ⟨found, hcontains, hfound⟩ := exists_contains hr (pitchClass_spell _ _) hnonneg hup
  rw [hcontains, hfound.mpr]
  obtain ⟨i, hi⟩ := h.exists_height hne (offset + j)
  obtain ⟨k, -, hk⟩ := exists_height_emod hne hnonneg hwidth i
  have hroot := Except.ok.inj (h.root.symm.trans hclass)
  refine ⟨k, ?_⟩
  simp only [above, octaveSize] at hi hk hroot ⊢
  omega

end Stacked

/-! ### Chords on the degrees -/

section Chords
variable {scale : Scale} {p : Int} {flat : Bool}

/-- A chord of stacked thirds can be made on every degree whose name is a root. -/
theorem exists_stacked (hp : pitch (withOctave scale.root 0) = .ok p) (hle : 12 ≤ p)
    (hflat : scale.isFlat = .ok flat) (hpos : ∀ step ∈ scale.steps, 0 < step)
    (hwidth : width scale.steps = octaveSize) {count : Nat} (hcount : 0 < count) {i : Nat}
    (hi : i < scale.steps.length) :
    ∃ chord, (do
      let root ← scale.degreeName (i + 1)
      Chord.onRoot root (.intervals (scale.thirds (i + 1) count))) = .ok chord ∧
        Stacked scale p count i chord := by
  have hne : scale.steps ≠ [] := List.length_pos_iff.mp (by omega)
  have hlow := (height_bounds hpos hwidth hi).1
  have hplace : ((i : Int) + 1 - 1) % scale.steps.length = i := by
    rw [Int.add_sub_cancel, Int.emod_eq_of_lt (by omega) (by omega)]
  have hdegree := degreeName_eq hp hflat hne (i + 1)
  rw [hplace] at hdegree
  have hclass := pitchClass_stripOctave_spell (p + height scale.steps i) (scale.chromatic || !flat)
  obtain ⟨letter, alteration, hroot, -⟩ := stripOctave_spell_of_le
    (show 12 ≤ p + height scale.steps i by omega) (scale.chromatic || !flat)
  rw [hroot] at hdegree hclass
  have hthirds : scale.thirds (i + 1) count ≠ [] := by
    apply List.length_pos_iff.mp
    rwa [length_thirds]
  refine ⟨_, Except.bind_eq_ok_iff.mpr ⟨_, hdegree, Chord.onRoot_eq_ok_iff.mpr
    ⟨isBare_inParts letter alteration, _, rfl, hthirds, rfl⟩⟩, ?_⟩
  exact ⟨isBare_inParts letter alteration, not_endsLine_inParts letter alteration, hclass, rfl⟩

/-- On every degree there is a chord of stacked thirds. -/
theorem exists_chords (hp : pitch (withOctave scale.root 0) = .ok p) (hle : 12 ≤ p)
    (hflat : scale.isFlat = .ok flat) (hpos : ∀ step ∈ scale.steps, 0 < step)
    (hwidth : width scale.steps = octaveSize) {noteCount : Int} (hcount : 2 ≤ noteCount) :
    ∃ chords, scale.chords noteCount = .ok chords ∧
      List.Forall₂ (fun (i : Nat) chord => Stacked scale p (noteCount - 1).toNat i chord)
        (List.range scale.steps.length) chords := by
  have hstacked {i : Nat} (hi : i ∈ List.range scale.steps.length) :=
    exists_stacked hp hle hflat hpos hwidth (show 0 < (noteCount - 1).toNat by omega)
      (List.mem_range.mp hi)
  obtain ⟨chords, hchords⟩ := Except.exists_mapM_eq_ok fun i hi =>
    let ⟨chord, hchord, _⟩ := hstacked hi
    ⟨chord, hchord⟩
  refine ⟨chords, hchords, ?_⟩
  apply forall₂_imp_of_mem (Except.mapM_eq_ok_iff_forall₂.mp hchords)
  intro i hi chord hchord
  obtain ⟨chord', hchord', hthirds⟩ := hstacked hi
  obtain rfl := Except.ok.inj (hchord.symm.trans hchord')
  exact hthirds

/-- The root of a chord on a place has the degree of the place. -/
theorem Stacked.degree_root {count i : Nat} {chord : Chord} (h : Stacked scale p count i chord)
    (hr : pitchClass scale.root = .ok (p % octaveSize)) (hpos : ∀ step ∈ scale.steps, 0 < step)
    (hwidth : width scale.steps = octaveSize) (hi : i < scale.steps.length) :
    scale.degree chord.root = .ok (i + 1) := by
  apply degree_of_height hr h.root hpos hi
  have hbounds := height_bounds hpos hwidth hi
  simp only [above, octaveSize]
  omega

private theorem chords_of_endsLine (hbare : isBare scale.root = true) (hline : EndsLine scale.root)
    (hne : scale.steps ≠ []) (noteCount : Int) :
    scale.chords noteCount = .error (.noPitch (withOctave scale.root 0)) := by
  obtain ⟨n, hn⟩ := Nat.exists_eq_add_one_of_ne_zero (List.length_pos_iff.mpr hne).ne'
  rw [chords, hn, List.range_succ_eq_map, List.mapM_cons, degreeName_of_endsLine hbare hline hne]
  rfl

end Chords

/-- The steps of every kind of scale lead upwards and fill an octave. -/
theorem steps_of_kind {kind : ScaleKind} (h : kind ≠ .base) :
    (∀ step ∈ kind.steps, 0 < step) ∧ width kind.steps = octaveSize := by
  cases kind with
  | base => exact absurd rfl h
  | major | minor | harmonicMinor | ascendingMelodicMinor | majorBlues | minorBlues | chromatic =>
    decide

theorem onRoot_eq_ok {kind : ScaleKind} {root : String} {scale : Scale}
    (h : onRoot kind root = .ok scale) :
    isBare root = true ∧ scale.root = root ∧ scale.steps = kind.steps := by
  obtain ⟨_, hroot, h⟩ := Except.bind_eq_ok_iff.mp h
  obtain rfl := Except.pure_eq_ok_iff.mp h
  exact ⟨checkRoot_eq_ok_iff.mp hroot, rfl, rfl⟩

/-- The known scales have one chord of stacked thirds on each degree, with as many notes as are asked
for, and all notes of these chords belong to the scale, in every octave and from every offset on. Only
a root with a line feed behind it leads to no chords. -/
theorem chords_in_scale {kind : ScaleKind} (hkind : kind ≠ .base) {root : String} {scale : Scale}
    (hscale : onRoot kind root = .ok scale) (hne : root ≠ "Cb") {noteCount : Int}
    (hcount : 2 ≤ noteCount) :
    (¬ EndsLine root → ∃ chords, scale.chords noteCount = .ok chords ∧
      chords.length = scale.steps.length ∧
      ∀ (i : Nat) chord, chords[i]? = some chord →
        scale.degree chord.root = .ok (i + 1) ∧ (chord.steps.length : Int) = noteCount ∧
          ∀ (octave count : Nat) (offset : Int), ∃ names,
            chord.toScale.range octave count offset = .ok names ∧ names.length = count ∧
              ∀ name ∈ names, scale.contains name = .ok true) ∧
      (EndsLine root → scale.chords noteCount = .error (.noPitch (withOctave root 0))) := by
  obtain ⟨hbare, rfl, hsteps⟩ := onRoot_eq_ok hscale
  obtain ⟨hpos, hwidth⟩ := steps_of_kind hkind
  rw [← hsteps] at hpos hwidth
  have hup := width_pos_of_octave hwidth
  refine ⟨fun hline => ?_, fun hline =>
    chords_of_endsLine hbare hline (ne_nil_of_width_pos hup) noteCount⟩
  obtain ⟨lowest, hr, hpitch⟩ := exists_pitch_withOctave hbare hline
  have hp := hpitch 0
  rw [Int.natCast_zero, Int.zero_mul, Int.add_zero] at hp
  obtain ⟨flat, hflat⟩ := exists_isFlat scale hbare
  obtain ⟨chords, hchords, hall⟩ := exists_chords hp (le_pitch_withOctave_zero hbare hp hne) hflat
    hpos hwidth hcount
  have hlength := hall.length_eq
  rw [List.length_range] at hlength
  refine ⟨chords, hchords, hlength.symm, fun i chord hi => ?_⟩
  have hlt : i < scale.steps.length := by
    rw [hlength]
    exact (List.getElem?_eq_some_iff.mp hi).1
  have hstacked : Stacked scale lowest (noteCount - 1).toNat i chord := by
    have hbeside := forall₂_getElem? hall i
    rw [List.getElem?_range hlt, hi] at hbeside
    cases hbeside with
    | some h => exact h
  refine ⟨hstacked.degree_root hr hpos hwidth hlt, ?_, hstacked.range_in_scale hr
    (nonneg_of_pos hpos) hwidth⟩
  rw [hstacked.length_steps]
  omega

theorem chords_in_scale_blues :
    ∃ scale chords, onRoot .minorBlues "Db" = .ok scale ∧ ¬ EndsLine "Db" ∧
      scale.chords 9 = .ok chords ∧ chords.length = 6 ∧ ∃ chord, chords[1]? = some chord ∧
        ∃ names, chord.toScale.range 2 20 5 = .ok names ∧ names.length = 20 ∧
          ∀ name ∈ names, scale.contains name = .ok true := by
  obtain ⟨scale, hscale⟩ : ∃ scale, onRoot .minorBlues "Db" = .ok scale := ⟨_, rfl⟩
  have hline : ¬ EndsLine "Db" := by decide
  obtain ⟨chords, hchords, hlength, hall⟩ :=
    (chords_in_scale (by decide) hscale (by decide) (show 2 ≤ (9 : Int) by decide)).1 hline
  obtain ⟨-, -, hsteps⟩ := onRoot_eq_ok hscale
  have hsix : chords.length = 6 := by
    rw [hlength, hsteps]
    rfl
  have hone : chords[1]? = some chords[1] := List.getElem?_eq_getElem (by omega)
  exact ⟨scale, chords, hscale, hline, hchords, hsix, _, hone, (hall 1 _ hone).2.2 2 20 5⟩

/-- No chord is made where the root has a line feed behind it. -/
theorem not_chords_line_feed :
    ∃ scale, onRoot .major "C\n" = .ok scale ∧ "C\n" ≠ "Cb" ∧
      scale.chords 3 = .error (.noPitch "C\n0") :=
  ⟨_, rfl, by decide, rfl⟩

end LeadSheet.Scale
