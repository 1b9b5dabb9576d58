import LeadSheet.Proofs.Accompaniment.Placement

/-!
The highest chords below a ceiling. A chord is moved down octave by octave until it lies below the
ceiling. On the highest root there is below it that takes one octave at most, and no chord of that
shape in that pitch class lies higher.
-/
namespace LeadSheet

/-! ### Shapes above a root -/

/-- The pitches of a shape from its root upwards. -/
def Chord.pitchesFrom (root : Int) (intervals : List Int) : List Int :=
  intervals.scanl (· + ·) root

namespace Chord

private theorem foldl_add (root : Int) (intervals : List Int) :
    intervals.foldl (· + ·) root = root + Scale.width intervals := by
  induction intervals generalizing root with
  | nil => simp [Scale.width]
  | cons interval intervals ih =>
    rw [List.foldl_cons, ih, Scale.width, Scale.width, List.foldr_cons, Int.add_assoc]

/-- The heights of a chord lead up by its intervals; the step to the octave is not among them. -/
theorem heights_above_eq (root : Int) (intervals : List Int) :
    (heights intervals).map (root + ·) = pitchesFrom root intervals := by
  refine List.ext_getElem ?_ fun i hi hi' => ?_
  · simp [heights, pitchesFrom]
  · have hlength : i ≤ intervals.length := by
      simpa [pitchesFrom, Nat.lt_succ_iff] using hi'
    have hheight : Scale.height (intervals ++ [-Scale.width intervals % octaveSize]) i =
        Scale.width (intervals.take i) := by
      have hne : intervals ++ [-Scale.width intervals % octaveSize] ≠ [] :=
        List.append_ne_nil_of_right_ne_nil _ (List.cons_ne_nil _ _)
      rw [Scale.height_of_le hne (by simp; omega), List.take_append_of_le_length hlength]
    simp only [pitchesFrom, List.getElem_scanl, foldl_add, heights, List.getElem_map,
      List.getElem_range, hheight]

private theorem pitchesFrom_sub (root fall : Int) (intervals : List Int) :
    (pitchesFrom root intervals).map (· - fall) = pitchesFrom (root - fall) intervals := by
  rw [← heights_above_eq, ← heights_above_eq, List.map_map]
  refine List.map_congr_left fun height _ => ?_
  simp only [Function.comp]
  omega

private theorem root_mem_pitchesFrom (root : Int) (intervals : List Int) :
    root ∈ pitchesFrom root intervals := by
  cases intervals with
  | nil => exact List.mem_singleton.mpr rfl
  | cons interval intervals =>
    rw [pitchesFrom, List.scanl_cons]
    exact List.mem_cons_self

end Chord

namespace Accompaniment
open NoteName

/-! ### Moving down octave by octave -/

/-- Notes are moved down an octave, a number of times, as long as one of them reaches the ceiling. -/
inductive Lowers (ceiling : Int) : List String → Nat → List String → Prop
  | stop {notes : List String} {highest : Int} (hhighest : highestPitch notes = .ok highest)
      (hlt : highest < ceiling) : Lowers ceiling notes 0 notes
  | shift {notes moved last : List String} {highest : Int} {n : Nat}
      (hhighest : highestPitch notes = .ok highest) (hle : ceiling ≤ highest)
      (hmoved : notes.mapM (fun note => transpose note (-octaveSize)) = .ok moved)
      (hlast : Lowers ceiling moved n last) : Lowers ceiling notes (n + 1) last

private theorem highestPitch_eq_ok_iff {notes : List String} {highest : Int} :
    highestPitch notes = .ok highest ↔ ∃ pitches, notes.mapM pitch = .ok pitches ∧
      highest ∈ pitches ∧ ∀ p ∈ pitches, p ≤ highest := by
  rw [highestPitch, Except.bind_eq_ok_iff]
  refine exists_congr fun pitches => and_congr_right fun _ => ?_
  cases pitches with
  | nil => exact ⟨fun h => (by cases h), fun h => (List.not_mem_nil h.1).elim⟩
  | cons p rest =>
    have hmax : (p :: rest).max? = some (rest.foldl max p) := List.max?_cons'
    rw [← List.max?_eq_some_iff, hmax, Except.pure_eq_ok_iff, Option.some_inj]

/-- Notes that have pitches an octave lower as well lie an octave lower there. -/
theorem highestPitch_transpose {notes moved : List String} {highest lower : Int}
    (hhighest : highestPitch notes = .ok highest)
    (hmoved : notes.mapM (fun note => transpose note (-octaveSize)) = .ok moved)
    (hlower : highestPitch moved = .ok lower) : lower = highest - octaveSize := by
  obtain ⟨pitches, hpitches, hmem, hle⟩ := highestPitch_eq_ok_iff.mp hhighest
  have hspelled : moved = (pitches.map (· - octaveSize)).map fun p => spell p true := by
    have htranspose (note : String) :
        transpose note (-octaveSize) = (pitch note).map fun p => spell (p - octaveSize) true :=
      transpose_eq_map note (-octaveSize)
    rw [Except.mapM_eq_map_mapM htranspose, hpitches] at hmoved
    rw [← Except.ok.inj hmoved, List.map_map]
    rfl
  rw [hspelled] at hlower
  have hread := mapM_pitch_spell (le_of_highestPitch_spell hlower) true
  obtain ⟨_, hlowered, hmem', hle'⟩ := highestPitch_eq_ok_iff.mp hlower
  obtain rfl := Except.ok.inj (hread.symm.trans hlowered)
  obtain ⟨p, hp, rfl⟩ := List.mem_map.mp hmem'
  have hp := hle p hp
  have hhighest := hle' _ (List.mem_map_of_mem hmem)
  omega

/-- The number of octaves can be told from the highest note beforehand. -/
theorem lowers_iff {ceiling : Int} {notes last : List String} {n : Nat} :
    Lowers ceiling notes n last ↔ ∃ highest, highestPitch notes = .ok highest ∧
      octavesAbove highest ceiling = n ∧ lowered notes n = .ok last := by
  constructor
  · intro h
    induction h with
    | @stop notes highest hhighest hlt =>
      refine ⟨highest, hhighest, ?_, rfl⟩
      simp only [octavesAbove, octaveSize]
      omega
    | @shift notes moved last highest n hhighest hle hmoved _ ih =>
      obtain ⟨lower, hlower, hcount, hlast⟩ := ih
      obtain rfl := highestPitch_transpose hhighest hmoved hlower
      refine ⟨highest, hhighest, ?_, Except.bind_eq_ok_iff.mpr ⟨moved, hmoved,
        Except.bind_eq_ok_iff.mpr ⟨_, hlower, hlast⟩⟩⟩
      simp only [octavesAbove, octaveSize] at hcount ⊢
      omega
  · rintro ⟨highest, hhighest, hcount, hlast⟩
    induction n generalizing notes highest with
    | zero =>
      obtain rfl := Except.ok.inj hlast
      refine .stop hhighest ?_
      simp only [octavesAbove, octaveSize] at hcount
      omega
    | succ n ih =>
      obtain ⟨moved, hmoved, hlast⟩ := Except.bind_eq_ok_iff.mp hlast
      obtain ⟨lower, hlower, hlast⟩ := Except.bind_eq_ok_iff.mp hlast
      obtain rfl := highestPitch_transpose hhighest hmoved hlower
      refine .shift hhighest ?_ hmoved (ih _ hlower ?_ hlast)
      · simp only [octavesAbove, octaveSize] at hcount
        omega
      · simp only [octavesAbove, octaveSize] at hcount ⊢
        omega

/-! ### Chords below a ceiling -/

/-- A chord is lowered from the highest root below the ceiling. -/
theorem chordBelow_eq_ok_iff {root : String} {shape : ChordShape} {top : Int} {names : List String} :
    chordBelow root shape (.whole top) = .ok names ↔ ∃ rootName notes n,
      rootBelow root (.whole top) = .ok rootName ∧ Chord.notes rootName shape 0 none = .ok notes ∧
      Lowers top notes n names := by
  constructor
  · intro h
    obtain ⟨rootName, hroot, h⟩ := Except.bind_eq_ok_iff.mp h
    obtain ⟨notes, hnotes, h⟩ := Except.bind_eq_ok_iff.mp h
    obtain ⟨highest, hhighest, h⟩ := Except.bind_eq_ok_iff.mp h
    exact ⟨rootName, notes, _, hroot, hnotes, lowers_iff.mpr ⟨highest, hhighest, rfl, h⟩⟩
  · rintro ⟨rootName, notes, _, hroot, hnotes, hlowers⟩
    obtain ⟨highest, hhighest, rfl, h⟩ := lowers_iff.mp hlowers
    exact Except.bind_eq_ok_iff.mpr ⟨rootName, hroot, Except.bind_eq_ok_iff.mpr ⟨notes, hnotes,
      Except.bind_eq_ok_iff.mpr ⟨highest, hhighest, h⟩⟩⟩

section
variable {root name : String} {r highest : Int} {intervals : List Int} {names : List String}

/-- The pitches of a chord that is placed below a ceiling. -/
theorem PlacedBelow.pitches_eq {top : Number}
    (h : PlacedBelow root name top r intervals highest names) :
    names.mapM pitch =
      .ok (Chord.pitchesFrom (r - 12 * (octavesAbove highest top.exact.ceil : Int)) intervals) := by
  obtain ⟨sharpen, rfl⟩ := h.spelled
  rw [mapM_pitch_spell, Chord.heights_above_eq, Chord.pitchesFrom_sub]
  intro q hq
  obtain ⟨p, hp, rfl⟩ := List.mem_map.mp hq
  have := h.readable p hp
  omega

/-- The root of a chord that is placed below a ceiling is of the pitch class that was asked for. -/
theorem PlacedBelow.root_emod {top : Number} {lowest : Int} (htop : top.Exact)
    (h : PlacedBelow root name top r intervals highest names)
    (hroot : pitch (withOctave root 0) = .ok lowest) : r % octaveSize = lowest % octaveSize := by
  have hr := eq_of_spell_eq (Except.ok.inj (h.root_eq.symm.trans (rootBelow_eq hroot htop)))
  rw [hr, octaveSize, Int.mul_add_emod_self_right]

/-- An octave higher, a chord that is placed below a ceiling would reach it. -/
theorem PlacedBelow.reaches {top : Int}
    (h : PlacedBelow root name (.whole top) r intervals highest names) :
    ∃ q ∈ Chord.pitchesFrom (r - 12 * (octavesAbove highest top : Int)) intervals,
      top ≤ q + octaveSize := by
  have hceil : (Number.whole top).exact.ceil = top := Rat.ceil_intCast top
  have hone := h.octaves_spec.1
  rw [hceil] at hone
  rcases Nat.le_one_iff_eq_zero_or_eq_one.mp hone with hzero | hone
  · rw [hzero]
    refine ⟨_, Chord.root_mem_pitchesFrom _ intervals, ?_⟩
    have hnear : (top : Rat) < ((r + 13 : Int) : Rat) := by
      rw [Int.cast_add]
      exact h.near.2
    have hlt := Int.cast_lt.mp hnear
    simp only [octaveSize]
    omega
  · rw [hone, ← Chord.pitchesFrom_sub, ← Chord.heights_above_eq]
    refine ⟨_, List.mem_map_of_mem h.mem, ?_⟩
    simp only [octavesAbove, octaveSize] at hone ⊢
    omega

end

/-- A chord that would reach the ceiling an octave higher is the highest one of its pitch class. -/
theorem le_of_reaches {intervals : List Int} {p p' top q : Int}
    (hq : q ∈ Chord.pitchesFrom p intervals) (hreach : top ≤ q + octaveSize)
    (hclass : p' % octaveSize = p % octaveSize)
    (hbelow : ∀ q ∈ Chord.pitchesFrom p' intervals, q < top) : p' ≤ p := by
  have hmoved : q - (p - p') ∈ Chord.pitchesFrom p' intervals := by
    have hmem := List.mem_map_of_mem (f := (· - (p - p'))) hq
    rwa [Chord.pitchesFrom_sub, Int.sub_sub_self] at hmem
  have hlt := hbelow _ hmoved
  simp only [octaveSize] at hreach hclass
  omega

/-- On every root and for every known shape, the highest chord of that shape in the pitch class of the
root is made that lies below the ceiling, from the C of octave two upwards. It is lowered by one octave
at most. -/
theorem chordBelow_highest (letter : Letter) (alteration : Alteration) {shape : String}
    {intervals : List Int} (hs : chordShapes.lookup shape = some intervals) {top : Int}
    (h : 36 ≤ top) :
    ∃ p names, chordBelow (inParts letter alteration none) (.named shape) (.whole top) = .ok names ∧
      names.mapM pitch = .ok (Chord.pitchesFrom p intervals) ∧
      pitchClass (inParts letter alteration none) = .ok (p % octaveSize) ∧
      (∀ q ∈ Chord.pitchesFrom p intervals, q < top) ∧
      (∃ q ∈ Chord.pitchesFrom p intervals, top ≤ q + octaveSize) ∧
      (∀ p', p' % octaveSize = p % octaveSize →
        (∀ q ∈ Chord.pitchesFrom p' intervals, q < top) → p' ≤ p) ∧
      ∃ rootName notes shifts, rootBelow (inParts letter alteration none) (.whole top) = .ok rootName ∧
        Chord.notes rootName (.named shape) 0 none = .ok notes ∧ Lowers top notes shifts names ∧
        shifts ≤ 1 := by
  have hzero := pitch_withOctave_zero_inParts letter alteration
  have htop : (35 : Rat) ≤ (Number.whole top).exact :=
    Int.cast_le (m := 35).mpr (Int.le_trans (by decide) h)
  obtain ⟨names, hnames, -⟩ := exists_chordBelow hzero hs (.whole top) htop
  obtain ⟨r, intervals', highest, hplaced⟩ := exists_placedBelow (.whole top) hnames
  obtain rfl := Option.some.inj (hs.symm.trans hplaced.shape_eq)
  have hceil : (Number.whole top).exact.ceil = top := Rat.ceil_intCast top
  have hpitches := hplaced.pitches_eq
  have hspec := hplaced.octaves_spec
  rw [hceil] at hpitches hspec
  obtain ⟨q, hq, hreach⟩ := hplaced.reaches
  refine ⟨_, names, hnames, hpitches, ?_, ?_, ⟨q, hq, hreach⟩,
    fun p' hclass hbelow => le_of_reaches hq hreach hclass hbelow, ?_⟩
  · have hclass := hplaced.root_emod (.whole top) hzero
    rw [pitchClass_of_head? (head?_inParts_none letter alteration)]
    congr 1
    simp only [pitchIn, octaveSize] at hclass ⊢
    omega
  · intro q hq
    rw [← Chord.pitchesFrom_sub, ← Chord.heights_above_eq] at hq
    obtain ⟨p, hp, rfl⟩ := List.mem_map.mp hq
    exact Int.cast_lt.mp (hspec.2 p hp).2
  · obtain ⟨notes, hnotes, hhighest, hlast⟩ := hplaced.first
    rw [hceil] at hlast
    exact ⟨_, notes, _, hplaced.root_eq, hnotes, lowers_iff.mpr ⟨highest, hhighest, rfl, hlast⟩,
      hspec.1⟩

/-- The highest root of a C flat chord is the B below middle C. On that the chord would reach middle C,
so that it is made an octave lower. -/
theorem chordBelow_highest_flat :
    chordShapes.lookup "M7" = some [4, 3, 4] ∧
      chordBelow "Cb" (.named "M7") (.whole 60) = .ok ["B2", "D#3", "F#3", "A#3"] ∧
      ∃ p, ["B2", "D#3", "F#3", "A#3"].mapM pitch = .ok (Chord.pitchesFrom p [4, 3, 4]) ∧
        pitchClass "Cb" = .ok (p % octaveSize) ∧
        (∀ q ∈ Chord.pitchesFrom p [4, 3, 4], q < 60) ∧
        ∃ q ∈ Chord.pitchesFrom p [4, 3, 4], 60 ≤ q + octaveSize := by
  have hs : chordShapes.lookup "M7" = some [4, 3, 4] := by decide
  have hroot : inParts .C .flat none = "Cb" := by decide
  have hfound : chordBelow "Cb" (.named "M7") (.whole 60) = .ok ["B2", "D#3", "F#3", "A#3"] := by
    decide +kernel
  obtain ⟨p, names, hnames, hpitches, hclass, hbelow, hreach, -⟩ :=
    chordBelow_highest .C .flat hs (show 36 ≤ 60 by decide)
  rw [hroot] at hnames hclass
  obtain rfl := Except.ok.inj (hfound.symm.trans hnames)
  exact ⟨hs, hfound, p, hpitches, hclass, hbelow, hreach⟩

end Accompaniment
end LeadSheet
