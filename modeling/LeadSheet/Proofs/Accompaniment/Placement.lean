import LeadSheet.Accompaniment.Placement
import LeadSheet.Proofs.Harmony.Chord
import Mathlib.Algebra.Order.Floor.Ring
import Mathlib.Data.Rat.Floor
import Mathlib.Tactic.Linarith
import Mathlib.Tactic.Ring

/-!
Where chord notes lie. The root is within an octave below the ceiling, and a chord that would reach
the ceiling is taken an octave lower: what is played lies within two octaves below the ceiling.
-/
namespace LeadSheet

/-- A whole number or a ratio. -/
inductive Number.Exact : Number → Prop
  | whole (n : Int) : Exact (.whole n)
  | ratio (q : Rat) : Exact (.ratio q)

theorem Number.exact_sub {a b c : Number} (ha : a.Exact) (hb : b.Exact) (h : a.sub b = .ok c) :
    c.Exact ∧ c.exact = a.exact - b.exact := by
  cases ha <;> cases hb <;> cases h
  · exact ⟨.whole _, Int.cast_sub _ _⟩
  all_goals exact ⟨.ratio _, rfl⟩

theorem Number.lt_whole_iff {a : Number} (ha : a.Exact) (n : Int) :
    Number.lt (.whole n) a = true ↔ (n : Rat) < a.exact := by
  cases ha <;> simp [Number.lt, Number.place, Number.exact]

namespace Accompaniment
open NoteName

/-- A name of a pitch that is less than a ceiling, by two octaves at most. -/
def Below (top : Rat) (name : String) : Prop :=
  ∃ p sharpen, name = spell p sharpen ∧ top - 24 ≤ p ∧ (p : Rat) < top

/-! ### Roots -/

theorem rootBelow_eq {root : String} {lowest : Int} {top : Number}
    (hroot : pitch (withOctave root 0) = .ok lowest) (htop : top.Exact) :
    rootBelow root top =
      .ok (spell (⌊(top.exact - 1 - lowest) / 12⌋ * 12 + lowest) true) := by
  rw [rootBelow, hroot]
  cases htop with
  | whole n =>
    have hcast : ((n - 1 - lowest : Int) : Rat) = n - 1 - lowest := by push_cast; rfl
    change Except.ok (spell (⌊((n - 1 - lowest : Int) : Rat) / (octaveSize : Rat)⌋ * octaveSize +
      lowest) true) = _
    rw [hcast]
    rfl
  | ratio q => rfl

/-- The root is the highest note of its pitch class below the ceiling. -/
theorem rootBelow_spec {root : String} {lowest : Int} {top : Number}
    (hroot : pitch (withOctave root 0) = .ok lowest) (htop : top.Exact) :
    ∃ r : Int, rootBelow root top = .ok (spell r true) ∧ (r : Rat) + 1 ≤ top.exact ∧
      top.exact < r + 13 := by
  refine ⟨_, rootBelow_eq hroot htop, ?_, ?_⟩
  · have h := Int.floor_le ((top.exact - 1 - lowest) / 12)
    push_cast
    linarith
  · have h := Int.lt_floor_add_one ((top.exact - 1 - lowest) / 12)
    push_cast
    linarith

theorem rootBelow_eq_ok {root name : String} {top : Number} (htop : top.Exact)
    (h : rootBelow root top = .ok name) :
    ∃ r : Int, name = spell r true ∧ (r : Rat) + 1 ≤ top.exact ∧ top.exact < r + 13 := by
  obtain ⟨lowest, hroot, -⟩ := Except.bind_eq_ok_iff.mp h
  obtain ⟨r, hr, hbounds⟩ := rootBelow_spec hroot htop
  exact ⟨r, Except.ok.inj (h.symm.trans hr), hbounds⟩

/-- Below a ceiling from the C of octave two upwards, the root can be taken an octave lower and still
be read. -/
theorem rootBelow_high {root : String} {lowest : Int} {top : Number}
    (hroot : pitch (withOctave root 0) = .ok lowest) (htop : top.Exact) (h : 36 ≤ top.exact) :
    ∃ r : Int, rootBelow root top = .ok (spell r true) ∧ 24 ≤ r ∧ (r : Rat) + 1 ≤ top.exact ∧
      top.exact < r + 13 := by
  obtain ⟨r, hr, hlow, hhigh⟩ := rootBelow_spec hroot htop
  have hlt : ((23 : Int) : Rat) < r := by
    push_cast
    linarith
  have := Int.cast_lt.mp hlt
  exact ⟨r, hr, by omega, hlow, hhigh⟩

/-! ### Pitches of names -/

/-- Spelled pitches, from the C of octave zero upwards, are read back. -/
theorem mapM_pitch_spell {ps : List Int} (h : ∀ p ∈ ps, 12 ≤ p) (sharpen : Bool) :
    (ps.map fun p => spell p sharpen).mapM pitch = .ok ps := by
  induction ps with
  | nil => rfl
  | cons p ps ih =>
    obtain ⟨hp, h⟩ := List.forall_mem_cons.mp h
    rw [List.map_cons, List.mapM_cons, pitch_spell_of_le hp, ih h]
    rfl

private theorem highestPitch_spell {ps : List Int} (hne : ps ≠ []) (h : ∀ p ∈ ps, 12 ≤ p)
    (sharpen : Bool) :
    ∃ highest ∈ ps, highestPitch (ps.map fun p => spell p sharpen) = .ok highest ∧
      ∀ p ∈ ps, p ≤ highest := by
  obtain ⟨p, rest, rfl⟩ := List.exists_cons_of_ne_nil hne
  have hmax : (p :: rest).max? = some (rest.foldl max p) := List.max?_cons'
  obtain ⟨hmem, hle⟩ := List.max?_eq_some_iff.mp hmax
  refine ⟨_, hmem, ?_, hle⟩
  rw [highestPitch, mapM_pitch_spell h]
  rfl

/-- The highest pitch of spelled names is told only when all of them can be read. -/
theorem le_of_highestPitch_spell {ps : List Int} {sharpen : Bool} {highest : Int}
    (h : highestPitch (ps.map fun p => spell p sharpen) = .ok highest) : ∀ p ∈ ps, 12 ≤ p := by
  obtain ⟨read, hread, -⟩ := Except.bind_eq_ok_iff.mp h
  clear h
  induction ps generalizing read with
  | nil => exact fun _ hp => (List.not_mem_nil hp).elim
  | cons p ps ih =>
    rw [List.map_cons, List.mapM_cons] at hread
    obtain ⟨q, hq, hread⟩ := Except.bind_eq_ok_iff.mp hread
    obtain ⟨rest, hrest, -⟩ := Except.bind_eq_ok_iff.mp hread
    refine List.forall_mem_cons.mpr ⟨?_, ih rest hrest⟩
    exact (pitch_spell_eq_ok_iff.mp hq).1

/-! ### Chords moved by octaves -/

theorem transpose_spell {p : Int} (hp : 12 ≤ p) (sharpen : Bool) (semitones : Int) :
    transpose (spell p sharpen) semitones = .ok (spell (p + semitones) true) :=
  transpose_of_pitch (pitch_spell_of_le hp sharpen) semitones

private theorem mapM_transpose_spell {ps : List Int} (h : ∀ p ∈ ps, 12 ≤ p) (sharpen : Bool) :
    (ps.map fun p => spell p sharpen).mapM (fun name => transpose name (-octaveSize)) =
      .ok ((ps.map fun p => p - 12).map fun p => spell p true) := by
  induction ps with
  | nil => rfl
  | cons p ps ih =>
    obtain ⟨hp, h⟩ := List.forall_mem_cons.mp h
    rw [List.map_cons, List.mapM_cons, transpose_spell hp, ih h]
    rfl

/-- Spelled notes are moved down octave by octave as long as all of them can be read. -/
theorem lowered_spell {ps : List Int} (hne : ps ≠ []) {n : Nat} (h : ∀ p ∈ ps, 12 + 12 * n ≤ p)
    (sharpen : Bool) :
    ∃ sharpen', lowered (ps.map fun p => spell p sharpen) n =
      .ok ((ps.map fun p => p - 12 * (n : Int)).map fun p => spell p sharpen') := by
  induction n generalizing ps sharpen with
  | zero => exact ⟨sharpen, by simp [lowered]⟩
  | succ n ih =>
    have hread : ∀ p ∈ ps, 12 ≤ p := fun p hp => by have := h p hp; omega
    have hlow : ∀ p ∈ ps.map fun p => p - 12, 12 + 12 * (n : Int) ≤ p := by
      intro p hp
      obtain ⟨q, hq, rfl⟩ := List.mem_map.mp hp
      have := h q hq
      omega
    have hne' : (ps.map fun p => p - 12) ≠ [] := List.map_eq_nil_iff.not.mpr hne
    obtain ⟨highest, -, hhighest, -⟩ :=
      highestPitch_spell hne' (fun p hp => by have := hlow p hp; omega) true
    obtain ⟨sharpen', hl⟩ := ih hne' hlow true
    refine ⟨sharpen', ?_⟩
    rw [lowered, mapM_transpose_spell hread]
    refine Except.bind_eq_ok_iff.mpr ⟨_, rfl, Except.bind_eq_ok_iff.mpr ⟨_, hhighest, ?_⟩⟩
    have hmoved : (ps.map fun p => p - 12).map (fun p => p - 12 * (n : Int)) =
        ps.map fun p => p - 12 * ((n + 1 : Nat) : Int) := by
      rw [List.map_map]
      refine List.map_congr_left fun p _ => ?_
      simp only [Function.comp]
      omega
    rw [hl, hmoved]

private theorem le_of_lowered_spell {ps : List Int} (h : ∀ p ∈ ps, 12 ≤ p) {sharpen : Bool}
    {n : Nat}
    {names : List String} (hl : lowered (ps.map fun p => spell p sharpen) n = .ok names) :
    ∀ p ∈ ps, 12 + 12 * n ≤ p := by
  induction n generalizing ps sharpen with
  | zero => simpa using h
  | succ n ih =>
    rw [lowered, mapM_transpose_spell h] at hl
    obtain ⟨_, hmoved, hl⟩ := Except.bind_eq_ok_iff.mp hl
    obtain rfl := Except.ok.inj hmoved
    obtain ⟨_, hhighest, hl⟩ := Except.bind_eq_ok_iff.mp hl
    intro p hp
    have := ih (le_of_highestPitch_spell hhighest) hl (p - 12) (List.mem_map_of_mem hp)
    omega

/-! ### Chords -/

private theorem ceil_eq_ok {top : Number} (htop : top.Exact) : top.ceil = .ok top.exact.ceil := by
  cases htop <;> rfl

/-- A chord on the root below a ceiling is moved down by one octave if it reaches the ceiling, and
else not at all. Then it lies below the ceiling, within two octaves. -/
theorem octavesAbove_spec {ps : List Int} {r highest : Int} {top : Rat} (hlow : (r : Rat) + 1 ≤ top)
    (hhigh : top < r + 13) (hps : ∀ p ∈ ps, r ≤ p ∧ p < r + 12) (hmem : highest ∈ ps)
    (hle : ∀ p ∈ ps, p ≤ highest) :
    octavesAbove highest top.ceil ≤ 1 ∧ ∀ p ∈ ps,
      top - 24 ≤ ((p - 12 * octavesAbove highest top.ceil : Int) : Rat) ∧
        ((p - 12 * octavesAbove highest top.ceil : Int) : Rat) < top := by
  obtain ⟨hr, hr'⟩ := hps highest hmem
  have hceil : r + 1 ≤ top.ceil := by
    have h : ((r + 1 : Int) : Rat) ≤ top.ceil := by
      push_cast
      exact hlow.trans Rat.le_ceil
    exact Int.cast_le.mp h
  have hcases : highest < top.ceil ∧ octavesAbove highest top.ceil = 0 ∨
      top.ceil ≤ highest ∧ octavesAbove highest top.ceil = 1 := by
    rw [octavesAbove, octaveSize]
    omega
  rcases hcases with ⟨hlt, hk⟩ | ⟨hge, hk⟩
  · rw [hk]
    refine ⟨by omega, fun p hp => ?_⟩
    have hr : (r : Rat) ≤ p := Int.cast_le.mpr (hps p hp).1
    have hp : (p : Rat) < top := Rat.lt_ceil_iff.mp ((hle p hp).trans_lt hlt)
    push_cast
    constructor <;> linarith
  · rw [hk]
    refine ⟨le_rfl, fun p hp => ?_⟩
    have hr : (r : Rat) ≤ p := Int.cast_le.mpr (hps p hp).1
    have hp : (p : Rat) < ((r + 12 : Int) : Rat) := Int.cast_lt.mpr (hps p hp).2
    have htop : top < ((r + 12 : Int) : Rat) :=
      (Rat.ceil_le_iff.mp hge).trans_lt (Int.cast_lt.mpr hr')
    push_cast at hp htop ⊢
    constructor <;> linarith

/-- How a chord is placed below a ceiling: its shape on the highest root there is, spelled, and moved
down by as many octaves as its highest note needs. -/
structure PlacedBelow (root name : String) (top : Number) (r : Int) (intervals : List Int)
    (highest : Int) (names : List String) : Prop where
  root_eq : rootBelow root top = .ok (spell r true)
  near : (r : Rat) + 1 ≤ top.exact ∧ top.exact < r + 13
  shape_eq : chordShapes.lookup name = some intervals
  mem : highest ∈ (Chord.heights intervals).map (r + ·)
  le : ∀ p ∈ (Chord.heights intervals).map (r + ·), p ≤ highest
  first : ∃ notes, Chord.notes (spell r true) (.named name) 0 none = .ok notes ∧
    highestPitch notes = .ok highest ∧ lowered notes (octavesAbove highest top.exact.ceil) = .ok names
  spelled : ∃ sharpen, names = (((Chord.heights intervals).map (r + ·)).map fun p =>
    p - 12 * (octavesAbove highest top.exact.ceil : Int)).map fun p => spell p sharpen
  readable : ∀ p ∈ (Chord.heights intervals).map (r + ·),
    12 + 12 * (octavesAbove highest top.exact.ceil : Int) ≤ p

theorem exists_placedBelow {root name : String} {top : Number} {names : List String} (htop : top.Exact)
    (h : chordBelow root (.named name) top = .ok names) :
    ∃ r intervals highest, PlacedBelow root name top r intervals highest names := by
  obtain ⟨rootName, hroot, h⟩ := Except.bind_eq_ok_iff.mp h
  obtain ⟨r, rfl, hnear⟩ := rootBelow_eq_ok htop hroot
  obtain ⟨notes, hnotes, h⟩ := Except.bind_eq_ok_iff.mp h
  obtain ⟨hr, intervals, sharpen, hs, rfl⟩ := Chord.notes_spell_eq_ok hnotes
  have hread : ∀ p ∈ (Chord.heights intervals).map (r + ·), 12 ≤ p := fun p hp =>
    hr.trans (Chord.mem_heights_above hs hp).1
  obtain ⟨highest, hmem, hhighest, hle⟩ :=
    highestPitch_spell (Chord.heights_above_ne_nil hs r) hread sharpen
  rw [hhighest, ceil_eq_ok htop] at h
  have hl : lowered _ (octavesAbove highest top.exact.ceil) = .ok names := h
  have hlow := le_of_lowered_spell hread hl
  obtain ⟨sharpen', hspelled⟩ := lowered_spell (Chord.heights_above_ne_nil hs r) hlow sharpen
  exact ⟨r, intervals, highest, hroot, hnear, hs, hmem, hle, ⟨_, hnotes, hhighest, hl⟩,
    ⟨sharpen', Except.ok.inj (hl.symm.trans hspelled)⟩, hlow⟩

theorem PlacedBelow.octaves_spec {root name : String} {top : Number} {r highest : Int}
    {intervals : List Int} {names : List String}
    (h : PlacedBelow root name top r intervals highest names) :
    octavesAbove highest top.exact.ceil ≤ 1 ∧ ∀ p ∈ (Chord.heights intervals).map (r + ·),
      top.exact - 24 ≤ ((p - 12 * octavesAbove highest top.exact.ceil : Int) : Rat) ∧
        ((p - 12 * octavesAbove highest top.exact.ceil : Int) : Rat) < top.exact :=
  octavesAbove_spec h.near.1 h.near.2 (fun _ hq => Chord.mem_heights_above h.shape_eq hq) h.mem h.le

/-- The notes of a chord that is made below a ceiling are spelled pitches within two octaves below
it. There are at least three of them. -/
theorem chordBelow_eq_ok {root name : String} {top : Number} {names : List String} (htop : top.Exact)
    (h : chordBelow root (.named name) top = .ok names) :
    3 ≤ names.length ∧ ∀ note ∈ names, Below top.exact note := by
  obtain ⟨r, intervals, highest, hplaced⟩ := exists_placedBelow htop h
  obtain ⟨sharpen, rfl⟩ := hplaced.spelled
  refine ⟨?_, ?_⟩
  · simpa using (Chord.heights_of_mem (Chord.mem_of_lookup hplaced.shape_eq)).2.2.1
  · intro note hnote
    obtain ⟨_, hmoved, rfl⟩ := List.mem_map.mp hnote
    obtain ⟨p, hp, rfl⟩ := List.mem_map.mp hmoved
    exact ⟨_, sharpen, rfl, hplaced.octaves_spec.2 p hp⟩

/-- Below a ceiling from the B of octave one upwards a chord can always be made, and its notes can be
read. -/
theorem exists_chordBelow {root name : String} {lowest : Int} {intervals : List Int} {top : Number}
    (hroot : pitch (withOctave root 0) = .ok lowest) (hs : chordShapes.lookup name = some intervals)
    (htop : top.Exact) (h : 35 ≤ top.exact) :
    ∃ names, chordBelow root (.named name) top = .ok names ∧
      ∀ note ∈ names, ∃ p, pitch note = .ok p := by
  obtain ⟨r, hr, hlow, hhigh⟩ := rootBelow_spec hroot htop
  have hr23 : 22 < r := by
    have hlt : ((22 : Int) : Rat) < r := by
      push_cast
      linarith
    exact Int.cast_lt.mp hlt
  have hceil : 35 ≤ top.exact.ceil := by
    have hle : ((35 : Int) : Rat) ≤ top.exact.ceil := by
      push_cast
      exact h.trans Rat.le_ceil
    exact Int.cast_le.mp hle
  obtain ⟨sharpen, hnotes⟩ := Chord.notes_spell (p := r) (by omega) true hs
  obtain ⟨highest, hmem, hhighest, hle⟩ := highestPitch_spell (Chord.heights_above_ne_nil hs r)
    (fun p hp => by have := Chord.mem_heights_above hs hp; omega) sharpen
  have hone := (octavesAbove_spec hlow hhigh (fun q hq => Chord.mem_heights_above hs hq) hmem hle).1
  -- a chord that is moved reaches the ceiling, so that its root is not the lowest there can be
  have hread : ∀ p ∈ (Chord.heights intervals).map (r + ·),
      12 + 12 * (octavesAbove highest top.exact.ceil : Int) ≤ p := by
    intro p hp
    have hp := Chord.mem_heights_above hs hp
    have hhighest := Chord.mem_heights_above hs hmem
    simp only [octavesAbove, octaveSize] at hone ⊢
    omega
  obtain ⟨sharpen', hspelled⟩ := lowered_spell (Chord.heights_above_ne_nil hs r) hread sharpen
  refine ⟨_, Except.bind_eq_ok_iff.mpr ⟨_, hr, Except.bind_eq_ok_iff.mpr ⟨_, hnotes,
    Except.bind_eq_ok_iff.mpr ⟨_, hhighest, Except.bind_eq_ok_iff.mpr ⟨_, ceil_eq_ok htop,
      hspelled⟩⟩⟩⟩, ?_⟩
  intro note hnote
  obtain ⟨q, hq, rfl⟩ := List.mem_map.mp hnote
  obtain ⟨p, hp, rfl⟩ := List.mem_map.mp hq
  exact ⟨_, pitch_spell_of_le (by have := hread p hp; omega) sharpen'⟩

end Accompaniment
end LeadSheet
