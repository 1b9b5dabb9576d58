import LeadSheet.Proofs.Harmony.Membership
import LeadSheet.Proofs.Pitch.WithoutOctave
import Mathlib.Data.Finset.Card

/-!
The notes that two chords share, octaves aside. They are counted by their names, and as many notes of
the other chord are looked at as the chord has itself. So of the pitch classes in common those count
that both chords give one name, and that are not left out at the end of a larger chord.
-/
namespace LeadSheet.Chord
open NoteName

/-! ### Names in common -/

/-- As many names are counted as the two lists have in common, whatever is repeated in them. -/
theorem countShared_eq_card (mine others : List String) :
    countShared mine others = (mine.toFinset ∩ others.toFinset).card := by
  induction others generalizing mine with
  | nil => simp [countShared]
  | cons name rest ih =>
    rw [countShared, List.toFinset_cons]
    split
    · next hmine =>
      have hname : name ∈ mine.toFinset := by simpa using hmine
      have hrest : (mine.filter (· ≠ name)).toFinset = mine.toFinset.erase name := by
        ext x
        simp [and_comm]
      -- the name itself, and what else the lists have in common
      have hcommon : mine.toFinset ∩ insert name rest.toFinset =
          insert name ((mine.toFinset ∩ rest.toFinset).erase name) := by
        ext x
        by_cases hx : x = name <;> simp [hx, hname]
      rw [ih, hrest, Finset.erase_inter, hcommon,
        Finset.card_insert_of_notMem (Finset.notMem_erase name _), Nat.add_comm]
    · next hmine =>
      have hname : name ∉ mine.toFinset := by simpa using hmine
      rw [ih, Finset.inter_insert_of_notMem hname]

/-! ### Pitch classes -/

/-- The pitch classes of the first notes of a chord. -/
def firstClasses (chord : Chord) (count : Nat) : Finset Int :=
  match pitchClass chord.root with
  | .ok r => (Finset.range count).image fun (j : Nat) =>
      (r + Scale.height chord.steps j) % octaveSize
  | .error _ => ∅

/-- The pitch classes of the notes of a chord. -/
def classes (chord : Chord) : Finset Int := chord.firstClasses chord.steps.length

/-- Two chords give one name to a pitch class: it is that of a white key, or they both have sharps or
both flats. -/
def NamedAlike (a b : Chord) (c : Int) : Prop := IsWhite c ∨ a.toScale.isFlat = b.toScale.isFlat

instance (a b : Chord) (c : Int) : Decidable (NamedAlike a b c) :=
  inferInstanceAs (Decidable (IsWhite c ∨ a.toScale.isFlat = b.toScale.isFlat))

/-- The pitch classes that a chord is found to share with another one. -/
def sharedClasses (a b : Chord) : Finset Int :=
  {c ∈ a.classes ∩ b.firstClasses a.steps.length | NamedAlike a b c}

private theorem namedAlike_comm {a b : Chord} {c : Int} : NamedAlike a b c ↔ NamedAlike b a c := by
  rw [NamedAlike, NamedAlike, eq_comm (a := a.toScale.isFlat)]

private theorem firstClasses_eq {chord : Chord} {r : Int} (hr : pitchClass chord.root = .ok r) (count : Nat) :
    chord.firstClasses count = (Finset.range count).image fun (j : Nat) =>
      (r + Scale.height chord.steps j) % octaveSize := by
  rw [firstClasses, hr]

private theorem bounds_of_mem_firstClasses {chord : Chord} {count : Nat} {c : Int}
    (h : c ∈ chord.firstClasses count) : 0 ≤ c ∧ c < 12 := by
  rw [firstClasses] at h
  split at h
  · obtain ⟨j, -, rfl⟩ := Finset.mem_image.mp h
    simp only [octaveSize]
    omega
  · cases h

private theorem root_of_onRoot {root : String} {shape : ChordShape} {chord : Chord}
    (h : onRoot root shape = .ok chord) : isBare chord.root = true ∧ chord.root = root := by
  obtain ⟨hbare, _, -, -, rfl⟩ := onRoot_eq_ok_iff.mp h
  exact ⟨hbare, rfl⟩

/-- A chord within an octave, on a root that can be given an octave. -/
structure Sounds (chord : Chord) : Prop where
  bare : isBare chord.root = true
  oneLine : ¬ EndsLine chord.root
  steps : ∀ step ∈ chord.steps, 0 ≤ step
  width : Scale.width chord.steps = octaveSize

namespace Sounds
variable {a b chord : Chord}

private theorem of_onRoot {root : String} {intervals : List Int}
    (h : onRoot root (.intervals intervals) = .ok chord) (hline : ¬ EndsLine root)
    (hpos : ∀ interval ∈ intervals, 0 < interval) (hle : Scale.width intervals ≤ octaveSize) :
    chord.Sounds := by
  obtain ⟨hnonneg, -, hwidth⟩ := steps_of_positive h hpos
  obtain ⟨hbare, _, -, -, rfl⟩ := onRoot_eq_ok_iff.mp h
  exact ⟨hbare, hline, hnonneg, hwidth hle⟩

private theorem steps_ne_nil (h : chord.Sounds) : chord.steps ≠ [] :=
  Scale.ne_nil_of_width_pos (Scale.width_pos_of_octave h.width)

/-- Where there are more notes than the chord has, these are the same in another octave. -/
theorem firstClasses_subset (h : chord.Sounds) (count : Nat) :
    chord.firstClasses count ⊆ chord.classes := by
  obtain ⟨r, hr⟩ := exists_pitchClass_of_isBare h.bare
  intro c hc
  rw [firstClasses_eq hr] at hc
  obtain ⟨j, -, rfl⟩ := Finset.mem_image.mp hc
  obtain ⟨k, hk, hheight⟩ := Scale.exists_height_emod h.steps_ne_nil h.steps h.width j
  rw [classes, firstClasses_eq hr]
  refine Finset.mem_image.mpr ⟨k, Finset.mem_range.mpr hk, ?_⟩
  rw [hheight]
  simp only [octaveSize]
  omega

private theorem firstClasses_of_le (h : chord.Sounds) {count : Nat}
    (hle : chord.steps.length ≤ count) :
    chord.firstClasses count = chord.classes := by
  obtain ⟨r, hr⟩ := exists_pitchClass_of_isBare h.bare
  apply (h.firstClasses_subset count).antisymm
  rw [classes, firstClasses_eq hr, firstClasses_eq hr]
  exact Finset.image_subset_image (Finset.range_mono hle)

/-- Without their octaves, the first notes have the names of their pitch classes. -/
theorem names (h : chord.Sounds) {flat : Bool} (hflat : chord.toScale.isFlat = .ok flat)
    (count : Nat) :
    ∃ names, chord.toScale.range 5 count 0 = .ok names ∧ (names.map stripOctave).toFinset =
      (chord.firstClasses count).image fun c => String.ofList (keyName c !flat) := by
  obtain ⟨lowest, hr, hpitch⟩ := exists_pitch_withOctave h.bare h.oneLine
  have hlow := le_of_pitch (hpitch 0)
  have hroot : pitch (withOctave chord.root 5) = .ok (lowest + 5 * octaveSize) := hpitch 5
  have hp (j : Nat) : 12 ≤ lowest + 5 * octaveSize + Scale.height chord.steps j := by
    have hup := (Scale.follows_height h.steps_ne_nil).monotone h.steps (Int.natCast_nonneg j)
    rw [Scale.height_zero] at hup
    simp only [octaveSize] at hlow ⊢
    omega
  have hclass (j : Nat) : (lowest + 5 * octaveSize + Scale.height chord.steps j) % octaveSize =
      (lowest % octaveSize + Scale.height chord.steps j) % octaveSize := by
    simp only [octaveSize]
    omega
  refine ⟨_, range_toScale h.steps_ne_nil hroot hflat count 0, ?_⟩
  ext name
  simp only [firstClasses_eq hr, List.map_map, List.mem_toFinset, List.mem_map, List.mem_range,
    Finset.mem_image, Finset.mem_range, exists_exists_and_eq_and, Function.comp_apply, Int.zero_add,
    stripOctave_spell_eq (hp _), hclass]

/-- The names that two chords have in common are those of the pitch classes that both give one name. -/
theorem card_names_inter {classes classes' : Finset Int} (h : ∀ c ∈ classes, 0 ≤ c ∧ c < 12)
    (h' : ∀ c ∈ classes', 0 ≤ c ∧ c < 12) (sharpen sharpen' : Bool) :
    (classes.image (fun c => String.ofList (keyName c sharpen)) ∩
        classes'.image fun c => String.ofList (keyName c sharpen')).card =
      {c ∈ classes ∩ classes' | IsWhite c ∨ sharpen = sharpen'}.card := by
  have hsame {c c' : Int} {sharpen sharpen' : Bool} (hc : 0 ≤ c ∧ c < 12) (hc' : 0 ≤ c' ∧ c' < 12) :
      String.ofList (keyName c sharpen) = String.ofList (keyName c' sharpen') ↔
        c = c' ∧ (IsWhite c ∨ sharpen = sharpen') := by
    rw [String.ofList_inj, keyName_eq_iff hc hc']
  have himage : classes.image (fun c => String.ofList (keyName c sharpen)) ∩
      classes'.image (fun c => String.ofList (keyName c sharpen')) =
        {c ∈ classes ∩ classes' | IsWhite c ∨ sharpen = sharpen'}.image
          fun c => String.ofList (keyName c sharpen) := by
    ext name
    simp only [Finset.mem_inter, Finset.mem_image, Finset.mem_filter]
    constructor
    · rintro ⟨⟨c, hc, rfl⟩, c', hc', hname⟩
      obtain ⟨rfl, hnamed⟩ := (hsame (h c hc) (h' c' hc')).mp hname.symm
      exact ⟨c, ⟨⟨hc, hc'⟩, hnamed⟩, rfl⟩
    · rintro ⟨c, ⟨⟨hc, hc'⟩, hnamed⟩, rfl⟩
      exact ⟨⟨c, hc, rfl⟩, c, hc', ((hsame (h c hc) (h' c hc')).mpr ⟨rfl, hnamed⟩).symm⟩
  rw [himage, Finset.card_image_of_injOn]
  intro c hc c' hc' hname
  have hin := (Finset.mem_inter.mp (Finset.mem_filter.mp hc).1).1
  have hin' := (Finset.mem_inter.mp (Finset.mem_filter.mp hc').1).1
  exact ((hsame (h c hin) (h c' hin')).mp hname).1

private theorem sharedNotes_eq (ha : a.Sounds) (hb : b.Sounds) :
    a.sharedNotes b = .ok (a.sharedClasses b).card := by
  obtain ⟨flat, hflat⟩ := Scale.exists_isFlat a.toScale ha.bare
  obtain ⟨flat', hflat'⟩ := Scale.exists_isFlat b.toScale hb.bare
  obtain ⟨names, hnames, hmine⟩ := ha.names hflat a.steps.length
  obtain ⟨names', hnames', hothers⟩ := hb.names hflat' a.steps.length
  have halike : ∀ c, NamedAlike a b c ↔ IsWhite c ∨ (!flat) = !flat' := by
    intro c
    rw [NamedAlike, hflat, hflat', Except.ok.injEq, Bool.not_inj_iff]
  rw [sharedNotes]
  refine Except.bind_eq_ok_iff.mpr ⟨names, hnames, Except.bind_eq_ok_iff.mpr
    ⟨names', hnames', Except.pure_eq_ok_iff.mpr ?_⟩⟩
  rw [countShared_eq_card, hmine, hothers, card_names_inter
    (fun c => bounds_of_mem_firstClasses) (fun c => bounds_of_mem_firstClasses), sharedClasses,
    classes, Finset.filter_congr fun c _ => halike c]

/-- All pitch classes in common are found exactly if they have one name each and are not left out. -/
theorem card_sharedClasses_eq_iff (hb : b.Sounds) :
    (a.sharedClasses b).card = (a.classes ∩ b.classes).card ↔
      ∀ c ∈ a.classes ∩ b.classes, NamedAlike a b c ∧ c ∈ b.firstClasses a.steps.length := by
  have hshared : a.sharedClasses b =
      {c ∈ a.classes ∩ b.classes | NamedAlike a b c ∧ c ∈ b.firstClasses a.steps.length} := by
    ext c
    simp only [sharedClasses, Finset.mem_filter, Finset.mem_inter]
    constructor
    · rintro ⟨⟨hc, hfound⟩, hnamed⟩
      exact ⟨⟨hc, hb.firstClasses_subset _ hfound⟩, hnamed, hfound⟩
    · rintro ⟨⟨hc, -⟩, hnamed, hfound⟩
      exact ⟨⟨hc, hfound⟩, hnamed⟩
  rw [hshared, Finset.card_filter_eq_iff]

/-- Chords of one size share the same with each other. -/
theorem sharedClasses_comm (ha : a.Sounds) (hb : b.Sounds) (h : a.steps.length = b.steps.length) :
    b.sharedClasses a = a.sharedClasses b := by
  rw [sharedClasses, sharedClasses, ha.firstClasses_of_le h.le, hb.firstClasses_of_le h.ge,
    Finset.inter_comm, Finset.filter_congr fun c _ => namedAlike_comm]

end Sounds

/-! ### Roots -/

/-- The same chord on a root that may be spelled in another way. -/
structure Respelled (chord other : Chord) : Prop where
  bare : isBare other.root = true
  oneLine : ¬ EndsLine other.root
  root : pitchClass other.root = pitchClass chord.root
  steps : other.steps = chord.steps

namespace Respelled
variable {chord other : Chord}

private theorem sounds (h : Respelled chord other) (hchord : chord.Sounds) : other.Sounds :=
  ⟨h.bare, h.oneLine, h.steps ▸ hchord.steps, h.steps ▸ hchord.width⟩

private theorem firstClasses (h : Respelled chord other) (count : Nat) :
    other.firstClasses count = chord.firstClasses count := by
  rw [Chord.firstClasses, Chord.firstClasses, h.root, h.steps]

private theorem isFlat (h : Respelled chord other) :
    other.toScale.isFlat = chord.toScale.isFlat := by
  have hroot : pitchClass other.toScale.root = pitchClass chord.toScale.root := h.root
  rw [Scale.isFlat, Scale.isFlat, hroot]
  rfl

private theorem sharedClasses {a a' b b' : Chord} (ha : Respelled a a') (hb : Respelled b b') :
    a'.sharedClasses b' = a.sharedClasses b := by
  have halike : ∀ c, NamedAlike a' b' c ↔ NamedAlike a b c := by
    intro c
    rw [NamedAlike, NamedAlike, ha.isFlat, hb.isFlat]
  rw [Chord.sharedClasses, Chord.sharedClasses, classes, classes, ha.firstClasses, hb.firstClasses,
    ha.steps, Finset.filter_congr fun c _ => halike c]

end Respelled

section Common
variable {root root' : String} {intervals intervals' : List Int} {a b : Chord}

/-- A root with a line feed behind it leads to no notes to compare. -/
theorem sharedNotes_of_endsLine (hbare : isBare a.root = true) (hline : EndsLine a.root) (b : Chord) :
    a.sharedNotes b = .error (.noPitch (withOctave a.root 5)) := by
  have hnone : a.toScale.range 5 a.steps.length 0 = .error (.noPitch (withOctave a.root 5)) :=
    @Scale.range_of_endsLine a.toScale hbare hline 5 _ 0
  rw [sharedNotes, hnone]
  rfl

private theorem sharedNotes_of_endsLine_other (ha : a.Sounds) (hbare : isBare b.root = true)
    (hline : EndsLine b.root) : a.sharedNotes b = .error (.noPitch (withOctave b.root 5)) := by
  obtain ⟨flat, hflat⟩ := Scale.exists_isFlat a.toScale ha.bare
  obtain ⟨names, hnames, -⟩ := ha.names hflat a.steps.length
  have hnone : b.toScale.range 5 a.steps.length 0 = .error (.noPitch (withOctave b.root 5)) :=
    @Scale.range_of_endsLine b.toScale hbare hline 5 _ 0
  rw [sharedNotes, hnames, hnone]
  rfl

/-- Of the pitch classes that two chords have in common, those are counted that both give one name,
and that are found among as many notes of the second chord as the first one has. So all of them are
counted if the second chord is not larger and they both have sharps or both flats; chords of one size
may be exchanged, and roots may be spelled in any way, but for a line feed behind one of them, which
leads to no count. -/
theorem sharedNotes_common (ha : onRoot root (.intervals intervals) = .ok a)
    (hb : onRoot root' (.intervals intervals') = .ok b)
    (hpos : ∀ interval ∈ intervals, 0 < interval) (hpos' : ∀ interval ∈ intervals', 0 < interval)
    (hle : Scale.width intervals ≤ octaveSize) (hle' : Scale.width intervals' ≤ octaveSize) :
    (¬ EndsLine root → ¬ EndsLine root' → ∃ count, a.sharedNotes b = .ok count ∧
      count = {c ∈ a.classes ∩ b.firstClasses a.steps.length | NamedAlike a b c}.card ∧
      (count = (a.classes ∩ b.classes).card ↔
        ∀ c ∈ a.classes ∩ b.classes, NamedAlike a b c ∧ c ∈ b.firstClasses a.steps.length) ∧
      (b.steps.length ≤ a.steps.length → (∀ c ∈ a.classes ∩ b.classes, NamedAlike a b c) →
        count = (a.classes ∩ b.classes).card) ∧
      (a.steps.length = b.steps.length → b.sharedNotes a = .ok count) ∧
      ∀ a' b', Respelled a a' → Respelled b b' → a'.sharedNotes b' = .ok count) ∧
    (EndsLine root → a.sharedNotes b = .error (.noPitch (withOctave root 5))) ∧
    (¬ EndsLine root → EndsLine root' →
      a.sharedNotes b = .error (.noPitch (withOctave root' 5))) := by
  obtain ⟨hbare, rfl⟩ := root_of_onRoot ha
  obtain ⟨hbare', rfl⟩ := root_of_onRoot hb
  refine ⟨fun hline hline' => ?_, fun hline => sharedNotes_of_endsLine hbare hline b,
    fun hline hline' => ?_⟩
  · have hsounds := Sounds.of_onRoot ha hline hpos hle
    have hsounds' := Sounds.of_onRoot hb hline' hpos' hle'
    have hall := hsounds'.card_sharedClasses_eq_iff (a := a)
    refine ⟨_, hsounds.sharedNotes_eq hsounds', rfl, hall, ?_, ?_, ?_⟩
    · intro hsize halike
      rw [hall, hsounds'.firstClasses_of_le hsize]
      exact fun c hc => ⟨halike c hc, (Finset.mem_inter.mp hc).2⟩
    · intro hsize
      rw [hsounds'.sharedNotes_eq hsounds, hsounds.sharedClasses_comm hsounds' hsize]
    · intro a' b' hspelled hspelled'
      rw [(hspelled.sounds hsounds).sharedNotes_eq (hspelled'.sounds hsounds'),
        hspelled.sharedClasses hspelled']
  · exact sharedNotes_of_endsLine_other (Sounds.of_onRoot ha hline hpos hle) hbare' hline'

end Common

theorem sharedNotes_common_flats :
    let seventh : Chord := ⟨"Eb", [4, 3, 4, 1]⟩
    let triad : Chord := ⟨"Bb", [4, 3, 5]⟩
    onRoot "Eb" (.intervals [4, 3, 4]) = .ok seventh ∧
      onRoot "Bb" (.intervals [4, 3]) = .ok triad ∧
      (∀ interval ∈ ([4, 3, 4] : List Int), 0 < interval) ∧
      (∀ interval ∈ ([4, 3] : List Int), 0 < interval) ∧ Scale.width [4, 3, 4] ≤ octaveSize ∧
      Scale.width [4, 3] ≤ octaveSize ∧ ¬ EndsLine "Eb" ∧ ¬ EndsLine "Bb" ∧
      seventh.sharedNotes triad = .ok 2 ∧
      (⟨"D#", [4, 3, 4, 1]⟩ : Chord).sharedNotes ⟨"A#", [4, 3, 5]⟩ = .ok 2 := by
  intro seventh triad
  have ha : onRoot "Eb" (.intervals [4, 3, 4]) = .ok seventh := by decide
  have hb : onRoot "Bb" (.intervals [4, 3]) = .ok triad := by decide
  have hpos : ∀ interval ∈ ([4, 3, 4] : List Int), 0 < interval := by decide
  have hpos' : ∀ interval ∈ ([4, 3] : List Int), 0 < interval := by decide
  have hle : Scale.width [4, 3, 4] ≤ octaveSize := by decide
  have hle' : Scale.width [4, 3] ≤ octaveSize := by decide
  have hline : ¬ EndsLine "Eb" := by decide
  have hline' : ¬ EndsLine "Bb" := by decide
  obtain ⟨count, hcount, -, -, hall, -, hspelled⟩ :=
    (sharedNotes_common ha hb hpos hpos' hle hle').1 hline hline'
  obtain rfl : count = 2 := (hall (by decide) (by decide)).trans (by decide)
  exact ⟨ha, hb, hpos, hpos', hle, hle', hline, hline', hcount, hspelled _ _
    ⟨by decide, by decide, by decide, rfl⟩ ⟨by decide, by decide, by decide, rfl⟩⟩

/-- The key between F and G is not shared if one chord has it sharp and the other flat. -/
theorem not_sharedNotes_black_key :
    ∃ a b, onRoot "D" (.intervals [4, 3]) = .ok a ∧ onRoot "Gb" (.intervals [4, 3]) = .ok b ∧
      a.classes ∩ b.classes = {6} ∧ a.sharedNotes b = .ok 0 :=
  ⟨_, _, rfl, rfl, by decide, by decide⟩

end LeadSheet.Chord
