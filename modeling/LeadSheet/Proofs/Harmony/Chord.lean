import LeadSheet.Harmony.Chord
import LeadSheet.Proofs.Harmony.Range

/-!
The notes of chords. A chord of a known shape lies within an octave above its root, which has to be
a pitch with a name that can be read.
-/
namespace LeadSheet.Chord

/-- How far the notes of a chord lie above its root, by its intervals. -/
def heights (intervals : List Int) : List Int :=
  let steps := intervals ++ [-Scale.width intervals % octaveSize]
  (List.range steps.length).map fun (j : Nat) => Scale.height steps j

/-- Every known shape has a third and a fifth, and all its notes lie within an octave. -/
theorem heights_of_mem {shape : String × List Int} (h : shape ∈ chordShapes) :
    shape.2 ≠ [] ∧ (heights shape.2)[0]? = some 0 ∧ 3 ≤ (heights shape.2).length ∧
      ∀ k ∈ heights shape.2, 0 ≤ k ∧ k < octaveSize := by
  have hall : ∀ shape ∈ chordShapes, shape.2 ≠ [] ∧ (heights shape.2)[0]? = some 0 ∧
      3 ≤ (heights shape.2).length ∧ ∀ k ∈ heights shape.2, 0 ≤ k ∧ k < octaveSize := by decide
  exact hall shape h

theorem mem_of_lookup {name : String} {intervals : List Int}
    (h : chordShapes.lookup name = some intervals) : (name, intervals) ∈ chordShapes := by
  obtain ⟨before, after, he, -⟩ := List.lookup_eq_some_iff.mp h
  rw [he]
  exact List.mem_append_right _ (List.mem_cons_self ..)

/-- The pitches of a known shape above a root. -/
theorem mem_heights_above {name : String} {intervals : List Int}
    (hs : chordShapes.lookup name = some intervals) {r p : Int}
    (hp : p ∈ (heights intervals).map (r + ·)) : r ≤ p ∧ p < r + 12 := by
  obtain ⟨k, hk, rfl⟩ := List.mem_map.mp hp
  have h := (heights_of_mem (mem_of_lookup hs)).2.2.2 k hk
  simp only [octaveSize] at h
  omega

theorem heights_above_ne_nil {name : String} {intervals : List Int}
    (hs : chordShapes.lookup name = some intervals) (r : Int) :
    (heights intervals).map (r + ·) ≠ [] := by
  have h := (heights_of_mem (mem_of_lookup hs)).2.2.1
  intro he
  rw [List.map_eq_nil_iff.mp he] at h
  exact absurd h (by decide)

/-! ### Roots -/

/-- A name is split in front of its octave. -/
theorem splitOctave?_append (root : List Char) (hne : root ≠ [])
    (h : ∀ c ∈ root, Text.isDecimalDigit c = false) (octave : Nat) :
    splitOctave? (String.ofList (root ++ (toString octave).toList)) =
      some (String.ofList root, octave) := by
  have hdigit : ∀ c ∈ (toString octave).toList.head?, (!Text.isDecimalDigit c) = false := by
    intro c hc
    rw [Text.isDecimalDigit_of_isAsciiDigit
      (Text.isAsciiDigit_of_mem_toString (List.mem_of_mem_head? hc))]
    rfl
  have hroot : ∀ c ∈ root, (!Text.isDecimalDigit c) = true := by
    intro c hc
    rw [h c hc]
    rfl
  have hsplit := Text.span_append hroot hdigit
  have hspan := NoteName.spanDigits_toString octave
  have hdigits := Text.toList_toString_ne_nil octave
  have hnumber := Text.numberOfDigits_toString octave
  rw [splitOctave?, String.toList_ofList, hsplit]
  generalize (toString octave).toList = digits at hspan hdigits hnumber
  simp [hspan, hne, hdigits, hnumber, NoteName.atEnd]

private theorem splitOctave?_inParts (letter : Letter) (alteration : Alteration) (octave : Nat) :
    splitOctave? (NoteName.inParts letter alteration (some octave)) =
      some (NoteName.inParts letter alteration none, octave) := by
  have hsplit := splitOctave?_append _ (List.cons_ne_nil letter.toChar alteration.sign)
    (fun c hc => NoteName.not_digit_of_mem_parts hc) octave
  rw [NoteName.inParts, NoteName.octaveDigits, ← List.cons_append, hsplit, NoteName.inParts,
    NoteName.octaveDigits, List.append_nil]

/-- A chord is made of a root and of intervals, and closed by the step to the next octave. -/
theorem onRoot_eq_ok_iff {root : String} {shape : ChordShape} {chord : Chord} :
    onRoot root shape = .ok chord ↔ NoteName.isBare root = true ∧
      ∃ intervals, shape.steps = .ok intervals ∧ intervals ≠ [] ∧
        chord = ⟨root, intervals ++ [-Scale.width intervals % octaveSize]⟩ := by
  constructor
  · intro h
    obtain ⟨_, hroot, h⟩ := Except.bind_eq_ok_iff.mp h
    obtain ⟨intervals, hsteps, h⟩ := Except.bind_eq_ok_iff.mp h
    refine ⟨Scale.checkRoot_eq_ok_iff.mp hroot, intervals, hsteps, ?_⟩
    by_cases hne : intervals = []
    · subst hne
      cases h
    · rw [if_neg (by simpa using hne)] at h
      exact ⟨hne, (Except.ok.inj h).symm⟩
  · rintro ⟨hroot, intervals, hsteps, hne, rfl⟩
    rw [onRoot, Scale.checkRoot_eq_ok_iff.mpr hroot, hsteps]
    refine Except.bind_eq_ok_iff.mpr ⟨(), rfl, Except.bind_eq_ok_iff.mpr ⟨intervals, rfl, ?_⟩⟩
    rw [if_neg (by simpa using hne)]
    rfl

theorem steps_ne_nil {root : String} {shape : ChordShape} {chord : Chord}
    (h : onRoot root shape = .ok chord) : chord.steps ≠ [] := by
  obtain ⟨-, intervals, -, -, rfl⟩ := onRoot_eq_ok_iff.mp h
  exact List.append_ne_nil_of_right_ne_nil _ (List.cons_ne_nil _ _)

/-! ### Notes -/

/-- The notes from a root with octave are those of its chord in that octave. -/
theorem notes_inParts {letter : Letter} {alteration : Alteration} {shape : ChordShape} {chord : Chord}
    (h : onRoot (NoteName.inParts letter alteration none) shape = .ok chord) (octave : Nat)
    (inversion : Int) (count : Option Nat) :
    notes (NoteName.inParts letter alteration (some octave)) shape inversion count =
      chord.toScale.range octave (count.getD chord.steps.length) inversion := by
  rw [notes, splitOctave?_inParts]
  dsimp only
  rw [h]
  rfl

theorem range_toScale {chord : Chord} {octave p : Int} {flat : Bool} (hne : chord.steps ≠ [])
    (hp : NoteName.pitch (NoteName.withOctave chord.root octave) = .ok p)
    (hflat : chord.toScale.isFlat = .ok flat) (count : Nat) (offset : Int) :
    chord.toScale.range octave count offset = .ok ((List.range count).map fun (j : Nat) =>
      NoteName.spell (p + Scale.height chord.steps (offset + j)) !flat) :=
  @Scale.range_eq_heights chord.toScale octave p flat hp hflat hne count offset

/-- The notes of a known shape on a spelled root are as high above the root as the shape says. -/
theorem notes_spell {p : Int} (hp : 12 ≤ p) (sharpen : Bool) {name : String} {intervals : List Int}
    (hs : chordShapes.lookup name = some intervals) :
    ∃ sharpen', notes (NoteName.spell p sharpen) (.named name) 0 none =
      .ok (((heights intervals).map (p + ·)).map fun q => NoteName.spell q sharpen') := by
  obtain ⟨letter, alteration, octave, -, hspell⟩ := NoteName.spell_eq_inParts hp sharpen
  have hpitch := NoteName.pitch_spell_of_le hp sharpen
  rw [hspell, ← NoteName.withOctave_inParts] at hpitch
  have hknown : (ChordShape.named name).steps = .ok intervals := by rw [ChordShape.steps, hs]
  obtain ⟨chord, hchord, hroot, hsteps⟩ : ∃ chord : Chord,
      onRoot (NoteName.inParts letter alteration none) (.named name) = .ok chord ∧
        chord.root = NoteName.inParts letter alteration none ∧
        chord.steps = intervals ++ [-Scale.width intervals % octaveSize] :=
    ⟨_, onRoot_eq_ok_iff.mpr ⟨NoteName.isBare_inParts letter alteration, intervals, hknown,
      (heights_of_mem (mem_of_lookup hs)).1, rfl⟩, rfl, rfl⟩
  have hbare : NoteName.isBare chord.root = true := by rw [hroot, NoteName.isBare_inParts]
  obtain ⟨flat, hflat⟩ := Scale.exists_isFlat chord.toScale hbare
  rw [← hroot] at hpitch
  refine ⟨!flat, ?_⟩
  rw [hspell, notes_inParts hchord, Option.getD_none,
    range_toScale (steps_ne_nil hchord) hpitch hflat]
  simp [heights, hsteps, Function.comp_def]

theorem exists_notes_spell {p : Int} (hp : 12 ≤ p) (sharpen : Bool) {name : String}
    {intervals : List Int} (hs : chordShapes.lookup name = some intervals) :
    ∃ names, notes (NoteName.spell p sharpen) (.named name) 0 none = .ok names ∧ 3 ≤ names.length := by
  obtain ⟨sharpen', hnotes⟩ := notes_spell hp sharpen hs
  refine ⟨_, hnotes, ?_⟩
  simpa using (heights_of_mem (mem_of_lookup hs)).2.2.1

/-- A chord cannot be built on a root with a negative octave. -/
theorem le_of_notes_spell {p : Int} {sharpen : Bool} {shape : ChordShape} {inversion : Int}
    {count : Option Nat} {names : List String}
    (h : notes (NoteName.spell p sharpen) shape inversion count = .ok names) : 12 ≤ p := by
  by_contra hlt
  obtain ⟨letter, alteration, octave, -, hspell⟩ :=
    NoteName.spell_eq_minus (Int.not_le.mp hlt) sharpen
  -- the minus sign is taken for a part of the root
  have hroot : ∀ c ∈ letter.toChar :: (alteration.sign ++ ['-']),
      Text.isDecimalDigit c = false := by
    intro c hc
    rw [← List.cons_append] at hc
    rcases List.mem_append.mp hc with hc | hc
    · exact NoteName.not_digit_of_mem_parts hc
    · obtain rfl := List.mem_singleton.mp hc
      decide
  have hbare : NoteName.isBare (String.ofList (letter.toChar :: (alteration.sign ++ ['-']))) =
      false := by
    cases letter <;> cases alteration <;> decide
  rw [notes, hspell, splitOctave?_append _ (List.cons_ne_nil _ _) hroot] at h
  dsimp only at h
  rw [onRoot, Scale.checkRoot, if_neg (by rw [hbare]; decide)] at h
  cases h

/-- What a chord of a named shape on a spelled root tells when there is one: the root can be read, the
shape is known, and the notes are as high above the root as it says. -/
theorem notes_spell_eq_ok {r : Int} {sharpen : Bool} {name : String} {names : List String}
    (h : notes (NoteName.spell r sharpen) (.named name) 0 none = .ok names) :
    12 ≤ r ∧ ∃ intervals sharpen', chordShapes.lookup name = some intervals ∧
      names = ((heights intervals).map (r + ·)).map fun p => NoteName.spell p sharpen' := by
  have hr := le_of_notes_spell h
  refine ⟨hr, ?_⟩
  cases hs : chordShapes.lookup name with
  | none =>
    rw [notes] at h
    split at h
    · cases h
    · obtain ⟨chord, hchord, -⟩ := Except.bind_eq_ok_iff.mp h
      obtain ⟨-, _, hsteps, -⟩ := onRoot_eq_ok_iff.mp hchord
      rw [ChordShape.steps, hs] at hsteps
      cases hsteps
  | some intervals =>
    obtain ⟨sharpen', hnotes⟩ := notes_spell hr sharpen hs
    exact ⟨intervals, sharpen', rfl, Except.ok.inj (h.symm.trans hnotes)⟩

end LeadSheet.Chord
