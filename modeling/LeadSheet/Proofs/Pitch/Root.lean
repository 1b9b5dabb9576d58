import LeadSheet.Proofs.Pitch.Closest

/-!
Roots: names without octave, and the pitch classes of names. A root may have a line feed behind it;
then its pitch class can be read, but no octave can be put behind it. A spelled pitch without its
octave is a root of its pitch class, from the C of octave zero upwards.
-/
namespace LeadSheet.NoteName

/-- A name with a line feed behind it. -/
def EndsLine (name : String) : Prop := name.toList.getLast? = some '\n'

instance (name : String) : Decidable (EndsLine name) :=
  inferInstanceAs (Decidable (name.toList.getLast? = some '\n'))

/-! ### Roots in parts -/

/-- A bare name is a letter with at most one sign, and perhaps a line feed. -/
theorem parts_of_isBare {name : String} (h : isBare name = true) :
    ∃ letter alteration, name = inParts letter alteration none ∨
      name.toList = letter.toChar :: (alteration.sign ++ ['\n']) := by
  rw [isBare] at h
  split at h
  · next letter alteration rest hhead =>
    have hname := eq_of_head? hhead
    rw [atEnd, Bool.or_eq_true, decide_eq_true_eq, decide_eq_true_eq] at h
    refine ⟨letter, alteration, ?_⟩
    rcases h with rfl | rfl
    · exact .inl (String.toList_inj.mp (hname.trans String.toList_ofList.symm))
    · exact .inr hname
  · cases h

theorem not_digit_of_mem_parts {letter : Letter} {alteration : Alteration} {c : Char}
    (h : c ∈ letter.toChar :: alteration.sign) : Text.isDecimalDigit c = false := by
  have hnone : (letter.toChar :: alteration.sign).any Text.isDecimalDigit = false := by
    cases letter <;> cases alteration <;> decide
  exact Bool.eq_false_iff.mpr (List.any_eq_false.mp hnone c h)

theorem not_digit_of_mem_inParts {letter : Letter} {alteration : Alteration} {c : Char}
    (h : c ∈ (inParts letter alteration none).toList) : Text.isDecimalDigit c = false := by
  rw [inParts, String.toList_ofList, octaveDigits, List.append_nil] at h
  exact not_digit_of_mem_parts h

theorem not_endsLine_inParts (letter : Letter) (alteration : Alteration) :
    ¬ EndsLine (inParts letter alteration none) := by
  cases letter <;> cases alteration <;> decide

private theorem endsLine_of_parts {name : String} {letter : Letter} {alteration : Alteration}
    (h : name.toList = letter.toChar :: (alteration.sign ++ ['\n'])) : EndsLine name := by
  rw [EndsLine, h, ← List.cons_append, List.getLast?_append]
  rfl

private theorem inParts_of_isBare {name : String} (h : isBare name = true)
    (hline : ¬ EndsLine name) :
    ∃ letter alteration, name = inParts letter alteration none := by
  obtain ⟨letter, alteration, hname | hname⟩ := parts_of_isBare h
  · exact ⟨letter, alteration, hname⟩
  · exact absurd (endsLine_of_parts hname) hline

/-- A line feed in front of the octave makes a name unreadable. -/
theorem pitch_withOctave_of_newline {name : String} {letter : Letter} {alteration : Alteration}
    (h : name.toList = letter.toChar :: (alteration.sign ++ ['\n'])) (octave : Int) :
    pitch (withOctave name octave) = .error (.noPitch (withOctave name octave)) := by
  have hchars : (withOctave name octave).toList =
      letter.toChar :: (alteration.sign ++ '\n' :: (toString octave).toList) := by
    rw [withOctave, String.toList_append, h, List.cons_append, List.append_assoc]
    rfl
  have hhead : head? (withOctave name octave).toList =
      some (letter, alteration, '\n' :: (toString octave).toList) := by
    rw [hchars]
    refine head?_of_parts letter alteration fun c hc => ?_
    cases hc
    decide
  have hnone : pitch? (withOctave name octave) = none := by
    rw [pitch?, hhead]
    rfl
  rw [pitch, hnone]

theorem pitch_withOctave_of_endsLine {name : String} (h : isBare name = true)
    (hline : EndsLine name) (octave : Int) :
    pitch (withOctave name octave) = .error (.noPitch (withOctave name octave)) := by
  obtain ⟨letter, alteration, rfl | hname⟩ := parts_of_isBare h
  · exact absurd hline (not_endsLine_inParts letter alteration)
  · exact pitch_withOctave_of_newline hname octave

/-! ### Pitch classes -/

/-- The pitch class is read off the letter and its sign, whatever follows them. -/
theorem pitchClass_of_head? {name : String} {letter : Letter} {alteration : Alteration}
    {rest : List Char} (h : head? name.toList = some (letter, alteration, rest)) :
    pitchClass name = .ok (offsetOf letter alteration % octaveSize) := by
  rw [pitchClass, head, h]
  rfl

theorem pitchClass_bounds {name : String} {c : Int} (h : pitchClass name = .ok c) :
    0 ≤ c ∧ c < 12 := by
  obtain ⟨⟨letter, alteration, rest⟩, -, h⟩ := Except.bind_eq_ok_iff.mp h
  obtain rfl := Except.pure_eq_ok_iff.mp h
  simp only [octaveSize]
  omega

theorem exists_pitchClass_of_isBare {name : String} (h : isBare name = true) :
    ∃ c, pitchClass name = .ok c := by
  rw [isBare] at h
  split at h
  · next letter alteration rest hhead => exact ⟨_, pitchClass_of_head? hhead⟩
  · cases h

/-- An octave does not change the pitch class of a root. -/
theorem pitchClass_withOctave {root : String} (h : isBare root = true) (octave : Int) :
    pitchClass (withOctave root octave) = pitchClass root := by
  obtain ⟨letter, alteration, rfl | hroot⟩ := parts_of_isBare h
  · have hhead : head? (withOctave (inParts letter alteration none) octave).toList =
        some (letter, alteration, (toString octave).toList) := by
      rw [withOctave, String.toList_append, inParts, String.toList_ofList, octaveDigits,
        List.append_nil, List.cons_append]
      exact head?_of_octave letter alteration octave
    rw [pitchClass_of_head? hhead, pitchClass_of_head? (head?_inParts_none letter alteration)]
  · have hnewline (rest : List Char) : ∀ c ∈ ('\n' :: rest).head?, c ≠ '#' ∧ c ≠ 'b' := by
      intro c hc
      cases hc
      decide
    have hhead : head? (withOctave root octave).toList =
        some (letter, alteration, '\n' :: (toString octave).toList) := by
      rw [withOctave, String.toList_append, hroot, List.cons_append, List.append_assoc]
      exact head?_of_parts letter alteration (hnewline _)
    have hhead' : head? root.toList = some (letter, alteration, ['\n']) := by
      rw [hroot]
      exact head?_of_parts letter alteration (hnewline _)
    rw [pitchClass_of_head? hhead, pitchClass_of_head? hhead']

theorem pitchClass_of_pitch {name : String} {p : Int} (h : pitch name = .ok p) :
    pitchClass name = .ok (p % octaveSize) := by
  obtain ⟨⟨letter, alteration, rest⟩, hhead, hp⟩ :=
    Option.bind_eq_some_iff.mp (pitch_eq_ok_iff.mp h)
  obtain ⟨-, -, hp⟩ := Option.bind_eq_some_iff.mp hp
  cases hp
  rw [pitchClass_of_head? hhead, Int.add_mul_emod_self_right]

/-- No name is that of a pitch below the Cb of octave zero. -/
theorem le_of_pitch {name : String} {p : Int} (h : pitch name = .ok p) : 11 ≤ p := by
  obtain ⟨⟨letter, alteration, rest⟩, -, hp⟩ :=
    Option.bind_eq_some_iff.mp (pitch_eq_ok_iff.mp h)
  obtain ⟨-, -, hp⟩ := Option.bind_eq_some_iff.mp hp
  cases hp
  have hoffset : -1 ≤ offsetOf letter alteration := by
    cases letter <;> cases alteration <;> decide
  simp only [octaveSize]
  omega

/-- The pitches of a root in its octaves are of its pitch class, twelve semitones from one octave to
the next. -/
theorem exists_pitch_withOctave {root : String} (h : isBare root = true)
    (hline : ¬ EndsLine root) :
    ∃ lowest, pitchClass root = .ok (lowest % octaveSize) ∧
      ∀ octave : Nat, pitch (withOctave root octave) = .ok (lowest + octave * octaveSize) := by
  obtain ⟨letter, alteration, rfl⟩ := inParts_of_isBare h hline
  refine ⟨pitchIn letter alteration 0, ?_, fun octave => ?_⟩
  · rw [pitchClass_of_head? (head?_inParts_none letter alteration), pitchIn,
      Int.add_mul_emod_self_right]
  · rw [withOctave_inParts, pitch_inParts]
    congr 1
    simp only [pitchIn, octaveSize]
    omega

theorem pitch_withOctave_zero_inParts (letter : Letter) (alteration : Alteration) :
    pitch (withOctave (inParts letter alteration none) 0) = .ok (pitchIn letter alteration 0) := by
  have hname := withOctave_inParts letter alteration 0
  rw [Int.natCast_zero] at hname
  rw [hname, pitch_inParts]

/-- What has a pitch with octave zero behind it is a letter with at most one sign. -/
theorem parts_of_withOctave_zero {root : String} {p : Int} (h : isBare root = true)
    (hp : pitch (withOctave root 0) = .ok p) :
    ∃ letter alteration, root = inParts letter alteration none ∧ p = pitchIn letter alteration 0 := by
  have hline : ¬ EndsLine root := by
    intro hline
    rw [pitch_withOctave_of_endsLine h hline] at hp
    cases hp
  obtain ⟨letter, alteration, rfl⟩ := inParts_of_isBare h hline
  rw [pitch_withOctave_zero_inParts] at hp
  exact ⟨letter, alteration, rfl, (Except.ok.inj hp).symm⟩

/-- In octave zero only one root lies below the C of that octave. -/
theorem le_pitch_withOctave_zero {root : String} {p : Int} (h : isBare root = true)
    (hp : pitch (withOctave root 0) = .ok p) (hne : root ≠ "Cb") : 12 ≤ p := by
  have hkeys : ∀ letter alteration, inParts letter alteration none ≠ "Cb" →
      12 ≤ pitchIn letter alteration 0 := by
    intro letter alteration
    cases letter <;> cases alteration <;> decide
  obtain ⟨letter, alteration, rfl, rfl⟩ := parts_of_withOctave_zero h hp
  exact hkeys letter alteration hne

/-- The highest root of the octave is a C by its sound. -/
theorem pitch_withOctave_zero_le {root : String} {p : Int} (h : isBare root = true)
    (hp : pitch (withOctave root 0) = .ok p) : p ≤ 24 := by
  have hkeys : ∀ letter alteration, pitchIn letter alteration 0 ≤ 24 := by
    intro letter alteration
    cases letter <;> cases alteration <;> decide
  obtain ⟨letter, alteration, -, rfl⟩ := parts_of_withOctave_zero h hp
  exact hkeys letter alteration

/-! ### Spelled names -/

/-- From the C of octave zero upwards, a spelled name is a key in an octave. -/
theorem spell_eq_inParts {p : Int} (h : 12 ≤ p) (sharpen : Bool) :
    ∃ letter alteration octave, offsetOf letter alteration = p % octaveSize ∧
      spell p sharpen = inParts letter alteration (some octave) := by
  obtain ⟨letter, alteration, hoffset, hspell⟩ := spell_eq p sharpen
  have hoctave : 0 ≤ p.fdiv octaveSize - 1 := by
    rw [Int.fdiv_eq_ediv_of_nonneg p (by decide)]
    simp only [octaveSize]
    omega
  refine ⟨letter, alteration, (p.fdiv octaveSize - 1).toNat, ?_, ?_⟩
  · rw [hoffset, Int.fmod_eq_emod_of_nonneg p (by decide)]
  · rw [hspell, Text.toString_of_nonneg hoctave, inParts, octaveDigits]

/-- Below it, a minus sign stands between the key and the octave. -/
theorem spell_eq_minus {p : Int} (h : p < 12) (sharpen : Bool) :
    ∃ (letter : Letter) (alteration : Alteration) (octave : Nat),
      offsetOf letter alteration = p % octaveSize ∧ spell p sharpen =
        String.ofList ((letter.toChar :: (alteration.sign ++ ['-'])) ++ (toString octave).toList) := by
  obtain ⟨letter, alteration, hoffset, hspell⟩ := spell_eq p sharpen
  have hoctave : p.fdiv octaveSize - 1 < 0 := by
    rw [Int.fdiv_eq_ediv_of_nonneg p (by decide)]
    simp only [octaveSize]
    omega
  refine ⟨letter, alteration, (p.fdiv octaveSize - 1).natAbs, ?_, ?_⟩
  · rw [hoffset, Int.fmod_eq_emod_of_nonneg p (by decide)]
  · rw [hspell, Text.toList_toString_neg hoctave]
    simp

theorem pitchClass_spell (p : Int) (sharpen : Bool) :
    pitchClass (spell p sharpen) = .ok (p % octaveSize) := by
  obtain ⟨letter, alteration, hoffset, hspell⟩ := spell_eq p sharpen
  have hhead : head? (spell p sharpen).toList =
      some (letter, alteration, (toString (p.fdiv octaveSize - 1)).toList) := by
    rw [hspell, String.toList_ofList, head?_of_octave]
  rw [pitchClass_of_head? hhead, hoffset, Int.fmod_eq_emod_of_nonneg p (by decide),
    Int.emod_emod_of_dvd p (Int.dvd_refl _)]

/-! ### Names without their octave -/

theorem stripOctave_append {kept digits : List Char} (hne : digits ≠ [])
    (hdigits : ∀ c ∈ digits, Text.isDecimalDigit c = true)
    (hkept : ∀ c ∈ kept.getLast?, Text.isDecimalDigit c = false) :
    stripOctave (String.ofList (kept ++ digits)) = String.ofList kept := by
  have hall : ∀ c ∈ digits.reverse, Text.isDecimalDigit c = true := by simpa using hdigits
  have hhead : ∀ c ∈ kept.reverse.head?, Text.isDecimalDigit c = false := by simpa using hkept
  have hrest : (digits.reverse ++ kept.reverse).dropWhile Text.isDecimalDigit = kept.reverse := by
    rw [List.dropWhile_append_of_pos hall, Text.dropWhile_of_head_not hhead]
  rw [stripOctave, String.toList_ofList, List.reverse_append]
  split
  · next rest hreverse =>
    obtain ⟨d, ds, hd⟩ := List.exists_cons_of_ne_nil (List.reverse_ne_nil_iff.mpr hne)
    rw [hd, List.cons_append] at hreverse
    obtain ⟨rfl, -⟩ := List.cons.inj hreverse
    have hnewline := hall '\n' (hd ▸ List.mem_cons_self)
    exact absurd hnewline (by decide)
  · rw [hrest, List.reverse_reverse]

/-- From the C of octave zero upwards, the name of its key is left of a spelled pitch. -/
theorem stripOctave_spell_eq {p : Int} (h : 12 ≤ p) (sharpen : Bool) :
    stripOctave (spell p sharpen) = String.ofList (keyName (p % octaveSize) sharpen) := by
  have hk : 0 ≤ p % octaveSize ∧ p % octaveSize < octaveSize := by
    simp only [octaveSize]
    omega
  have hoctave : 0 ≤ p.fdiv octaveSize - 1 := by
    rw [Int.fdiv_eq_ediv_of_nonneg p (by decide)]
    simp only [octaveSize]
    omega
  obtain ⟨letter, alteration, hname, -⟩ := keyName_eq hk.1 hk.2 sharpen
  rw [spell, Int.fmod_eq_emod_of_nonneg p (by decide), Text.toString_of_nonneg hoctave, hname]
  exact stripOctave_append (Text.toList_toString_ne_nil _)
    (fun c hc => Text.isDecimalDigit_of_isAsciiDigit (Text.isAsciiDigit_of_mem_toString hc))
    (fun c hc => not_digit_of_mem_parts (List.mem_of_getLast? hc))

/-- Without its octave, a spelled pitch is a root of its pitch class. -/
theorem stripOctave_spell_of_le {p : Int} (h : 12 ≤ p) (sharpen : Bool) :
    ∃ letter alteration, stripOctave (spell p sharpen) = inParts letter alteration none ∧
      offsetOf letter alteration = p % octaveSize := by
  obtain ⟨letter, alteration, hname, hoffset⟩ := keyName_eq
    (Int.emod_nonneg p (by decide)) (Int.emod_lt_of_pos p (by decide)) sharpen
  refine ⟨letter, alteration, ?_, hoffset⟩
  rw [stripOctave_spell_eq h, hname, inParts, octaveDigits, List.append_nil]

/-- Below it, the minus sign of the octave is left. -/
theorem stripOctave_spell_of_lt {p : Int} (h : p < 12) (sharpen : Bool) :
    ∃ (letter : Letter) (alteration : Alteration), stripOctave (spell p sharpen) =
      String.ofList (letter.toChar :: (alteration.sign ++ ['-'])) ∧
      offsetOf letter alteration = p % octaveSize := by
  obtain ⟨letter, alteration, octave, hoffset, hspell⟩ := spell_eq_minus h sharpen
  refine ⟨letter, alteration, ?_, hoffset⟩
  rw [hspell, stripOctave_append (Text.toList_toString_ne_nil octave)
    (fun c hc => Text.isDecimalDigit_of_isAsciiDigit (Text.isAsciiDigit_of_mem_toString hc))]
  intro c hc
  rw [← List.cons_append, List.getLast?_concat] at hc
  cases hc
  decide

theorem pitchClass_stripOctave_spell (p : Int) (sharpen : Bool) :
    pitchClass (stripOctave (spell p sharpen)) = .ok (p % octaveSize) := by
  by_cases h : 12 ≤ p
  · obtain ⟨letter, alteration, hname, hoffset⟩ := stripOctave_spell_of_le h sharpen
    rw [hname, pitchClass_of_head? (head?_inParts_none letter alteration), hoffset,
      Int.emod_emod_of_dvd p (Int.dvd_refl _)]
  · obtain ⟨letter, alteration, hname, hoffset⟩ :=
      stripOctave_spell_of_lt (Int.not_le.mp h) sharpen
    have hminus : ∀ c ∈ ['-'].head?, c ≠ '#' ∧ c ≠ 'b' := by
      intro c hc
      cases hc
      decide
    have hhead := head?_of_parts letter alteration hminus
    rw [← String.toList_ofList (l := letter.toChar :: _)] at hhead
    rw [hname, pitchClass_of_head? hhead, hoffset, Int.emod_emod_of_dvd p (Int.dvd_refl _)]

end LeadSheet.NoteName
