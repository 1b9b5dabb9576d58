import LeadSheet.Pitch.NoteName
import LeadSheet.Proofs.Text.Digits

/-!
Spelled pitches. A pitch from the C of octave zero upwards is spelled with a name that is read as
this pitch. Below it the octave is negative, and the name is read as no pitch at all; still it is
the name of one pitch only.
-/
namespace LeadSheet.NoteName

/-! ### Names in parts -/

theorem ofChar?_toChar (letter : Letter) : Letter.ofChar? letter.toChar = some letter := by
  cases letter <;> rfl

theorem toChar_of_ofChar? {c : Char} {letter : Letter} (h : Letter.ofChar? c = some letter) :
    letter.toChar = c := by
  unfold Letter.ofChar? at h
  split at h
  all_goals cases h
  all_goals rfl

/-- A letter and an alteration are read back when no sign of alteration follows. -/
theorem head?_of_parts (letter : Letter) (alteration : Alteration) {rest : List Char}
    (h : ∀ c ∈ rest.head?, c ≠ '#' ∧ c ≠ 'b') :
    head? (letter.toChar :: (alteration.sign ++ rest)) = some (letter, alteration, rest) := by
  have hread : Alteration.read (alteration.sign ++ rest) = (alteration, rest) := by
    cases alteration with
    | sharp => rfl
    | flat => rfl
    | natural =>
      rw [Alteration.sign, List.nil_append, Alteration.read.eq_3]
      · rintro _ rfl
        exact (h '#' rfl).1 rfl
      · rintro _ rfl
        exact (h 'b' rfl).2 rfl
  rw [head?, ofChar?_toChar, Option.map_some, hread]

private theorem sign_append_read (cs : List Char) :
    (Alteration.read cs).1.sign ++ (Alteration.read cs).2 = cs := by
  unfold Alteration.read
  split <;> rfl

theorem eq_of_head? {cs rest : List Char} {letter : Letter} {alteration : Alteration}
    (h : head? cs = some (letter, alteration, rest)) :
    cs = letter.toChar :: (alteration.sign ++ rest) := by
  cases cs with
  | nil => cases h
  | cons c cs =>
    obtain ⟨l, hl, h⟩ := Option.map_eq_some_iff.mp h
    have hparts : (l, (Alteration.read cs).1, (Alteration.read cs).2) = (letter, alteration, rest) := h
    obtain ⟨rfl, hread⟩ := Prod.mk.inj hparts
    obtain ⟨rfl, rfl⟩ := Prod.mk.inj hread
    rw [toChar_of_ofChar? hl, sign_append_read]

theorem not_sign_of_isAsciiDigit {c : Char} (h : Text.isAsciiDigit c = true) :
    c ≠ '#' ∧ c ≠ 'b' := by
  constructor
  · rintro rfl
    exact absurd h (by decide)
  · rintro rfl
    exact absurd h (by decide)

theorem spanDigits_toString (n : Nat) :
    spanDigits (toString n).toList = ((toString n).toList, []) := by
  have hdigits : ∀ c ∈ (toString n).toList, Text.isDecimalDigit c = true := fun c hc =>
    Text.isDecimalDigit_of_isAsciiDigit (Text.isAsciiDigit_of_mem_toString hc)
  have hnil : ∀ c ∈ ([] : List Char).head?, Text.isDecimalDigit c = false := fun c hc => by cases hc
  have h := Text.span_append hdigits hnil
  rwa [List.append_nil] at h

theorem pitch_eq_ok_iff {name : String} {p : Int} : pitch name = .ok p ↔ pitch? name = some p := by
  rw [pitch]
  cases pitch? name with
  | none => simp
  | some q => simp

/-- The octave of a name counts twelve semitones each. -/
theorem pitch_of_parts (letter : Letter) (alteration : Alteration) (octave : Nat) :
    pitch (String.ofList (letter.toChar :: (alteration.sign ++ (toString octave).toList))) =
      .ok (offsetOf letter alteration + (octave + 1) * octaveSize) := by
  have hhead : ∀ c ∈ (toString octave).toList.head?, c ≠ '#' ∧ c ≠ 'b' := fun c hc =>
    not_sign_of_isAsciiDigit (Text.isAsciiDigit_of_mem_toString (List.mem_of_mem_head? hc))
  have hp : pitch? (String.ofList (letter.toChar :: (alteration.sign ++ (toString octave).toList))) =
      some (offsetOf letter alteration + (octave + 1) * octaveSize) := by
    have hspan := spanDigits_toString octave
    have hne := Text.toList_toString_ne_nil octave
    have hnumber := Text.numberOfDigits_toString octave
    rw [pitch?, String.toList_ofList, head?_of_parts letter alteration hhead]
    generalize (toString octave).toList = digits at hspan hne hnumber
    simp [hspan, hne, hnumber, atEnd, guard]
  rw [pitch, hp]

/-! ### Spelled names -/

/-- The name of a key is a letter with at most one sign. -/
theorem keyName_eq {k : Int} (h0 : 0 ≤ k) (h : k < octaveSize) (sharpen : Bool) :
    ∃ letter alteration, keyName k sharpen = letter.toChar :: alteration.sign ∧
      offsetOf letter alteration = k := by
  have hkeys : ∀ (k : Fin 12) (sharpen : Bool), ∃ key ∈ head? (keyName k.val sharpen),
      key.2.2 = [] ∧ offsetOf key.1 key.2.1 = k.val := by decide
  obtain ⟨n, rfl⟩ := Int.eq_ofNat_of_zero_le h0
  obtain ⟨⟨letter, alteration, rest⟩, hkey, rfl, hoffset⟩ :=
    hkeys ⟨n, Int.ofNat_lt.mp h⟩ sharpen
  refine ⟨letter, alteration, ?_, hoffset⟩
  rw [eq_of_head? hkey, List.append_nil]

/-- A spelled name in parts: a key, and the octave. -/
theorem spell_eq (p : Int) (sharpen : Bool) :
    ∃ letter alteration, offsetOf letter alteration = p.fmod octaveSize ∧
      spell p sharpen = String.ofList (letter.toChar ::
        (alteration.sign ++ (toString (p.fdiv octaveSize - 1)).toList)) := by
  have h0 : 0 ≤ p.fmod octaveSize := Int.fmod_nonneg_of_pos p (by decide)
  have h : p.fmod octaveSize < octaveSize := Int.fmod_lt_of_pos p (by decide)
  obtain ⟨letter, alteration, hkey, hoffset⟩ := keyName_eq h0 h sharpen
  exact ⟨letter, alteration, hoffset, by rw [spell, hkey, List.cons_append]⟩

theorem pitch_spell_of_le {p : Int} (h : 12 ≤ p) (sharpen : Bool) :
    pitch (spell p sharpen) = .ok p := by
  obtain ⟨letter, alteration, hoffset, hspell⟩ := spell_eq p sharpen
  have hparts : p.fmod octaveSize + octaveSize * p.fdiv octaveSize = p := Int.fmod_add_mul_fdiv p octaveSize
  have hdiv : 1 ≤ p.fdiv octaveSize := by
    rw [Int.fdiv_eq_ediv_of_nonneg p (by decide)]
    simp only [octaveSize]
    omega
  obtain ⟨octave, ho⟩ := Int.eq_ofNat_of_zero_le (show 0 ≤ p.fdiv octaveSize - 1 by omega)
  have hname : toString (p.fdiv octaveSize - 1) = toString octave := by
    rw [ho]
    rfl
  rw [hspell, hname, pitch_of_parts, hoffset]
  congr 1
  simp only [octaveSize] at hparts ho ⊢
  omega

theorem pitch_spell_of_lt {p : Int} (h : p < 12) (sharpen : Bool) :
    pitch (spell p sharpen) = .error (.noPitch (spell p sharpen)) := by
  obtain ⟨letter, alteration, -, hspell⟩ := spell_eq p sharpen
  have hdiv : p.fdiv octaveSize - 1 < 0 := by
    rw [Int.fdiv_eq_ediv_of_nonneg p (by decide)]
    simp only [octaveSize]
    omega
  have hp : pitch? (spell p sharpen) = none := by
    rw [hspell, Text.toList_toString_neg hdiv, pitch?, String.toList_ofList, head?_of_parts]
    · rfl
    · rintro c hc
      cases hc
      decide
  rw [pitch, hp]

/-- Below the C of octave zero no pitch is read from the name that it is spelled with. -/
theorem pitch_spell_eq_ok_iff {p q : Int} {sharpen : Bool} :
    pitch (spell p sharpen) = .ok q ↔ 12 ≤ p ∧ q = p := by
  by_cases h : 12 ≤ p
  · rw [pitch_spell_of_le h, Except.ok.injEq, eq_comm, and_iff_right h]
  · rw [pitch_spell_of_lt (Int.not_le.mp h)]
    exact iff_of_false (fun he => by cases he) fun ⟨hp, _⟩ => h hp

theorem head?_of_octave (letter : Letter) (alteration : Alteration) (octave : Int) :
    head? (letter.toChar :: (alteration.sign ++ (toString octave).toList)) =
      some (letter, alteration, (toString octave).toList) := by
  refine head?_of_parts letter alteration fun c hc => ?_
  by_cases h : octave < 0
  · rw [Text.toList_toString_neg h] at hc
    cases hc
    decide
  · rw [Text.toString_of_nonneg (by omega)] at hc
    exact not_sign_of_isAsciiDigit (Text.isAsciiDigit_of_mem_toString (List.mem_of_mem_head? hc))

/-- A spelled name is that of one pitch only, also where it cannot be read. -/
theorem eq_of_spell_eq {p q : Int} {a b : Bool} (h : spell p a = spell q b) : p = q := by
  obtain ⟨letter, alteration, hoffset, hp⟩ := spell_eq p a
  obtain ⟨letter', alteration', hoffset', hq⟩ := spell_eq q b
  have hhead := congrArg head? (String.ofList_inj.mp (hp.symm.trans (h.trans hq)))
  rw [head?_of_octave, head?_of_octave] at hhead
  obtain ⟨rfl, hrest⟩ := Prod.mk.inj (Option.some.inj hhead)
  obtain ⟨rfl, htext⟩ := Prod.mk.inj hrest
  have hread := congrArg IntegerText.read htext
  rw [IntegerText.read_toString, IntegerText.read_toString] at hread
  have hoctave := Except.ok.inj hread
  have hdiv : p.fdiv octaveSize = q.fdiv octaveSize := by omega
  rw [← Int.fmod_add_mul_fdiv p octaveSize, ← Int.fmod_add_mul_fdiv q octaveSize, ← hoffset,
    ← hoffset', hdiv]

/-! ### Names some semitones above others -/

theorem transpose_eq_map (name : String) (semitones : Int) :
    transpose name semitones = (pitch name).map fun p => ofPitch (p + semitones) := by
  rw [transpose]
  cases pitch name <;> rfl

theorem transpose_of_pitch {name : String} {p : Int} (h : pitch name = .ok p) (semitones : Int) :
    transpose name semitones = .ok (ofPitch (p + semitones)) := by
  rw [transpose_eq_map, h]
  rfl

end LeadSheet.NoteName
