import LeadSheet.Proofs.Pitch.Root

/-!
Names without their octave. Of a name with a pitch the letter and its sign are left, and a line feed
if one stands behind the octave; so two of them are left with the same text exactly if they are spelled
alike. Two keys share a name only if they are of one pitch class, and a black key has two names.
-/
namespace LeadSheet.NoteName

/-! ### Names with a pitch -/

/-- The letter that a name starts with, and its alteration. -/
def key? (name : String) : Option (Letter × Alteration) :=
  (head? name.toList).map fun (letter, alteration, _) => (letter, alteration)

/-- Names of one letter with one sign. A line feed behind a name is a part of it. -/
def SpelledAlike (a b : String) : Prop := key? a = key? b ∧ (EndsLine a ↔ EndsLine b)

instance (a b : String) : Decidable (SpelledAlike a b) :=
  inferInstanceAs (Decidable (key? a = key? b ∧ (EndsLine a ↔ EndsLine b)))

private theorem not_sign_of_isDecimalDigit {c : Char} (h : Text.isDecimalDigit c = true) :
    c ≠ '#' ∧ c ≠ 'b' := by
  constructor
  · rintro rfl
    exact absurd h (by decide)
  · rintro rfl
    exact absurd h (by decide)

/-- A name with a pitch is a letter, perhaps a sign, an octave, and perhaps a line feed. -/
theorem parts_of_pitch {name : String} {p : Int} (h : pitch name = .ok p) :
    ∃ (letter : Letter) (alteration : Alteration) (octave tail : List Char),
      name.toList = letter.toChar :: (alteration.sign ++ (octave ++ tail)) ∧ octave ≠ [] ∧
        (∀ c ∈ octave, Text.isDecimalDigit c = true) ∧ (tail = [] ∨ tail = ['\n']) := by
  obtain ⟨⟨letter, alteration, rest⟩, hhead, h⟩ :=
    Option.bind_eq_some_iff.mp (pitch_eq_ok_iff.mp h)
  have hname := eq_of_head? hhead
  have hsplit : spanDigits rest =
      (rest.takeWhile Text.isDecimalDigit, rest.dropWhile Text.isDecimalDigit) :=
    List.span_eq_takeWhile_dropWhile ..
  dsimp only at h
  rw [hsplit] at h
  obtain ⟨_, hguard, -⟩ := Option.bind_eq_some_iff.mp h
  obtain ⟨hne, hend⟩ : rest.takeWhile Text.isDecimalDigit ≠ [] ∧
      atEnd (rest.dropWhile Text.isDecimalDigit) = true := by
    simpa [guard] using hguard
  rw [atEnd, Bool.or_eq_true, decide_eq_true_eq, decide_eq_true_eq] at hend
  refine ⟨letter, alteration, _, _, ?_, hne, fun c hc => List.mem_takeWhile_imp hc, hend⟩
  rwa [List.takeWhile_append_dropWhile]

private theorem stripOctave_append_newline {kept digits : List Char}
    (hdigits : ∀ c ∈ digits, Text.isDecimalDigit c = true)
    (hkept : ∀ c ∈ kept.getLast?, Text.isDecimalDigit c = false) :
    stripOctave (String.ofList (kept ++ (digits ++ ['\n']))) = String.ofList (kept ++ ['\n']) := by
  have hall : ∀ c ∈ digits.reverse, Text.isDecimalDigit c = true := by simpa using hdigits
  have hhead : ∀ c ∈ kept.reverse.head?, Text.isDecimalDigit c = false := by simpa using hkept
  have hreverse : (kept ++ (digits ++ ['\n'])).reverse = '\n' :: (digits.reverse ++ kept.reverse) := by
    simp
  rw [stripOctave, String.toList_ofList, hreverse]
  change String.ofList (((digits.reverse ++ kept.reverse).dropWhile _).reverse ++ ['\n']) = _
  rw [List.dropWhile_append_of_pos hall, Text.dropWhile_of_head_not hhead, List.reverse_reverse]

/-- What is left of a name with a pitch. -/
theorem stripOctave_of_pitch {name : String} {p : Int} (h : pitch name = .ok p) :
    ∃ letter alteration, key? name = some (letter, alteration) ∧
      stripOctave name = String.ofList (letter.toChar ::
        (alteration.sign ++ if EndsLine name then ['\n'] else [])) := by
  obtain ⟨letter, alteration, octave, tail, hname, hne, hdigits, htail⟩ := parts_of_pitch h
  obtain ⟨d, ds, rfl⟩ := List.exists_cons_of_ne_nil hne
  have hlast : ∀ c ∈ (letter.toChar :: alteration.sign).getLast?, Text.isDecimalDigit c = false :=
    fun c hc => not_digit_of_mem_parts (List.mem_of_getLast? hc)
  have hhead : head? name.toList = some (letter, alteration, d :: ds ++ tail) := by
    rw [hname]
    refine head?_of_parts letter alteration fun c hc => ?_
    cases hc
    exact not_sign_of_isDecimalDigit (hdigits _ List.mem_cons_self)
  have hchars : name = String.ofList (letter.toChar :: alteration.sign ++ (d :: ds ++ tail)) :=
    String.toList_inj.mp (hname.trans String.toList_ofList.symm)
  refine ⟨letter, alteration, by rw [key?, hhead]; rfl, ?_⟩
  rcases htail with rfl | rfl
  · have hline : ¬ EndsLine name := by
      intro hline
      rw [EndsLine, hname, List.append_nil, ← List.cons_append,
        List.getLast?_append_of_ne_nil _ hne] at hline
      exact absurd (hdigits _ (List.mem_of_getLast? hline)) (by decide)
    rw [if_neg hline, hchars, List.append_nil, stripOctave_append hne hdigits hlast, List.append_nil]
  · have hline : EndsLine name := by
      rw [EndsLine, hname, ← List.append_assoc, ← List.cons_append, List.getLast?_append]
      rfl
    rw [if_pos hline, hchars, stripOctave_append_newline hdigits hlast, List.cons_append]

/-- Without their octaves, names with pitches are the same text exactly if they are spelled alike. -/
theorem stripOctave_eq_iff {a b : String} {p q : Int} (ha : pitch a = .ok p) (hb : pitch b = .ok q) :
    stripOctave a = stripOctave b ↔ SpelledAlike a b := by
  obtain ⟨letter, alteration, hkey, hstrip⟩ := stripOctave_of_pitch ha
  obtain ⟨letter', alteration', hkey', hstrip'⟩ := stripOctave_of_pitch hb
  have htail (name : String) : ∀ c ∈ (if EndsLine name then ['\n'] else []).head?,
      c ≠ '#' ∧ c ≠ 'b' := by
    intro c hc
    split at hc
    · cases hc
      decide
    · cases hc
  rw [hstrip, hstrip', String.ofList_inj, SpelledAlike, hkey, hkey', Option.some_inj]
  constructor
  · intro h
    have hhead := congrArg head? h
    rw [head?_of_parts _ _ (htail a), head?_of_parts _ _ (htail b)] at hhead
    obtain ⟨rfl, hrest⟩ := Prod.mk.inj (Option.some.inj hhead)
    obtain ⟨rfl, hline⟩ := Prod.mk.inj hrest
    refine ⟨rfl, ?_⟩
    by_cases ha : EndsLine a <;> by_cases hb : EndsLine b <;> simp_all
  · rintro ⟨hsame, hline⟩
    obtain ⟨rfl, rfl⟩ := Prod.mk.inj hsame
    simp only [hline]

/-! ### Names of keys -/

/-- A pitch class that a letter names without a sign. -/
def IsWhite (k : Int) : Prop := ∃ letter ∈ Letter.all, letter.offset = k

instance (k : Int) : Decidable (IsWhite k) :=
  inferInstanceAs (Decidable (∃ letter ∈ Letter.all, letter.offset = k))

/-- Black keys have two names and white ones have one; no two keys have a name in common. -/
theorem keyName_eq_iff {k k' : Int} (hk : 0 ≤ k ∧ k < 12) (hk' : 0 ≤ k' ∧ k' < 12)
    {sharpen sharpen' : Bool} :
    keyName k sharpen = keyName k' sharpen' ↔ k = k' ∧ (IsWhite k ∨ sharpen = sharpen') := by
  have hnames : ∀ (k : Fin 12) (sharpen sharpen' : Bool),
      keyName k.val sharpen = keyName k.val sharpen' ↔ IsWhite k.val ∨ sharpen = sharpen' := by decide
  obtain ⟨n, rfl⟩ := Int.eq_ofNat_of_zero_le hk.1
  have hspelled := hnames ⟨n, Int.ofNat_lt.mp hk.2⟩ sharpen sharpen'
  constructor
  · intro h
    obtain ⟨letter, alteration, hname, hoffset⟩ := keyName_eq hk.1 hk.2 sharpen
    obtain ⟨letter', alteration', hname', hoffset'⟩ := keyName_eq hk'.1 hk'.2 sharpen'
    have hhead := congrArg head? h
    have hnil : ∀ c ∈ ([] : List Char).head?, c ≠ '#' ∧ c ≠ 'b' := fun c hc => by cases hc
    rw [hname, hname', ← List.append_nil alteration.sign, ← List.append_nil alteration'.sign,
      head?_of_parts _ _ hnil, head?_of_parts _ _ hnil] at hhead
    obtain ⟨rfl, hrest⟩ := Prod.mk.inj (Option.some.inj hhead)
    obtain ⟨rfl, -⟩ := Prod.mk.inj hrest
    obtain rfl := hoffset.symm.trans hoffset'
    exact ⟨rfl, hspelled.mp h⟩
  · rintro ⟨rfl, h⟩
    exact hspelled.mpr h

end LeadSheet.NoteName
