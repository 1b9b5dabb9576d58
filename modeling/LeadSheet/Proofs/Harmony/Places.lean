import LeadSheet.Proofs.Harmony.AlteredLetters

/-!
The lines and spaces that carry the signs of a key. A pitch is moved up by octaves until it lies above
the lower bound, and then down until it is at most the upper one. Where the bounds are an octave apart,
it is moved one way only and ends between them, as a note of the letter that gets the sign.
-/
namespace LeadSheet.KeySignature
open NoteName (ofPitch pitch)

/-! ### Moving by octaves -/

/-- A pitch is moved by an interval as long as a condition holds, a number of times. -/
inductive Shifts (goesOn : Int → Prop) (interval : Int) : Int → Nat → Int → Prop
  | stop {p : Int} (h : ¬ goesOn p) : Shifts goesOn interval p 0 p
  | shift {p q : Int} {n : Nat} (h : goesOn p) (hlast : Shifts goesOn interval (p + interval) n q) :
    Shifts goesOn interval p (n + 1) q

section
variable {goesOn : Int → Prop} {interval p q r : Int} {m n : Nat}

/-- The moves end in one way only. -/
theorem Shifts.unique (h : Shifts goesOn interval p m q) (h' : Shifts goesOn interval p n r) :
    m = n ∧ q = r := by
  induction h generalizing n r with
  | stop hp =>
    cases h' with
    | stop => exact ⟨rfl, rfl⟩
    | shift hp' => exact absurd hp' hp
  | shift hp _ ih =>
    cases h' with
    | stop hp' => exact absurd hp hp'
    | shift _ hlast =>
      obtain ⟨rfl, rfl⟩ := ih hlast
      exact ⟨rfl, rfl⟩

/-- As long as the condition holds the moves go on, and no longer. -/
theorem shifts_of_forall (hgo : ∀ i < n, goesOn (p + i * interval))
    (hstop : ¬ goesOn (p + n * interval)) : Shifts goesOn interval p n (p + n * interval) := by
  induction n generalizing p with
  | zero =>
    rw [Int.natCast_zero, Int.zero_mul, Int.add_zero] at hstop ⊢
    exact .stop hstop
  | succ n ih =>
    have hnext (i : Nat) : p + (i + 1 : Nat) * interval = p + interval + i * interval := by
      rw [Int.natCast_succ, Int.add_mul, Int.one_mul]
      omega
    have hfirst := hgo 0 n.succ_pos
    rw [Int.natCast_zero, Int.zero_mul, Int.add_zero] at hfirst
    rw [hnext] at hstop ⊢
    refine .shift hfirst (ih (fun i hi => ?_) hstop)
    rw [← hnext]
    exact hgo (i + 1) (by omega)

end

section
variable {low high p q : Int} {m n : Nat}

/-- The fewest octaves that are more than a gap, which may be negative. -/
def octavesOver (gap : Int) : Nat := (gap / octaveSize + 1).toNat

private theorem shifts_up (low p : Int) : Shifts (· ≤ low) octaveSize p (octavesOver (low - p))
    (p + octavesOver (low - p) * octaveSize) := by
  refine shifts_of_forall (fun i hi => ?_) ?_
  · simp only [octavesOver, octaveSize] at hi ⊢
    omega
  · simp only [octavesOver, octaveSize]
    omega

private theorem shifts_down (high p : Int) :
    Shifts (high < ·) (-octaveSize) p (octavesOver (p - high - 1))
    (p + octavesOver (p - high - 1) * -octaveSize) := by
  refine shifts_of_forall (fun i hi => ?_) ?_
  · simp only [octavesOver, octaveSize] at hi ⊢
    omega
  · simp only [octavesOver, octaveSize]
    omega

/-- A pitch is moved up while it does not lie above the lower bound, and then down while it lies above
the upper one. -/
def Moves (low high p : Int) (up down : Nat) (q : Int) : Prop :=
  ∃ r, Shifts (· ≤ low) octaveSize p up r ∧ Shifts (high < ·) (-octaveSize) r down q

private theorem placeBetween_eq (low high p : Int) : placeBetween low high p =
    p + octavesOver (low - p) * octaveSize +
      octavesOver (p + octavesOver (low - p) * octaveSize - high - 1) * -octaveSize := by
  simp only [placeBetween, octavesOver, octaveSize]
  split <;> split <;> omega

/-- Both ways come to an end, and where that is can be told beforehand. -/
theorem moves_iff : Moves low high p m n q ↔ m = octavesOver (low - p) ∧
    n = octavesOver (p + m * octaveSize - high - 1) ∧ q = placeBetween low high p := by
  constructor
  · rintro ⟨r, hup, hdown⟩
    obtain ⟨rfl, rfl⟩ := hup.unique (shifts_up low p)
    obtain ⟨rfl, rfl⟩ := hdown.unique (shifts_down high _)
    exact ⟨rfl, rfl, (placeBetween_eq low high p).symm⟩
  · rintro ⟨rfl, rfl, rfl⟩
    refine ⟨_, shifts_up low p, ?_⟩
    rw [placeBetween_eq]
    exact shifts_down high _

private theorem placeBetween_emod (low high p : Int) :
    placeBetween low high p % octaveSize = p % octaveSize := by
  rw [placeBetween_eq]
  simp only [octaveSize]
  omega

/-- An octave between the bounds is room for every pitch class, and the way down does not undo the way
up. -/
theorem placeBetween_bounds (h : low + octaveSize ≤ high) (p : Int) :
    low < placeBetween low high p ∧ placeBetween low high p ≤ high := by
  simp only [placeBetween, octaveSize] at h ⊢
  constructor <;> split <;> split <;> omega

private theorem Moves.one_way (h : low + octaveSize ≤ high) (hmoves : Moves low high p m n q) :
    m = 0 ∨ n = 0 := by
  obtain ⟨rfl, rfl, -⟩ := moves_iff.mp hmoves
  simp only [octavesOver, octaveSize] at h ⊢
  omega

end

/-! ### Fifths -/

/-- The pitch that is moved between the bounds for a sign: by fifths upwards from F5 for sharps, and
downwards from B5 for flats. -/
def fifthAt (n : Int) (i : Nat) : Int := if 0 < n then 77 + i * 7 else 83 + i * -7

private theorem places_eq (n low high : Int) : (accidentals n).places low high =
    (List.range n.natAbs).map fun i => ofPitch (placeBetween low high (fifthAt n i)) := by
  by_cases hsharp : 0 < n
  · have hkey : (accidentals n).isSharp = true := decide_eq_true hsharp
    simp only [places, hkey, if_true, fifthAt, if_pos hsharp]
    rfl
  · have hkey : (accidentals n).isSharp = false := decide_eq_false hsharp
    simp only [places, hkey, Bool.false_eq_true, if_false, fifthAt, if_neg hsharp]
    rfl

/-- The fifths go through the letters in the order in which they get their signs. -/
theorem exists_letter_fifthAt (n : Int) {i : Nat} (hi : i < 7) :
    ∃ letter, (signOrder n)[i]? = some letter ∧ fifthAt n i % octaveSize = letter.offset := by
  by_cases hsharp : 0 < n
  · have hfifths : ∀ i : Fin 7, ∃ letter ∈ ([.F, .C, .G, .D, .A, .E, .B] : List Letter)[i.val]?,
        (77 + (i.val : Int) * 7) % octaveSize = letter.offset := by decide
    rw [signOrder, if_pos hsharp, fifthAt, if_pos hsharp]
    exact hfifths ⟨i, hi⟩
  · have hfifths : ∀ i : Fin 7, ∃ letter ∈ ([.B, .E, .A, .D, .G, .C, .F] : List Letter)[i.val]?,
        (83 + (i.val : Int) * -7) % octaveSize = letter.offset := by decide
    rw [signOrder, if_neg hsharp, fifthAt, if_neg hsharp]
    exact hfifths ⟨i, hi⟩

/-! ### Natural notes -/

/-- The name of a pitch that is a letter without a sign, in whatever octave. From the C of octave zero
upwards it is read as this pitch, and below it is not read at all. -/
structure IsNatural (letter : Letter) (p : Int) (name : String) : Prop where
  name_eq : name = ofPitch p
  head?_eq : NoteName.head? name.toList =
    some (letter, .natural, (toString (p.fdiv octaveSize - 1)).toList)
  pitch_iff : ∀ q, pitch name = .ok q ↔ 12 ≤ p ∧ q = p

private theorem keyName_offset (letter : Letter) (sharpen : Bool) :
    NoteName.keyName letter.offset sharpen = [letter.toChar] := by
  cases letter <;> rfl

private theorem isNatural_of_offset {letter : Letter} {p : Int}
    (h : p % octaveSize = letter.offset) :
    IsNatural letter p (ofPitch p) where
  name_eq := rfl
  head?_eq := by
    rw [ofPitch, NoteName.spell, Int.fmod_eq_emod_of_nonneg p (by decide), h, keyName_offset,
      String.toList_ofList]
    exact NoteName.head?_of_octave letter .natural _
  pitch_iff := fun _ => NoteName.pitch_spell_eq_ok_iff

private theorem getElem?_alteredLetters {n : Int} (hn : n.natAbs ≤ 7) {i : Nat}
    (hi : i < n.natAbs) :
    (accidentals n).alteredLetters[i]? = (signOrder n)[i]? := by
  have hcount : signCount n = n.natAbs := by
    rw [signCount_of_not_wraps fun h => by have := h.2; omega]
    omega
  rw [alteredLetters_eq, hcount, List.getElem?_take_of_lt hi]

/-- A key of up to seven signs has a place for each of them, in the order of the letters it alters,
between any two bounds that are an octave apart. The way there ends, from the fifth it starts on, and
it ends above the lower bound and not above the upper one, on the natural note of the letter. -/
theorem places_on_letters {n low high : Int} (hn : 1 ≤ n.natAbs ∧ n.natAbs ≤ 7)
    (h : low + 12 ≤ high) :
    ∃ names, (accidentals n).placesBetween (.pitch low) (.pitch high) = .ok names ∧
      names.length = n.natAbs ∧
      ∀ i < n.natAbs, ∃ letter p name up down,
        (accidentals n).alteredLetters[i]? = some letter ∧ names[i]? = some name ∧
        IsNatural letter p name ∧ low < p ∧ p ≤ high ∧
        Moves low high (fifthAt n i) up down p ∧ (up = 0 ∨ down = 0) := by
  have hcount : (accidentals n).count ≠ 0 := by
    intro h0
    have : n = 0 := h0
    omega
  refine ⟨(accidentals n).places low high, ?_, ?_, fun i hi => ?_⟩
  · rw [placesBetween, if_neg hcount]
    rfl
  · rw [places_eq, List.length_map, List.length_range]
  · obtain ⟨letter, hletter, hoffset⟩ := exists_letter_fifthAt n (Nat.lt_of_lt_of_le hi hn.2)
    obtain ⟨hlow, hhigh⟩ := placeBetween_bounds h (fifthAt n i)
    have hmoves : Moves low high (fifthAt n i) _ _ _ := moves_iff.mpr ⟨rfl, rfl, rfl⟩
    refine ⟨letter, _, _, _, _, ?_, ?_, isNatural_of_offset ?_, hlow, hhigh, hmoves,
      hmoves.one_way h⟩
    · rw [getElem?_alteredLetters hn.2 hi, hletter]
    · rw [places_eq, List.getElem?_map, List.getElem?_range hi]
      rfl
    · rw [placeBetween_emod, hoffset]

/-- Two flats in an octave that lies far below octave zero. -/
theorem places_on_letters_low :
    (accidentals (-2)).placesBetween (.pitch (-30)) (.pitch (-18)) = .ok ["B-4", "E-3"] ∧
      (accidentals (-2)).alteredLetters[1]? = some .E ∧
      ∃ p, IsNatural .E p "E-3" ∧ -30 < p ∧ p ≤ -18 := by
  have hplaces : (accidentals (-2)).placesBetween (.pitch (-30)) (.pitch (-18)) =
      .ok ["B-4", "E-3"] := by decide
  have hletters : (accidentals (-2)).alteredLetters[1]? = some .E := by decide
  obtain ⟨names, hnames, -, hplaced⟩ :=
    places_on_letters (show 1 ≤ (-2 : Int).natAbs ∧ (-2 : Int).natAbs ≤ 7 by decide)
      (show (-30 : Int) + 12 ≤ -18 by decide)
  obtain rfl := Except.ok.inj (hplaces.symm.trans hnames)
  obtain ⟨letter, p, name, _, _, hletter, hname, hnatural, hlow, hhigh, -⟩ := hplaced 1 (by decide)
  obtain rfl := Option.some.inj (hletters.symm.trans hletter)
  obtain rfl := Option.some.inj hname
  exact ⟨hplaces, hletters, p, hnatural, hlow, hhigh⟩

end LeadSheet.KeySignature
