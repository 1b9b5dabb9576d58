import LeadSheet.Harmony.KeySignature
import LeadSheet.Proofs.Outcome

/-!
Keys that move. From six flats to five sharps, each semitone goes seven steps around the circle of
fifths, and so two moves are one move by their sum. The name of a key moves by the semitones, however
many accidentals the key has.
-/
namespace LeadSheet.KeySignature

/-- A count from six flats to five sharps. -/
def InCircle (n : Int) : Prop := -6 ≤ n ∧ n ≤ 5

instance (n : Int) : Decidable (InCircle n) := inferInstanceAs (Decidable (-6 ≤ n ∧ n ≤ 5))

/-- Inside the circle, whole octaves are no special case. -/
theorem transposeCount_eq {n : Int} (hn : InCircle n) (k : Int) :
    transposeCount n k = (n + k * 7 + 6) % 12 - 6 := by
  obtain ⟨hl, hu⟩ := hn
  rw [transposeCount]
  split
  · next ho =>
    rw [octaveSize] at ho
    omega
  · rfl

theorem inCircle_transposeCount {n : Int} (hn : InCircle n) (k : Int) :
    InCircle (transposeCount n k) := by
  rw [transposeCount_eq hn, InCircle]
  omega

theorem transposeCount_zero (n : Int) : transposeCount n 0 = n := if_pos rfl

theorem transposeCount_add {n : Int} (hn : InCircle n) (j k : Int) :
    transposeCount (transposeCount n j) k = transposeCount n (j + k) := by
  rw [transposeCount_eq (inCircle_transposeCount hn j), transposeCount_eq hn,
    transposeCount_eq hn]
  omega

/-- Counts and semitones that are whole numbers are moved as such. -/
theorem transposed_whole (n k : Int) :
    transposed (.whole n) (.whole k) = .ok (.whole (transposeCount n k)) := by
  have hmod : (Number.whole k).mod (.whole octaveSize) = .ok (.whole (k % octaveSize)) := by
    rw [← Int.fmod_eq_emod_of_nonneg k (by decide)]
    rfl
  rw [transposed, hmod]
  change (if decide (k % octaveSize = 0) = true then _ else _) = _
  by_cases ho : k % octaveSize = 0
  · rw [if_pos (decide_eq_true ho), transposeCount, if_pos ho]
    rfl
  · rw [if_neg (by rwa [decide_eq_true_eq])]
    rfl

/-! ### Names of keys -/

/-- Each accidental moves the name of a key by a fifth, upwards from C for sharps and downwards for
flats. -/
theorem pitchClass_majorName (n : Int) :
    NoteName.pitchClass (majorName n) = .ok (7 * n % octaveSize) := by
  -- the circle starts at one flat
  have hfifths : ∀ i : Fin 12, NoteName.pitchClass (fifths.getD i.val "") =
      .ok ((7 * (i.val : Int) + 5) % octaveSize) := by decide
  have hlt : ((n + 1) % 12).toNat < 12 := by omega
  rw [majorName, hfifths ⟨_, hlt⟩]
  congr 1
  simp only [octaveSize]
  omega

/-- Seven fifths are a semitone, but for whole octaves. -/
theorem fifths_transposeCount (n k : Int) :
    7 * transposeCount n k % octaveSize = (7 * n % octaveSize + k) % octaveSize := by
  rw [transposeCount]
  split
  · next ho =>
    simp only [octaveSize] at ho ⊢
    omega
  · simp only [octaveSize]
    omega

/-- From six flats to five sharps, two moves are one move by their sum, and they stay among these keys.
The name of a key, with any number of accidentals, is moved by as many semitones as the key. -/
theorem transposed_around_circle (k a : Int) :
    (InCircle k → ∀ b : Int, ∃ m,
      (do transposed (← transposed (.whole k) (.whole a)) (.whole b)) = .ok (.whole m) ∧
        transposed (.whole k) (.whole (a + b)) = .ok (.whole m) ∧ InCircle m) ∧
      ∃ m p, transposed (.whole k) (.whole a) = .ok (.whole m) ∧
        NoteName.pitchClass (accidentals k).name = .ok p ∧
        NoteName.pitchClass (accidentals m).name = .ok ((p + a) % octaveSize) := by
  refine ⟨fun hk b => ⟨transposeCount k (a + b), ?_, transposed_whole k (a + b),
    inCircle_transposeCount hk (a + b)⟩, _, _, transposed_whole k a, pitchClass_majorName k, ?_⟩
  · rw [transposed_whole k a, ← transposeCount_add hk]
    exact transposed_whole (transposeCount k a) b
  · rw [← fifths_transposeCount]
    exact pitchClass_majorName _

theorem transposed_around_circle_from_Gb :
    InCircle (-6) ∧
      ∃ m, (do transposed (← transposed (.whole (-6)) (.whole 17)) (.whole (-30))) = .ok (.whole m) ∧
        transposed (.whole (-6)) (.whole (-13)) = .ok (.whole m) ∧ InCircle m :=
  ⟨by decide, (transposed_around_circle (-6) 17).1 (by decide) (-30)⟩

end LeadSheet.KeySignature
