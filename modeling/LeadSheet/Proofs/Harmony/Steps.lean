import LeadSheet.Harmony.Scale
import Mathlib.Data.Int.Init

/-!
Steps that are repeated without end in both directions. There is one sequence of pitches with given
steps and a given pitch at place zero; the walks of a scale, down and up, go along it. A whole round
of the steps leads up by their width.
-/
namespace LeadSheet.Scale
variable {steps : List Int} {P Q : Int → Int}

/-- A pitch for every place, each above the one before by the step that leads up to it. -/
def Follows (steps : List Int) (P : Int → Int) : Prop := ∀ i, P (i + 1) - P i = stepAt steps i

theorem Follows.add_one (h : Follows steps P) (i : Int) : P (i + 1) = P i + stepAt steps i := by
  have hi := h i
  omega

/-- The steps and one pitch tell all pitches. -/
theorem Follows.eq (hP : Follows steps P) (hQ : Follows steps Q) (h : P 0 = Q 0) : P = Q := by
  funext i
  induction i using Int.induction_on with
  | zero => exact h
  | succ i ih => rw [hP.add_one, hQ.add_one, ih]
  | pred i ih =>
    have hP := hP.add_one (-i - 1)
    have hQ := hQ.add_one (-i - 1)
    rw [Int.sub_add_cancel] at hP hQ
    omega

private theorem stepAt_add_mul (steps : List Int) (i rounds : Int) :
    stepAt steps (i + rounds * steps.length) = stepAt steps i := by
  rw [stepAt, Int.add_mul_emod_self_right, stepAt]

private theorem Follows.shift (h : Follows steps P) (rounds : Int) :
    Follows steps fun i => P (i + rounds * steps.length) := by
  intro i
  have hi := h (i + rounds * steps.length)
  rw [stepAt_add_mul] at hi
  rw [← hi, Int.add_right_comm]

theorem Follows.raise (h : Follows steps P) (interval : Int) :
    Follows steps fun i => interval + P i := by
  intro i
  have hi := h i
  dsimp only
  omega

/-! ### Walks -/

theorem Follows.descend (h : Follows steps P) (count : Nat) (place : Int) :
    descend steps count place (P place) = (place - count, P (place - count)) := by
  induction count generalizing place with
  | zero => simp [Scale.descend]
  | succ count ih =>
    have hstep : P place - stepAt steps (place - 1) = P (place - 1) := by
      have hone := h.add_one (place - 1)
      rw [Int.sub_add_cancel] at hone
      omega
    have hplace : place - 1 - count = place - (count + 1 : Nat) := by omega
    rw [Scale.descend, hstep, ih, hplace]

private theorem Follows.ascend (h : Follows steps P) (count : Nat) (place : Int) :
    ascend steps count place (P place) = (List.range count).map fun (j : Nat) => P (place + j) := by
  induction count generalizing place with
  | zero => rfl
  | succ count ih =>
    rw [Scale.ascend, ← h.add_one, ih, List.range_succ_eq_map, List.map_cons, List.map_map]
    congr 1
    · simp
    · apply List.map_congr_left
      intro j _
      simp only [Function.comp]
      congr 1
      omega

/-- A walk up can start at any place that is whole rounds away. -/
theorem Follows.ascend_emod (h : Follows steps P) (count : Nat) (place : Int) :
    Scale.ascend steps count (place % (steps.length : Int)) (P place) =
      (List.range count).map fun (j : Nat) => P (place + j) := by
  have hplace : place % (steps.length : Int) + place / steps.length * steps.length = place :=
    Int.emod_add_ediv_mul place steps.length
  have hwalk := (h.shift (place / steps.length)).ascend count (place % (steps.length : Int))
  simp only [Int.add_right_comm _ _ (place / _ * _), hplace] at hwalk
  exact hwalk

/-! ### Heights -/

/-- How far the note at a place lies above the root: whole rounds of the steps, and the first
steps of one more. -/
def height (steps : List Int) (place : Int) : Int :=
  place / (steps.length : Int) * width steps
    + width (steps.take (place % (steps.length : Int)).toNat)

theorem width_append (steps more : List Int) : width (steps ++ more) = width steps + width more := by
  induction steps with
  | nil => simp [width]
  | cons step steps ih =>
    simp only [width, List.cons_append, List.foldr_cons] at ih ⊢
    omega

private theorem width_take_add_one {k : Nat} (hk : k < steps.length) :
    width (steps.take (k + 1)) = width (steps.take k) + steps[k] := by
  rw [List.take_add_one, List.getElem?_eq_getElem hk, width_append]
  simp [width]

theorem height_zero (steps : List Int) : height steps 0 = 0 := by simp [height, width]

/-- Every place is some whole rounds away from one of the first round. -/
theorem exists_round (hne : steps ≠ []) (i : Int) :
    ∃ (rounds : Int) (k : Nat), k < steps.length ∧ i = rounds * steps.length + k := by
  have hpos : 0 < (steps.length : Int) := Int.natCast_pos.mpr (List.length_pos_iff.mpr hne)
  have hnonneg : 0 ≤ i % steps.length := Int.emod_nonneg i (by omega)
  have hlt : i % steps.length < steps.length := Int.emod_lt_of_pos i hpos
  have hparts : i / steps.length * steps.length + i % steps.length = i :=
    Int.ediv_mul_add_emod i steps.length
  exact ⟨i / steps.length, (i % steps.length).toNat, by omega, by omega⟩

private theorem stepAt_round (rounds : Int) {k : Nat} (hk : k < steps.length) :
    stepAt steps (rounds * steps.length + k) = steps[k] := by
  rw [Int.add_comm, stepAt_add_mul, stepAt, Int.emod_eq_of_lt (by omega) (by omega),
    Int.toNat_natCast, List.getD_eq_getElem?_getD, List.getElem?_eq_getElem hk, Option.getD_some]

theorem height_round (rounds : Int) {k : Nat} (hk : k < steps.length) :
    height steps (rounds * steps.length + k) = rounds * width steps + width (steps.take k) := by
  have hlt : (k : Int) < steps.length := by omega
  have hmod : (rounds * steps.length + k) % (steps.length : Int) = k := by
    rw [Int.add_comm, Int.add_mul_emod_self_right, Int.emod_eq_of_lt (by omega) hlt]
  have hdiv : (rounds * steps.length + k) / (steps.length : Int) = rounds := by
    rw [Int.add_comm, Int.add_mul_ediv_right _ _ (by omega), Int.ediv_eq_zero_of_lt (by omega) hlt,
      Int.zero_add]
  rw [height, hmod, hdiv, Int.toNat_natCast]

/-- The same up to the end of a round, where the next one starts. -/
theorem height_round_of_le (hne : steps ≠ []) (rounds : Int) {k : Nat} (hk : k ≤ steps.length) :
    height steps (rounds * steps.length + k) = rounds * width steps + width (steps.take k) := by
  by_cases hlt : k < steps.length
  · exact height_round rounds hlt
  · obtain rfl : k = steps.length := by omega
    have hnext := height_round (rounds + 1) (List.length_pos_iff.mpr hne)
    have hplace : (rounds + 1) * steps.length + (0 : Nat) = rounds * steps.length + steps.length := by
      rw [Int.add_mul]
      omega
    rw [hplace, List.take_zero, Int.add_mul] at hnext
    rw [hnext, List.take_length]
    simp [width]

/-- In the first round, heights are sums of the first steps. -/
theorem height_of_le (hne : steps ≠ []) {k : Nat} (hk : k ≤ steps.length) :
    height steps k = width (steps.take k) := by
  have hround := height_round_of_le hne 0 hk
  rwa [Int.zero_mul, Int.zero_mul, Int.zero_add, Int.zero_add] at hround

/-- Heights are the sequence with the root at zero. -/
theorem follows_height (hne : steps ≠ []) : Follows steps (height steps) := by
  intro i
  obtain ⟨rounds, k, hk, rfl⟩ := exists_round hne i
  have hnext := height_round_of_le hne rounds (k := k + 1) hk
  rw [width_take_add_one hk, Int.natCast_succ, ← Int.add_assoc] at hnext
  rw [stepAt_round rounds hk, height_round rounds hk]
  omega

/-- A sequence is told by its steps and its root. -/
theorem Follows.eq_height (h : Follows steps P) (hne : steps ≠ []) (i : Int) :
    P i = P 0 + height steps i := by
  have hraise := (follows_height hne).raise (P 0)
  have hroot : P 0 = P 0 + height steps 0 := by rw [height_zero, Int.add_zero]
  exact congrFun (h.eq hraise hroot) i

theorem Follows.add_length (h : Follows steps P) (hne : steps ≠ []) (i : Int) :
    P (i + steps.length) = P i + width steps := by
  have hshift := (h.shift 1).eq_height hne i
  have hround := height_of_le hne (Nat.le_refl steps.length)
  rw [List.take_length] at hround
  have hzero := h.eq_height hne steps.length
  simp only [Int.one_mul, Int.zero_add] at hshift
  rw [h.eq_height hne i, hshift, hzero, hround]
  omega

/-! ### Steps that do not lead down -/

theorem nonneg_of_pos (h : ∀ step ∈ steps, 0 < step) : ∀ step ∈ steps, 0 ≤ step :=
  fun step hstep => Int.le_of_lt (h step hstep)

private theorem stepAt_nonneg (h : ∀ step ∈ steps, 0 ≤ step) (i : Int) : 0 ≤ stepAt steps i := by
  rw [stepAt, List.getD_eq_getElem?_getD]
  cases hstep : steps[(i % (steps.length : Int)).toNat]? with
  | none => simp
  | some step => exact h step (List.mem_of_getElem? hstep)

theorem Follows.monotone (hP : Follows steps P) (h : ∀ step ∈ steps, 0 ≤ step) {i j : Int}
    (hij : i ≤ j) : P i ≤ P j := by
  induction j, hij using Int.leInduction with
  | base => exact Int.le_refl (P i)
  | succ j _ ih =>
    have hstep := stepAt_nonneg h j
    rw [hP.add_one]
    omega

/-- Steps upwards never lead to the same pitch again. -/
theorem Follows.lt_of_lt (hP : Follows steps P) (hne : steps ≠ []) (h : ∀ step ∈ steps, 0 < step)
    {i j : Int} (hij : i < j) : P i < P j := by
  obtain ⟨rounds, k, hk, rfl⟩ := exists_round hne i
  have hstep := h _ (List.getElem_mem hk)
  have hle := hP.monotone (nonneg_of_pos h) (Int.add_one_le_of_lt hij)
  rw [hP.add_one, stepAt_round rounds hk] at hle
  omega

private theorem width_nonneg (h : ∀ step ∈ steps, 0 ≤ step) : 0 ≤ width steps := by
  induction steps with
  | nil => simp [width]
  | cons step steps ih =>
    obtain ⟨hstep, h⟩ := List.forall_mem_cons.mp h
    have hrest := ih h
    simp only [width, List.foldr_cons] at hrest ⊢
    omega

theorem width_pos (hne : steps ≠ []) (h : ∀ step ∈ steps, 0 < step) : 0 < width steps := by
  obtain ⟨step, rest, rfl⟩ := List.exists_cons_of_ne_nil hne
  obtain ⟨hstep, h⟩ := List.forall_mem_cons.mp h
  have hrest := width_nonneg (nonneg_of_pos h)
  simp only [width, List.foldr_cons] at hrest ⊢
  omega

theorem width_take_bounds (h : ∀ step ∈ steps, 0 ≤ step) (k : Nat) :
    0 ≤ width (steps.take k) ∧ width (steps.take k) ≤ width steps := by
  have hfront : 0 ≤ width (steps.take k) :=
    width_nonneg fun step hstep => h step (List.mem_of_mem_take hstep)
  have hback : 0 ≤ width (steps.drop k) :=
    width_nonneg fun step hstep => h step (List.mem_of_mem_drop hstep)
  have hsum := width_append (steps.take k) (steps.drop k)
  rw [List.take_append_drop] at hsum
  exact ⟨hfront, by omega⟩

theorem ne_nil_of_width_pos (h : 0 < width steps) : steps ≠ [] := by
  rintro rfl
  exact absurd h (by decide)

theorem width_pos_of_octave (h : width steps = octaveSize) : 0 < width steps := by
  rw [h]
  decide

/-- Where the steps fill an octave, every note has one of its pitch class in the first round. -/
theorem exists_height_emod (hne : steps ≠ []) (h : ∀ step ∈ steps, 0 ≤ step)
    (hwidth : width steps = octaveSize) (i : Int) :
    ∃ k : Nat, k < steps.length ∧ height steps k = height steps i % octaveSize := by
  obtain ⟨rounds, k, hk, rfl⟩ := exists_round hne i
  obtain ⟨hlow, hhigh⟩ := width_take_bounds h k
  rw [height_round rounds hk]
  simp only [hwidth, octaveSize] at hhigh ⊢
  -- closing steps of zero lead to the next root before the round is over
  by_cases hfull : width (steps.take k) = 12
  · refine ⟨0, List.length_pos_iff.mpr hne, ?_⟩
    rw [Int.natCast_zero, height_zero]
    omega
  · refine ⟨k, hk, ?_⟩
    rw [height_of_le hne (Nat.le_of_lt hk)]
    omega

/-- A walk that does not lead down meets a target exactly if one of its pitches is the target. -/
theorem Follows.meets_iff (hP : Follows steps P) (h : ∀ step ∈ steps, 0 ≤ step) (target : Int)
    (count : Nat) (place : Int) :
    meets steps target count place (P place) = true ↔
      ∃ i : Nat, i < count ∧ P (place + i) = target := by
  induction count generalizing place with
  | zero => simp [meets]
  | succ count ih =>
    have hplace (i : Nat) : place + 1 + i = place + (i + 1 : Nat) := by omega
    rw [meets, ← hP.add_one]
    split
    · next hpassed =>
      -- a walk that does not lead down never comes back to what it passed
      refine iff_of_false (by decide) ?_
      rintro ⟨i, -, hi⟩
      have hle := hP.monotone h (show place ≤ place + i by omega)
      omega
    · rw [Nat.exists_lt_succ_left]
      split
      · next hmet => simp [hmet]
      · next hlow =>
        rw [ih]
        simp [hlow, hplace]

end LeadSheet.Scale
