import LeadSheet.Proofs.Harmony.Membership

/-!
Degrees of a scale whose steps lead upwards and fill an octave. The search for the degree of a note
finds the place of its pitch class, so the name at a degree has this degree; and a note is found in
the scale exactly if it has a degree, which it has exactly if some note of the scale is of its pitch
class.
-/
namespace LeadSheet.Scale
open NoteName

/-! ### The search for a degree -/

private theorem width_take_cons (step : Int) (steps : List Int) (k : Nat) :
    width ((step :: steps).take (k + 1)) = step + width (steps.take k) := rfl

/-- Where the search arrives at its target, it has gone up as many steps as it counted. -/
theorem climb_sound {steps : List Int} {target current degree d : Int}
    (h : climb target current degree steps = some d) :
    ∃ k : Nat, k < steps.length ∧ current + width (steps.take (k + 1)) = target ∧
      d = degree + (k + 1) := by
  induction steps generalizing current degree with
  | nil => cases h
  | cons step steps ih =>
    rw [climb] at h
    split at h
    · next hmet =>
      cases h
      exact ⟨0, by simp, by simpa [width] using hmet, by simp⟩
    · split at h
      · cases h
      · obtain ⟨k, hk, htarget, rfl⟩ := ih h
        refine ⟨k + 1, Nat.succ_lt_succ hk, ?_, by omega⟩
        rw [width_take_cons]
        omega

private theorem width_take_pos {steps : List Int} (hpos : ∀ step ∈ steps, 0 < step) {k : Nat}
    (hk : 0 < k)
    (hle : k ≤ steps.length) : 0 < width (steps.take k) := by
  apply width_pos
  · intro hnil
    have hlength := congrArg List.length hnil
    rw [List.length_take, List.length_nil] at hlength
    omega
  · intro step hstep
    exact hpos step (List.mem_of_mem_take hstep)

/-- Steps upwards do not pass a target that they lead up to. -/
theorem climb_complete {steps : List Int} (hpos : ∀ step ∈ steps, 0 < step) {k : Nat}
    (hk : k < steps.length) (current degree : Int) :
    climb (current + width (steps.take (k + 1))) current degree steps = some (degree + (k + 1)) := by
  induction steps generalizing current degree k with
  | nil => cases hk
  | cons step steps ih =>
    obtain ⟨hstep, hrest⟩ := List.forall_mem_cons.mp hpos
    rw [width_take_cons, climb]
    cases k with
    | zero => rw [if_pos (by simp [width])]; simp
    | succ k =>
      have hk : k < steps.length := Nat.lt_of_succ_lt_succ hk
      have hwidth := width_take_pos hrest (k := k + 1) (by omega) hk
      rw [if_neg (by omega), if_neg (by omega), ← Int.add_assoc, ih hrest hk]
      congr 1
      omega

/-! ### Degrees of notes -/

section Degrees
variable {scale : Scale} {note : String} {r c : Int}

/-- In the first round, steps upwards that fill an octave lead to heights within it. -/
theorem height_bounds {steps : List Int} (hpos : ∀ step ∈ steps, 0 < step)
    (hwidth : width steps = octaveSize) {k : Nat} (hk : k < steps.length) :
    0 ≤ height steps k ∧ height steps k < 12 := by
  have hne : steps ≠ [] := List.length_pos_iff.mp (by omega)
  have hlow := (width_take_bounds (nonneg_of_pos hpos) k).1
  have hrest : 0 < width (steps.drop k) :=
    width_pos (List.drop_eq_nil_iff.not.mpr (by omega)) fun step hstep =>
      hpos step (List.mem_of_mem_drop hstep)
  have hsum := width_append (steps.take k) (steps.drop k)
  rw [List.take_append_drop, hwidth, octaveSize] at hsum
  rw [height_of_le hne hk.le]
  omega

private theorem degree_eq (hr : pitchClass scale.root = .ok r) (hc : pitchClass note = .ok c) :
    scale.degree note =
      if r = r + above r c then .ok 1
      else match climb (r + above r c) r 1 scale.steps with
        | some d => .ok d
        | none => .error (.notInScale note scale.root) := by
  rw [degree, reach_eq hr hc]
  rfl

/-- A note has the degree of the place that is as high above the root within the octave. -/
theorem degree_of_height (hr : pitchClass scale.root = .ok r) (hc : pitchClass note = .ok c)
    (hpos : ∀ step ∈ scale.steps, 0 < step) {k : Nat} (hk : k < scale.steps.length)
    (hheight : height scale.steps k = above r c) : scale.degree note = .ok (k + 1) := by
  have hne : scale.steps ≠ [] := List.length_pos_iff.mp (by omega)
  rw [degree_eq hr hc, ← hheight, height_of_le hne hk.le]
  cases k with
  | zero => rw [if_pos (by simp [width])]; rfl
  | succ k =>
    have hup : 0 < width (scale.steps.take (k + 1)) := width_take_pos hpos (by omega) hk.le
    rw [if_neg (by omega), climb_complete hpos (by omega)]
    dsimp only
    congr 1
    omega

/-- A degree is that of a place as high above the root as the note. -/
theorem height_of_degree (hr : pitchClass scale.root = .ok r) (hc : pitchClass note = .ok c)
    (hne : scale.steps ≠ []) {d : Int} (h : scale.degree note = .ok d) :
    ∃ k : Nat, height scale.steps k = above r c := by
  rw [degree_eq hr hc] at h
  split at h
  · next hroot => exact ⟨0, by rw [Int.natCast_zero, height_zero]; omega⟩
  · split at h
    · next d' hclimb =>
      obtain ⟨k, hk, htarget, -⟩ := climb_sound hclimb
      refine ⟨k + 1, ?_⟩
      rw [height_of_le hne (by omega)]
      omega
    · cases h

/-- The name at a degree is that of its place in the first round, without octave. -/
theorem degreeName_eq {p : Int} {flat : Bool} (hp : pitch (withOctave scale.root 0) = .ok p)
    (hflat : scale.isFlat = .ok flat) (hne : scale.steps ≠ []) (d : Int) :
    scale.degreeName d = .ok (stripOctave (spell
      (p + height scale.steps ((d - 1) % (scale.steps.length : Int)))
      (scale.chromatic || !flat))) := by
  have hpos : 0 < (scale.steps.length : Int) := Int.natCast_pos.mpr (List.length_pos_iff.mpr hne)
  obtain ⟨k, hk⟩ := Int.eq_ofNat_of_zero_le (Int.emod_nonneg (d - 1) (Int.ne_of_gt hpos))
  have hcount : ((d - 1) % (scale.steps.length : Int) + 1).toNat = k + 1 := by omega
  rw [degreeName, checkSteps, if_neg (by simpa using hne)]
  refine Except.bind_eq_ok_iff.mpr ⟨(), rfl, ?_⟩
  dsimp only
  rw [hcount, hk, range_eq_heights hp hflat hne]
  refine Except.bind_eq_ok_iff.mpr ⟨_, rfl, ?_⟩
  rw [List.range_succ, List.map_append, List.map_singleton, List.getLast?_concat, Option.getD_some,
    Int.zero_add]
  rfl

theorem degreeName_of_endsLine (hbare : isBare scale.root = true) (hline : EndsLine scale.root)
    (hne : scale.steps ≠ []) (d : Int) :
    scale.degreeName d = .error (.noPitch (withOctave scale.root 0)) := by
  rw [degreeName, checkSteps, if_neg (by simpa using hne)]
  change (scale.range 0 _ 0 >>= _) = _
  rw [range_of_endsLine hbare hline]
  rfl

private theorem exists_degreeName (hbare : isBare scale.root = true) (hline : ¬ EndsLine scale.root)
    (hpos : ∀ step ∈ scale.steps, 0 < step) (hwidth : width scale.steps = octaveSize) (d : Int) :
    ∃ name, scale.degreeName d = .ok name ∧
      scale.degree name = .ok ((d - 1) % (scale.steps.length : Int) + 1) := by
  have hne : scale.steps ≠ [] := ne_nil_of_width_pos (width_pos_of_octave hwidth)
  have hlength : 0 < (scale.steps.length : Int) :=
    Int.natCast_pos.mpr (List.length_pos_iff.mpr hne)
  have hlt := Int.emod_lt_of_pos (d - 1) hlength
  obtain ⟨k, hk⟩ := Int.eq_ofNat_of_zero_le (Int.emod_nonneg (d - 1) (Int.ne_of_gt hlength))
  obtain ⟨lowest, hr, hpitch⟩ := exists_pitch_withOctave hbare hline
  obtain ⟨flat, hflat⟩ := exists_isFlat scale hbare
  refine ⟨_, degreeName_eq (hpitch 0) hflat hne d, ?_⟩
  rw [hk]
  refine degree_of_height hr (pitchClass_stripOctave_spell _ _) hpos (by omega) ?_
  have hbounds := height_bounds hpos hwidth (show k < scale.steps.length by omega)
  simp only [above, octaveSize]
  omega

/-- Some note of the scale is of a pitch class exactly if some place of the first octave is. -/
theorem exists_note_iff (hbare : isBare scale.root = true) (hline : ¬ EndsLine scale.root)
    (hr : pitchClass scale.root = .ok r) (hc : pitchClass note = .ok c)
    (hnonneg : ∀ step ∈ scale.steps, 0 ≤ step) (hwidth : width scale.steps = octaveSize) :
    (∃ octave count offset names, scale.range octave count offset = .ok names ∧
      ∃ name ∈ names, sameClass name note = .ok true) ↔
        ∃ k : Nat, height scale.steps k = above r c := by
  have hne : scale.steps ≠ [] := ne_nil_of_width_pos (width_pos_of_octave hwidth)
  have hsame (q : Int) (sharpen : Bool) :
      sameClass (spell q sharpen) note = .ok (decide (q % octaveSize = c)) := by
    rw [sameClass, pitchClass_spell, hc]
    rfl
  obtain ⟨hc0, hc12⟩ := pitchClass_bounds hc
  constructor
  · rintro ⟨octave, count, offset, names, hnames, name, hname, hclass⟩
    obtain ⟨p, flat, hp, rfl⟩ := range_eq_ok hbare hne hnames
    obtain ⟨j, -, rfl⟩ := List.mem_map.mp hname
    obtain ⟨k, -, hk⟩ := exists_height_emod hne hnonneg hwidth (offset + j)
    obtain rfl := Except.ok.inj (hr.symm.trans hp)
    have hsum := of_decide_eq_true (Except.ok.inj ((hsame _ _).symm.trans hclass))
    refine ⟨k, ?_⟩
    simp only [hk, above, octaveSize] at hsum ⊢
    omega
  · rintro ⟨k, hk⟩
    obtain ⟨lowest, hclass, hpitch⟩ := exists_pitch_withOctave hbare hline
    obtain ⟨flat, hflat⟩ := exists_isFlat scale hbare
    obtain rfl := Except.ok.inj (hr.symm.trans hclass)
    refine ⟨(0 : Nat), 1, k, _, range_eq_heights (hpitch 0) hflat hne 1 k, _,
      List.mem_map_of_mem (List.mem_range.mpr Nat.one_pos), ?_⟩
    rw [hsame, Int.natCast_zero, Int.add_zero, hk, decide_eq_true]
    simp only [above, octaveSize]
    omega

/-- A note is found in a scale of an octave exactly if it has a degree in it, and exactly if some note
of the scale is of its pitch class. The name at a degree, which may lie beyond the octave in either
direction, has the degree it stands for within the octave; only a root with a line feed behind it
leads to no names. -/
theorem degrees_agree (hroot : checkRoot scale.root = .ok ())
    (hpos : ∀ step ∈ scale.steps, 0 < step) (hwidth : width scale.steps = octaveSize) :
    (∀ note c, pitchClass note = .ok c → ∃ found, scale.contains note = .ok found ∧
      (found = true ↔ ∃ d, scale.degree note = .ok d) ∧
      (¬ EndsLine scale.root → (found = true ↔
        ∃ octave count offset names, scale.range octave count offset = .ok names ∧
          ∃ name ∈ names, sameClass name note = .ok true))) ∧
      (¬ EndsLine scale.root → ∀ d : Int, ∃ name, scale.degreeName d = .ok name ∧
        scale.degree name = .ok ((d - 1) % (scale.steps.length : Int) + 1)) ∧
      (EndsLine scale.root → ∀ d : Int,
        scale.degreeName d = .error (.noPitch (withOctave scale.root 0))) := by
  have hbare := checkRoot_eq_ok_iff.mp hroot
  have hnonneg := nonneg_of_pos hpos
  have hup := width_pos_of_octave hwidth
  have hne := ne_nil_of_width_pos hup
  obtain ⟨r, hr⟩ := exists_pitchClass_of_isBare hbare
  refine ⟨?_, ?_, ?_⟩
  · intro note c hc
    obtain ⟨found, hcontains, hfound⟩ := exists_contains hr hc hnonneg hup
    refine ⟨found, hcontains, hfound.trans ⟨?_, ?_⟩, fun hline =>
      hfound.trans (exists_note_iff hbare hline hr hc hnonneg hwidth).symm⟩
    · rintro ⟨i, hi⟩
      obtain ⟨k, hk, hheight⟩ := exists_height_emod hne hnonneg hwidth i
      have hbounds := above_bounds r c
      rw [hi, octaveSize, Int.emod_eq_of_lt hbounds.1 hbounds.2] at hheight
      exact ⟨_, degree_of_height hr hc hpos hk hheight⟩
    · rintro ⟨d, hd⟩
      exact height_of_degree hr hc hne hd
  · exact fun hline d => exists_degreeName hbare hline hpos hwidth d
  · exact fun hline d => degreeName_of_endsLine hbare hline hne d

end Degrees

theorem degrees_agree_Cb :
    let minor : Scale := ⟨"Cb", ScaleKind.harmonicMinor.steps, true, false⟩
    checkRoot minor.root = .ok () ∧ (∀ step ∈ minor.steps, 0 < step) ∧
      width minor.steps = octaveSize ∧ ¬ EndsLine minor.root ∧ pitchClass "B#3" = .ok 0 ∧
      (∃ name, minor.degreeName (-13) = .ok name ∧ minor.degree name = .ok 1) ∧
      ∃ found, minor.contains "B#3" = .ok found ∧
        (found = true ↔ ∃ d, minor.degree "B#3" = .ok d) := by
  intro minor
  have hroot : checkRoot minor.root = .ok () := by decide
  have hpos : ∀ step ∈ minor.steps, 0 < step := by decide
  have hwidth : width minor.steps = octaveSize := by decide
  have hline : ¬ EndsLine minor.root := by decide
  have hc : pitchClass "B#3" = .ok 0 := by decide
  obtain ⟨hnotes, hnames, -⟩ := degrees_agree hroot hpos hwidth
  obtain ⟨found, hcontains, hfound, -⟩ := hnotes "B#3" 0 hc
  obtain ⟨name, hname, hdegree⟩ := hnames hline (-13)
  exact ⟨hroot, hpos, hwidth, hline, hc, ⟨name, hname, hdegree.trans (by decide)⟩, found,
    hcontains, hfound⟩

/-- No degree has a name where the root has a line feed behind it. -/
theorem not_degreeName_line_feed :
    ∃ scale, onRoot .major "C\n" = .ok scale ∧ (∀ step ∈ scale.steps, 0 < step) ∧
      width scale.steps = octaveSize ∧ scale.degreeName 1 = .error (.noPitch "C\n0") :=
  ⟨_, rfl, by decide, by decide, rfl⟩

end LeadSheet.Scale
