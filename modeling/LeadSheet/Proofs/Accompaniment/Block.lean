import LeadSheet.Accompaniment.Block
import LeadSheet.Proofs.Outcome
import Mathlib.Algebra.Order.Field.Basic
import Mathlib.Algebra.Order.Floor.Ring
import Mathlib.Data.Rat.Floor
import Mathlib.Tactic.Linarith

/-!
The blocks of chords. A block that is kept comes from a chord and ends with the measure it starts in,
or where the next block starts if that is earlier. In exact time it lasts for some time.
-/
namespace LeadSheet.ChordBlocks
variable {α β : Type}

section Timebase
variable [Timebase α]

/-- An end of a block: that of a measure, or a beat before it. -/
def EndsBy (stop ends : α) : Prop := ends = stop ∨ Timebase.lt ends stop = true

/-- A chord is placed up to the end of its measure or a beat before it, and its block kept if that
is behind its start. -/
theorem place_eq_ok {beats start : α} {chord : β} {blocks blocks' : ChordBlocks α β}
    (h : place beats start chord blocks = .ok blocks') :
    ∃ stop ends, measureEnd beats start = .ok stop ∧ EndsBy stop ends ∧
      blocks'.kept = if Timebase.le ends start then blocks.kept
        else ⟨start, ends, chord⟩ :: blocks.kept := by
  obtain ⟨stop, hstop, h⟩ := Except.bind_eq_ok_iff.mp h
  obtain rfl := Except.pure_eq_ok_iff.mp h
  refine ⟨stop, _, hstop, ?_, apply_ite ChordBlocks.kept _ _ _⟩
  split
  · exact .inl rfl
  · rw [Timebase.least]
    split
    · exact .inr ‹_›
    · exact .inl rfl

/-- What placing a chord keeps to holds of all blocks that are kept. -/
theorem forall_kept_ofChords {P : ChordBlock α β → Prop} {beats : α} {chords : List (α × β)}
    (h : ∀ start chord, (start, chord) ∈ chords → ∀ blocks blocks' : ChordBlocks α β,
      place beats start chord blocks = .ok blocks' → (∀ b ∈ blocks.kept, P b) →
        ∀ b ∈ blocks'.kept, P b) :
    ∀ b ∈ (ofChords beats chords).1.kept, P b := by
  induction chords with
  | nil => exact fun b hb => (List.not_mem_nil hb).elim
  | cons entry chords ih =>
    obtain ⟨start, chord⟩ := entry
    have hbehind := ih fun start chord hmem => h start chord (List.mem_cons_of_mem _ hmem)
    rw [ofChords]
    split
    · next heq =>
      rw [heq] at hbehind
      exact hbehind
    · next blocks heq =>
      rw [heq] at hbehind
      split
      · exact hbehind
      · next blocks' hplace =>
        exact h start chord (List.mem_cons_self ..) blocks blocks' hplace hbehind

/-- A block that a chord among others can have. -/
structure Placed (beats : α) (chords : List (α × β)) (b : ChordBlock α β) : Prop where
  mem : (b.start, b.chord) ∈ chords
  lasts : Timebase.le b.stop b.start = false
  inMeasure : ∃ stop, measureEnd beats b.start = .ok stop ∧ EndsBy stop b.stop

/-- Every block that is kept is one that a chord can have. -/
theorem placed_of_mem_ofChords {beats : α} {chords : List (α × β)} :
    ∀ b ∈ (ofChords beats chords).1.kept, Placed beats chords b := by
  apply forall_kept_ofChords
  intro start chord hmem blocks blocks' hplace hkept
  obtain ⟨stop, ends, hstop, hends, hplaced⟩ := place_eq_ok hplace
  rw [hplaced]
  split
  · exact hkept
  · next hlast =>
    exact List.forall_mem_cons.mpr
      ⟨⟨hmem, Bool.eq_false_of_not_eq_true hlast, stop, hstop, hends⟩, hkept⟩

theorem placed_of_mem_inMeasures {beats : Option α} {chords : List (α × β)}
    {b : ChordBlock α β} (h : b ∈ (inMeasures beats chords).1.kept) :
    ∃ n, beats = some n ∧ Placed n chords b := by
  cases beats with
  | none => cases h
  | some n =>
    rw [inMeasures] at h
    split at h
    · cases h
    · exact ⟨n, rfl, placed_of_mem_ofChords b h⟩

/-- Every block that is kept starts with a chord, as that chord. -/
theorem mem_of_mem_inMeasures {beats : Option α} {chords : List (α × β)} {b : ChordBlock α β}
    (h : b ∈ (inMeasures beats chords).1.kept) : (b.start, b.chord) ∈ chords := by
  obtain ⟨n, -, hplaced⟩ := placed_of_mem_inMeasures h
  exact hplaced.mem

end Timebase

/-! ### Exact time -/

/-- A block that a chord among others can have in exact time. -/
structure Lasts (beats : Rat) (chords : List (Rat × β)) (b : ChordBlock Rat β) : Prop where
  mem : (b.start, b.chord) ∈ chords
  lt : b.start < b.stop
  inMeasure : ∃ stop, measureEnd beats b.start = .ok stop ∧ b.stop ≤ stop

private theorem Placed.toLasts {beats : Rat} {chords : List (Rat × β)} {b : ChordBlock Rat β}
    (h : Placed beats chords b) : Lasts beats chords b := by
  obtain ⟨stop, hstop, hends⟩ := h.inMeasure
  refine ⟨h.mem, not_le.mp (of_decide_eq_false h.lasts), stop, hstop, ?_⟩
  rcases hends with heq | hlt
  · exact heq.le
  · exact (of_decide_eq_true hlt).le

theorem lasts_of_mem_inMeasures {beats : Option Rat} {chords : List (Rat × β)}
    {b : ChordBlock Rat β} (h : b ∈ (inMeasures beats chords).1.kept) :
    ∃ n, beats = some n ∧ Lasts n chords b := by
  obtain ⟨n, hn, hplaced⟩ := placed_of_mem_inMeasures h
  exact ⟨n, hn, hplaced.toLasts⟩

private theorem measureEnd_eq_ok {beats start stop : Rat} (h : measureEnd beats start = .ok stop) :
    beats ≠ 0 ∧ stop = ((start / beats).floor + 1) * beats := by
  obtain ⟨measure, hmeasure, hstop⟩ := Except.bind_eq_ok_iff.mp h
  obtain rfl : (measure + 1) * beats = stop := Except.ok.inj hstop
  change (if beats = 0 then _ else .ok ((start / beats).floor : Rat)) = Except.ok measure at hmeasure
  split at hmeasure
  · cases hmeasure
  · next hbeats =>
    obtain rfl := Except.ok.inj hmeasure
    exact ⟨hbeats, rfl⟩

/-- Only measures of a positive length end behind a beat in them. -/
theorem pos_of_lasts {beats : Rat} {chords : List (Rat × β)} {b : ChordBlock Rat β}
    (h : Lasts beats chords b) : 0 < beats := by
  obtain ⟨stop, hstop, hle⟩ := h.inMeasure
  obtain ⟨hbeats, rfl⟩ := measureEnd_eq_ok hstop
  by_contra hpos
  have hneg : beats < 0 := lt_of_le_of_ne (not_lt.mp hpos) hbeats
  -- an end behind the start would need a quotient that its floor exceeds
  have hquot : b.start / beats < ((b.start / beats).floor : Rat) + 1 := by
    exact_mod_cast Rat.lt_floor_add_one (b.start / beats)
  have hend := mul_lt_mul_of_neg_right hquot hneg
  rw [div_mul_cancel₀ _ hbeats] at hend
  exact (hend.trans (h.lt.trans_le hle)).false

/-- A block is no longer than a measure. -/
theorem Lasts.span_le {beats : Rat} {chords : List (Rat × β)} {b : ChordBlock Rat β}
    (h : Lasts beats chords b) : b.stop - b.start ≤ beats := by
  have hpos := pos_of_lasts h
  obtain ⟨stop, hstop, hle⟩ := h.inMeasure
  obtain ⟨hbeats, rfl⟩ := measureEnd_eq_ok hstop
  have hfloor : ((b.start / beats).floor : Rat) * beats ≤ b.start :=
    (le_div_iff₀ hpos).mp (Rat.floor_le _)
  linarith

end LeadSheet.ChordBlocks
