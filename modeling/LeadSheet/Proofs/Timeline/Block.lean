import LeadSheet.Proofs.Timeline.Step
import Mathlib.Algebra.Order.Ring.Rat
import Mathlib.Tactic.Linarith

/-! What a block does to the cursor around it. -/
namespace LeadSheet.Cursor
variable {α : Type} [Timebase α]

/-- The cursor behind a block, by the one in front of it and the one at the end inside it. The
measure at hand starts where it did. -/
structure Frames (outer inner behind : Cursor) : Prop where
  start : behind.start = outer.start
  noteLength : behind.noteLength = outer.noteLength
  stretch : behind.stretch = outer.stretch
  key : behind.key = outer.key
  track : behind.track = outer.track
  measure : behind.measure = outer.measure
  defaultPitch : behind.defaultPitch = outer.defaultPitch
  position : behind.position = inner.position
  lastPitch : behind.lastPitch = inner.lastPitch
  measureLength : behind.measureLength = inner.measureLength
  measureStart : behind.nextMeasure - behind.measureLength = outer.nextMeasure - outer.measureLength

/-- The rules of a frame leave nothing about the cursor open. -/
theorem frames_iff {outer inner behind : Cursor} :
    Frames outer inner behind ↔ outer.leave inner = behind := by
  constructor
  · intro h
    have hn : behind.nextMeasure =
        outer.nextMeasure - outer.measureLength + inner.measureLength := by
      rw [← h.measureStart, ← h.measureLength, Rat.sub_add_cancel]
    obtain ⟨_, _, _, _, _, _, _, _, _, _, _⟩ := behind
    obtain ⟨rfl, rfl, rfl, rfl, rfl, rfl, rfl, rfl, rfl, rfl, -⟩ := h
    rw [leave, ← hn]
  · rintro rfl
    exact ⟨rfl, rfl, rfl, rfl, rfl, rfl, rfl, rfl, rfl, rfl, add_sub_cancel_right _ _⟩

/-- Only time signatures change the length of a measure. -/
theorem carried_measureLength :
    Carried Command.isTimeSignature fun c d => d.measureLength = c.measureLength where
  refl _ := rfl
  trans h₁ h₂ := h₂.trans h₁
  step {c d command} hk h := by
    cases command with
    | timeSignature beats unit => exact absurd hk (by simp [Command.isTimeSignature])
    | note name mark timing location =>
      obtain ⟨_, _, -, rfl⟩ := h
      rfl
    | rest timing =>
      rcases h with ⟨-, rfl⟩ | ⟨_, -, -, rfl⟩
      · rfl
      · rfl
    | track number =>
      obtain ⟨_, -, rfl⟩ := h
      rfl
    | measure number =>
      obtain rfl : d = c.toMeasure number := h
      cases number with
      | none => rfl
      | some n => rfl
    | _ =>
      obtain rfl : d = _ := h
      rfl
  block h := h

/-- Walking over a block succeeds exactly if the walk through its commands does, and then frames
the cursor; without time signatures at any depth the measures stay as they are. -/
theorem walk_block_frames (c behind : Cursor) (commands : List Command) :
    ((c.walk (.block commands) : Walk α).outcome = .ok behind ↔
        ∃ inner, (c.enter.walkAll commands : Walk α).outcome = .ok inner ∧
          Frames c inner behind) ∧
      (Command.occursIn Command.isTimeSignature commands = false →
        (c.walk (.block commands) : Walk α).outcome = .ok behind →
          behind.measureLength = c.measureLength ∧ behind.nextMeasure = c.nextMeasure) := by
  have hb : (c.walk (.block commands) : Walk α).outcome = .ok behind ↔
      ∃ inner, (c.enter.walkAll commands : Walk α).outcome = .ok inner ∧ Frames c inner behind := by
    simp only [walk_block_outcome, Except.map_eq_ok_iff, frames_iff]
  refine ⟨hb, ?_⟩
  intro hk h
  obtain ⟨inner, hi, hf⟩ := hb.mp h
  have hlength : behind.measureLength = c.measureLength :=
    hf.measureLength.trans (carried_measureLength.of_walkAll (c := c.enter) hk hi)
  refine ⟨hlength, ?_⟩
  have hstart := hf.measureStart
  rwa [hlength, sub_left_inj] at hstart

theorem walk_block_frames_nested :
    let commands : List Command :=
      [.tempo .double none, .rest .plain, .measure none, .keySignature (.whole 2) none,
        .block [.track (.whole 3), .rest .plain, .backToStart]]
    ∃ behind, ((initial 4).walk (.block commands) : Walk Rat).outcome = .ok behind ∧
      behind.measureLength = (initial 4).measureLength ∧
        behind.nextMeasure = (initial 4).nextMeasure := by
  intro commands
  have hw : ∃ behind, ((initial 4).walk (.block commands) : Walk Rat).outcome = .ok behind :=
    ⟨_, rfl⟩
  obtain ⟨behind, hb⟩ := hw
  exact ⟨behind, hb, (walk_block_frames (initial 4) behind commands).2 rfl hb⟩

end LeadSheet.Cursor
