import LeadSheet.Proofs.Timeline.Step
import Mathlib.Algebra.Order.Ring.Rat

/-!
Measures in a row. A measure that just follows the last one is the one with the next number, as long
as what stands in the measures keeps inside them. So it does not matter whether their numbers are
written.
-/
namespace LeadSheet
variable {α : Type}

namespace Command

/-- Commands that say where measures are: measure commands and time signatures. -/
def setsMeasures : Command → Bool
  | .measure _ | .timeSignature _ _ => true
  | _ => false

/-- Groups of commands, each in a measure that follows the one before. -/
def inMeasures (groups : List (List Command)) : List Command :=
  groups.flatMap fun group => .measure none :: group

/-- Groups of commands, each in a measure with its number, counted from `n` on. -/
def inNumberedMeasures : Int → List (List Command) → List Command
  | _, [] => []
  | n, group :: groups => .measure (some n) :: (group ++ inNumberedMeasures (n + 1) groups)

theorem inMeasures_cons (group : List Command) (groups : List (List Command)) :
    inMeasures (group :: groups) = .measure none :: (group ++ inMeasures groups) :=
  List.flatMap_cons

end Command

namespace Cursor
open Command (setsMeasures inMeasures inNumberedMeasures)

/-- A cursor in front of the measure with a number, which starts where the measures before it end. -/
structure Faces (c : Cursor) (n : Int) : Prop where
  measure : c.measure + 1 = n
  nextMeasure : c.nextMeasure = n * c.measureLength
  position : c.position ≤ n * c.measureLength

/-- The next measure is the one with the number that the cursor faces. -/
theorem Faces.toMeasure {c : Cursor} {n : Int} (h : c.Faces n) :
    c.toMeasure none = c.toMeasure (some n) := by
  have hposition : (if c.nextMeasure < c.position then c.position else c.nextMeasure) =
      n * c.measureLength := by
    rw [h.nextMeasure, if_neg (not_lt.mpr h.position)]
  rw [Cursor.toMeasure, Cursor.toMeasure, hposition, h.measure, add_mul, one_mul]

/-- What stands in a measure leaves the measures as they are. -/
structure SameMeasures (c d : Cursor) : Prop where
  measure : d.measure = c.measure
  measureLength : d.measureLength = c.measureLength
  nextMeasure : d.nextMeasure = c.nextMeasure

private theorem carried_sameMeasures : Carried setsMeasures SameMeasures where
  refl _ := ⟨rfl, rfl, rfl⟩
  trans h₁ h₂ := ⟨h₂.measure.trans h₁.measure, h₂.measureLength.trans h₁.measureLength,
    h₂.nextMeasure.trans h₁.nextMeasure⟩
  step {c d command} hk h := by
    cases command with
    | measure | timeSignature => cases hk
    | note name mark timing location =>
      obtain ⟨_, _, -, rfl⟩ := h
      exact ⟨rfl, rfl, rfl⟩
    | rest timing =>
      rcases h with ⟨-, rfl⟩ | ⟨_, -, -, rfl⟩
      · exact ⟨rfl, rfl, rfl⟩
      · exact ⟨rfl, rfl, rfl⟩
    | track number =>
      obtain ⟨_, -, rfl⟩ := h
      exact ⟨rfl, rfl, rfl⟩
    | _ =>
      obtain rfl : d = _ := h
      exact ⟨rfl, rfl, rfl⟩
  block {c d} h := by
    refine ⟨rfl, h.measureLength, ?_⟩
    change c.nextMeasure - c.measureLength + d.measureLength = c.nextMeasure
    rw [h.measureLength]
    exact sub_add_cancel _ _

variable [Timebase α]

private theorem walkAll_measure (c : Cursor) (number : Option Int) (commands : List Command) :
    (c.walkAll (.measure number :: commands) : Walk α) = (c.toMeasure number).walkAll commands :=
  rfl

/-- From in front of a measure, a walk through this measure and those that follow is the same
whether they have their numbers, if nothing in them goes on behind their ends. -/
theorem Faces.walkAll_inMeasures {c : Cursor} {n : Int} (h : c.Faces n)
    {groups : List (List Command)}
    (hquiet : ∀ group ∈ groups, Command.occursIn setsMeasures group = false)
    (hwithin : ∀ k < groups.length, ∀ d,
      (c.walkAll (inMeasures (groups.take (k + 1))) : Walk α).outcome = .ok d →
        d.position ≤ (n + k + 1 : Int) * d.measureLength) :
    (c.walkAll (inMeasures groups) : Walk α) = c.walkAll (inNumberedMeasures n groups) := by
  induction groups generalizing c n with
  | nil => rfl
  | cons group groups ih =>
    obtain ⟨hgroup, hquiet⟩ := List.forall_mem_cons.mp hquiet
    rw [Command.inMeasures_cons, inNumberedMeasures, walkAll_measure, walkAll_measure, h.toMeasure,
      walkAll_append, walkAll_append]
    apply Walk.andThen_congr
    intro d hd
    have hsame := carried_sameMeasures.of_walkAll hgroup hd
    have hfront (k : Nat) : (c.walkAll (inMeasures ((group :: groups).take (k + 1))) : Walk α) =
        ((c.toMeasure (some n)).walkAll group).andThen
          fun d => d.walkAll (inMeasures (groups.take k)) := by
      rw [List.take_succ_cons, Command.inMeasures_cons, walkAll_measure, h.toMeasure,
        walkAll_append]
    -- behind the group the cursor faces the next measure
    have hfirst := hwithin 0 (Nat.succ_pos _) d (by
      rw [hfront, Walk.andThen_outcome_eq_ok_iff]
      exact ⟨d, hd, rfl⟩)
    have hfaces : d.Faces (n + 1) :=
      { measure := by rw [hsame.measure]; rfl
        nextMeasure := by
          rw [hsame.nextMeasure, hsame.measureLength]
          exact congrArg (· * c.measureLength) (by push_cast; rfl)
        position := by simpa using hfirst }
    apply ih hfaces hquiet
    intro k hk e he
    have hnext := hwithin (k + 1) (Nat.succ_lt_succ hk) e (by
      rw [hfront, Walk.andThen_outcome_eq_ok_iff]
      exact ⟨d, hd, he⟩)
    have hcast : n + (k + 1 : Nat) + 1 = n + 1 + k + 1 := by omega
    rwa [hcast] at hnext

end Cursor
end LeadSheet
