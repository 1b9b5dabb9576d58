import LeadSheet.Proofs.Markup.Outline
import Mathlib.Algebra.Order.Field.Basic
import Mathlib.Algebra.Order.Ring.Rat

/-! The commands of a text that are no blocks, and what they can be when a text writes them. -/
namespace LeadSheet

/-- A length is multiplied by a ratio that is not negative. -/
def Timing.Proper (timing : Timing) : Prop :=
  ∀ m ∈ timing.multiplier, ∃ q : Rat, 0 ≤ q ∧ m = .ratio q

theorem Timing.proper_of_ofWritten? {written : WrittenTiming} {timing : Timing}
    (h : ofWritten? written = some timing) : timing.Proper := by
  obtain ⟨scaling, dots, start⟩ := written
  intro m hm
  rw [ofWritten?] at h
  match scaling with
  | none =>
    cases h
    cases hm
  | some (.multiplied, n) =>
    cases h
    cases hm
    exact ⟨n, Nat.cast_nonneg n, rfl⟩
  | some (.divided, n) =>
    dsimp only at h
    split at h
    · cases h
    · cases h
      cases hm
      exact ⟨1 / n, div_nonneg zero_le_one (Nat.cast_nonneg n), rfl⟩

namespace Command

mutual

/-- The commands in a command that are no blocks, in the order of the text. -/
def leaves : Command → List Command
  | .block commands => leavesIn commands
  | command => [command]

def leavesIn : List Command → List Command
  | [] => []
  | command :: commands => leaves command ++ leavesIn commands

end

def isNote : Command → Bool
  | .note _ _ _ _ => true
  | _ => false

private theorem mem_leavesIn {commands : List Command} {leaf : Command} :
    leaf ∈ leavesIn commands ↔ ∃ command ∈ commands, leaf ∈ command.leaves := by
  induction commands with
  | nil => simp [leavesIn]
  | cons command commands ih => simp [leavesIn, ih]

/-- A command that is no block, as a text writes it. -/
inductive Written : Command → Prop
  | note {written : WrittenTiming} {timing : Timing} (name : String) (mark : Option Mark)
      (span : Span) (h : Timing.ofWritten? written = some timing) :
      Written (.note name mark timing (some (.span span)))
  | rest {written : WrittenTiming} {timing : Timing} (h : Timing.ofWritten? written = some timing) :
      Written (.rest timing)
  | backToStart : Written .backToStart
  | tempo (tempo : Tempo) (count : Option Nat) : Written (.tempo tempo (count.map Int.ofNat))
  | measure (number : Option Nat) : Written (.measure (number.map Int.ofNat))
  | track (number : Nat) : Written (.track (.whole number))
  | clef (letter : Char) : Written (.clef (.character letter))
  | keySignature (count : Int) (span : Span) :
      Written (.keySignature (.whole count) (some (.span span)))
  | timeSignature (beats : Nat) {unit : Nat} (h : unit ≠ 0) :
      Written (.timeSignature (.whole beats) unit)
  | chord (name : String) : Written (.chord name)
  | remark (text : String) : Written (.remark (.text text))
  | field (key value : String) : Written (.field (.text key) (.text value))

theorem leaves_of_written {command : Command} (h : command.Written) :
    command.leaves = [command] := by
  cases h <;> rfl

/-- What a word stands for is written. -/
theorem written_of_ofWord {start stop : Nat} {written : String} {word : Word} {command : Command}
    (h : ofWord start stop written word = .ok command) : command.Written := by
  cases word with
  | note n =>
    rw [ofWord] at h
    split at h
    · cases h
    · next ht =>
      cases h
      exact .note _ _ _ ht
  | rest timing =>
    rw [ofWord] at h
    split at h
    · cases h
    · next ht =>
      cases h
      exact .rest ht
  | timeSignature beats unit =>
    rw [ofWord] at h
    split at h
    · cases h
    · next hu =>
      cases h
      exact .timeSignature beats hu
  | keySignature count =>
    cases h
    exact .keySignature count _
  | tempo change count =>
    cases h
    exact .tempo change count
  | measure number =>
    cases h
    exact .measure number
  | track number =>
    cases h
    exact .track number
  | clef letter =>
    cases h
    exact .clef letter

/-- What holds of the commands that words, chords, remarks and fields stand for holds of every command
of a text that is no block, at any depth. -/
theorem forall_leaf_of_parse {P : Command → Prop}
    (hword : ∀ {start stop written word command}, ofWord start stop written word = .ok command →
      P command)
    (hchord : ∀ name, P (.chord name)) (hback : P .backToStart)
    (hremark : ∀ text, P (.remark (.text text)))
    (hfield : ∀ key value, P (.field (.text key) (.text value)))
    {text : String} {commands : List Command} (h : parse text = .ok commands) :
    ∀ leaf ∈ leavesIn commands, P leaf := by
  have hinherited : Inherited fun command => ∀ leaf ∈ command.leaves, P leaf :=
    { word := fun {_ _ _ _ _} h => by
        rw [leaves_of_written (written_of_ofWord h)]
        exact List.forall_mem_singleton.mpr (hword h)
      chord := fun name => List.forall_mem_singleton.mpr (hchord name)
      backToStart := List.forall_mem_singleton.mpr hback
      remark := fun text => List.forall_mem_singleton.mpr (hremark text)
      block := fun {_} h leaf hl => by
        obtain ⟨command, hc, hl⟩ := mem_leavesIn.mp hl
        exact h command hc leaf hl }
  intro leaf hl
  obtain ⟨command, hc, hl⟩ := mem_leavesIn.mp hl
  exact hinherited.of_parse (fun key value => List.forall_mem_singleton.mpr (hfield key value)) h
    command hc leaf hl

/-- Every command of a text that is no block, at any depth, is one that a text writes. -/
theorem written_of_parse {text : String} {commands : List Command}
    (h : parse text = .ok commands) : ∀ leaf ∈ leavesIn commands, leaf.Written :=
  forall_leaf_of_parse written_of_ofWord .chord .backToStart .remark .field h

end Command
end LeadSheet
