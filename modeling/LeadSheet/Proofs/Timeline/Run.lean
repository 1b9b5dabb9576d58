import LeadSheet.Proofs.Markup.Leaf
import LeadSheet.Proofs.Timeline.Step

/-!
Runs: walks that succeed, told stop by stop. A run meets the commands in the order of the text, those
inside a block where the block stands.
-/
namespace LeadSheet
variable {α : Type}

namespace Command

theorem leaves_of_not_block {command : Command} (h : command.isBlock = false) :
    command.leaves = [command] := by
  cases command with
  | block commands => cases h
  | _ => rfl

end Command

/-- A command met on a walk: the cursor in front of it, the events it makes, and the cursor behind
it. -/
structure Stop (α : Type) where
  command : Command
  front : Cursor
  events : List (Event α)
  behind : Cursor

namespace Cursor
variable [Timebase α]

/-- A walk through commands that succeeds: where it starts, its stops, and where it ends. -/
inductive Run : Cursor → List Command → List (Stop α) → Cursor → Prop
  | done (c : Cursor) : Run c [] [] c
  | step {c d e : Cursor} {command : Command} {commands : List Command} {events : List (Event α)}
      {stops : List (Stop α)} (hb : command.isBlock = false)
      (hs : c.step command = .ok (d, events)) (tail : Run d commands stops e) :
      Run c (command :: commands) (⟨command, c, events, d⟩ :: stops) e
  | block {c d e : Cursor} {inside commands : List Command} {stops stops' : List (Stop α)}
      (inner : Run c.enter inside stops d) (tail : Run (c.leave d) commands stops' e) :
      Run c (.block inside :: commands) (stops ++ stops') e

private theorem Run.cons {c d e : Cursor} {command : Command} {commands : List Command}
    {stops stops' : List (Stop α)} (head : Run c [command] stops d) (tail : Run d commands stops' e) :
    Run c (command :: commands) (stops ++ stops') e := by
  cases head with
  | step hb hs done =>
    cases done
    exact .step hb hs tail
  | block inner done =>
    cases done
    rw [List.append_nil]
    exact .block inner tail

mutual

/-- The walk over one command, when it succeeds, is a run with the events of its stops. -/
theorem run_of_walk {c e : Cursor} {command : Command}
    (h : (c.walk command : Walk α).outcome = .ok e) :
    ∃ stops : List (Stop α), Run c [command] stops e ∧
      (c.walk command : Walk α).events = stops.flatMap Stop.events := by
  cases command with
  | block inside =>
    rw [walk_block_outcome] at h
    obtain ⟨inner, hi, rfl⟩ := Except.map_eq_ok_iff.mp h
    obtain ⟨stops, hrun, hevents⟩ := run_of_walkAll hi
    refine ⟨stops ++ [], .block hrun (.done _), ?_⟩
    rw [List.append_nil]
    exact hevents
  | _ =>
    rw [walk_of_not_block c rfl] at h ⊢
    obtain ⟨events, hs⟩ := Walk.ofStep_outcome_eq_ok_iff.mp h
    refine ⟨[⟨_, c, events, e⟩], .step rfl hs (.done e), ?_⟩
    rw [hs, List.flatMap_singleton]
    rfl

theorem run_of_walkAll {c e : Cursor} {commands : List Command}
    (h : (c.walkAll commands : Walk α).outcome = .ok e) :
    ∃ stops : List (Stop α), Run c commands stops e ∧
      (c.walkAll commands : Walk α).events = stops.flatMap Stop.events := by
  cases commands with
  | nil =>
    obtain rfl : c = e := Except.ok.inj h
    exact ⟨[], .done c, rfl⟩
  | cons command tail =>
    obtain ⟨d, hd, ht⟩ := Walk.andThen_outcome_eq_ok_iff.mp h
    obtain ⟨stops, hrun, hevents⟩ := run_of_walk hd
    obtain ⟨stops', hrun', hevents'⟩ := run_of_walkAll ht
    refine ⟨stops ++ stops', hrun.cons hrun', ?_⟩
    rw [walkAll, Walk.andThen, hd]
    dsimp only
    rw [hevents, hevents', List.flatMap_append]

end

namespace Run
variable {c e : Cursor} {commands : List Command} {stops : List (Stop α)}

/-- A run stops at every command that is no block, once and in the order of the text. -/
theorem map_command (h : Run c commands stops e) :
    stops.map Stop.command = Command.leavesIn commands := by
  induction h with
  | done c => rfl
  | step hb hs tail ih =>
    rw [List.map_cons, ih, Command.leavesIn, Command.leaves_of_not_block hb]
    rfl
  | block inner tail hi ht =>
    rw [List.map_append, hi, ht]
    rfl

/-- At a stop the command is stepped over. -/
theorem step_of_mem (h : Run c commands stops e) {s : Stop α} (hs : s ∈ stops) :
    s.front.step s.command = .ok (s.behind, s.events) := by
  induction h with
  | done c => cases hs
  | step hb hstep tail ih =>
    rcases List.mem_cons.mp hs with rfl | hs
    · exact hstep
    · exact ih hs
  | block inner tail hi ht =>
    rcases List.mem_append.mp hs with hs | hs
    · exact hi hs
    · exact ht hs

/-- A run is a walk that succeeds. -/
theorem walkAll_eq (h : Run c commands stops e) :
    (c.walkAll commands : Walk α) = ⟨stops.flatMap Stop.events, .ok e⟩ := by
  induction h with
  | done c => rfl
  | step hb hs tail ih =>
    rw [walkAll, walk_of_not_block _ hb, hs, Walk.ofStep, Walk.andThen]
    dsimp only
    rw [ih, List.flatMap_cons]
  | block inner tail hi ht =>
    rw [walkAll, walk, hi, Walk.andThen]
    dsimp only [Except.map]
    rw [ht, List.flatMap_append]

theorem leaf_of_mem (h : Run c commands stops e) {s : Stop α} (hs : s ∈ stops) :
    s.command ∈ Command.leavesIn commands := by
  rw [← h.map_command]
  exact List.mem_map_of_mem hs

end Run
end Cursor
end LeadSheet
