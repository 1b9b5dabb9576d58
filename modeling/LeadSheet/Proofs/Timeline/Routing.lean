import LeadSheet.Proofs.Markup.Leaf
import LeadSheet.Proofs.Timeline.Step

/-!
Tracks. A command that sets the track only routes what follows: without such commands a walk tells the
same at the same times, all of it in one track.
-/
namespace LeadSheet
variable {α : Type}

namespace Command

mutual

/-- A command without the tracks that are set in it, at any depth; nothing if it sets one itself. -/
def withoutTracks : Command → List Command
  | .track _ => []
  | .block commands => [.block (withoutTracksIn commands)]
  | command => [command]

def withoutTracksIn : List Command → List Command
  | [] => []
  | command :: commands => withoutTracks command ++ withoutTracksIn commands

end

/-- If a command sets a track, the track has a number. -/
def Routes : Command → Prop
  | .track number => ∃ n, number.readInt = .ok n
  | _ => True

theorem Written.routes {command : Command} (h : command.Written) : command.Routes := by
  cases h with
  | track number => exact ⟨number, rfl⟩
  | _ => trivial

end Command

/-- The event in track zero. -/
def Event.unrouted : Event α → Event α
  | note _ name start duration location => note 0 name start duration location
  | clef _ beat sign => clef 0 beat sign
  | event => event

private theorem Event.mapTrack_zero : (mapTrack fun _ => 0 : Event α → Event α) = unrouted := by
  funext e
  cases e <;> rfl

/-- The cursor in track zero. -/
def Cursor.unrouted (c : Cursor) : Cursor := { c with track := 0 }

/-- What a step gives, in track zero. -/
def Cursor.unroutedStep (s : Cursor × List (Event α)) : Cursor × List (Event α) :=
  (s.1.unrouted, s.2.map Event.unrouted)

namespace Walk

/-- The walk in track zero. -/
def unrouted (w : Walk α) : Walk α := ⟨w.events.map Event.unrouted, w.outcome.map Cursor.unrouted⟩

private theorem unrouted_ofStep (r : Except Failure (Cursor × List (Event α))) :
    (ofStep r).unrouted = ofStep (r.map Cursor.unroutedStep) := by
  cases r <;> rfl

private theorem unrouted_andThen (w : Walk α) {next next' : Cursor → Walk α}
    (h : ∀ c, next' c.unrouted = (next c).unrouted) :
    (w.andThen next).unrouted = w.unrouted.andThen next' := by
  obtain ⟨events, outcome⟩ := w
  cases outcome with
  | error e => rfl
  | ok c =>
    rw [andThen, unrouted, unrouted, andThen]
    dsimp only [Except.map]
    rw [h, List.map_append]
    rfl

end Walk

namespace Cursor
variable [Timebase α]

private theorem walkAll_singleton (c : Cursor) (command : Command) :
    (c.walkAll [command] : Walk α) = c.walk command := by
  rw [walkAll]
  generalize (c.walk command : Walk α) = w
  obtain ⟨events, outcome⟩ := w
  cases outcome with
  | error e => rfl
  | ok d =>
    change (⟨events ++ [], .ok d⟩ : Walk α) = _
    rw [List.append_nil]

private theorem note_unrouted (c : Cursor) (name : String) (mark : Option Mark) (timing : Timing)
    (location : Option Location) :
    (c.unrouted.note name mark timing location : Except Failure (Cursor × List (Event α))) =
      (c.note name mark timing location).map unroutedStep := by
  change (c.length timing >>= _) = Except.map _ (c.length timing >>= _)
  refine Except.bind_eq_map_bind fun length => ?_
  change (c.soundingName name mark >>= _) = Except.map _ (c.soundingName name mark >>= _)
  refine Except.bind_eq_map_bind fun name => ?_
  change (c.place timing length >>= _) = Except.map _ (c.place timing length >>= _)
  refine Except.bind_eq_map_bind fun place => ?_
  refine Except.bind_eq_map_bind fun p => ?_
  refine Except.bind_eq_map_bind fun start => ?_
  refine Except.bind_eq_map_bind fun duration => ?_
  exact Except.bind_eq_map_bind fun location => rfl

/-- A step tells the same in track zero, unless it leaves it. -/
theorem step_unrouted (c : Cursor) {command : Command} (h : ∀ number, command ≠ .track number) :
    (c.unrouted.step command : Except Failure (Cursor × List (Event α))) =
      (c.step command).map unroutedStep := by
  by_cases hn : ∃ name mark timing location, command = .note name mark timing location
  · obtain ⟨name, mark, timing, location, rfl⟩ := hn
    exact note_unrouted c name mark timing location
  · have hstep := step_mapAside (α := α) (fun _ => 0) id c
      (fun _ _ _ _ hc => hn ⟨_, _, _, _, hc⟩) h
    rw [Event.mapTrack_zero] at hstep
    exact hstep

mutual

/-- Without tracks, the walk over a command tells the same in track zero. -/
theorem walk_withoutTracks (c : Cursor) {command : Command}
    (h : ∀ leaf ∈ command.leaves, leaf.Routes) :
    (c.unrouted.walkAll command.withoutTracks : Walk α) = (c.walk command).unrouted := by
  cases command with
  | block commands =>
    have hinner : (c.unrouted.enter.walkAll (Command.withoutTracksIn commands) : Walk α) = _ :=
      walkAll_withoutTracks c.enter h
    rw [Command.withoutTracks, walkAll_singleton, walk, walk, hinner]
    cases hw : (c.enter.walkAll commands : Walk α).outcome with
    | error e => simp only [Walk.unrouted, hw, Except.map]
    | ok d =>
      simp only [Walk.unrouted, hw, Except.map]
      rfl
  | track number =>
    obtain ⟨n, hn⟩ := h _ (List.mem_singleton_self _)
    rw [Command.withoutTracks, walk_of_not_block c rfl, step, hn]
    rfl
  | _ =>
    change (c.unrouted.walkAll [_] : Walk α) = _
    rw [walkAll_singleton, walk_of_not_block _ rfl, walk_of_not_block _ rfl,
      step_unrouted c (by intro _ h; cases h), Walk.unrouted_ofStep]

theorem walkAll_withoutTracks (c : Cursor) {commands : List Command}
    (h : ∀ leaf ∈ Command.leavesIn commands, leaf.Routes) :
    (c.unrouted.walkAll (Command.withoutTracksIn commands) : Walk α) =
      (c.walkAll commands).unrouted := by
  cases commands with
  | nil => rfl
  | cons command commands =>
    obtain ⟨hcommand, hcommands⟩ := List.forall_mem_append.mp h
    rw [Command.withoutTracksIn, walkAll_append, walk_withoutTracks c hcommand, walkAll]
    exact (Walk.unrouted_andThen _ fun d => walkAll_withoutTracks d hcommands).symm

end

end Cursor
end LeadSheet
