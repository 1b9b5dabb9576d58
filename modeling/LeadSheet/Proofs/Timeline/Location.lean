import LeadSheet.Proofs.Markup.Outline
import LeadSheet.Proofs.Timeline.Step

/-! Walks through commands hand locations on: without them, they do the same. -/
namespace LeadSheet
variable {α : Type}

/-- The event without its location. -/
def Event.withoutLocation : Event α → Event α
  | note track name start duration _ => note track name start duration none
  | keySignature beat count _ => keySignature beat count none
  | event => event

namespace Walk

/-- The walk without the locations of its events. -/
def withoutLocations (w : Walk α) : Walk α :=
  { w with events := w.events.map Event.withoutLocation }

private theorem withoutLocations_andThen (w : Walk α) (next : Cursor → Walk α) :
    (w.andThen next).withoutLocations =
      w.withoutLocations.andThen fun c => (next c).withoutLocations := by
  obtain ⟨events, outcome⟩ := w
  cases outcome with
  | error e => rfl
  | ok c =>
    rw [andThen, withoutLocations]
    dsimp only
    rw [List.map_append]
    rfl

theorem withoutLocations_ofStep (r : Except Failure (Cursor × List (Event α))) :
    (ofStep r).withoutLocations =
      ofStep (r.map fun s => (s.1, s.2.map Event.withoutLocation)) := by
  cases r <;> rfl

end Walk

namespace Cursor
variable [Timebase α]

theorem note_withoutLocation (c : Cursor) (name : String) (mark : Option Mark) (timing : Timing)
    (span : Span) :
    (c.note name mark timing none : Except Failure (Cursor × List (Event α))) =
      (c.note name mark timing (some (.span span))).map
        fun s => (s.1, s.2.map Event.withoutLocation) := by
  rw [note, note, Except.map_bind]
  apply bind_congr
  intro length
  rw [Except.map_bind]
  apply bind_congr
  intro name
  rw [Except.map_bind]
  apply bind_congr
  intro place
  rw [Except.map_bind]
  apply bind_congr
  intro p
  rw [Except.map_bind]
  apply bind_congr
  intro start
  rw [Except.map_bind]
  apply bind_congr
  intro duration
  rfl

/-- The step over a command without its location is the same. -/
theorem step_withoutLocations (c : Cursor) {command : Command} (h : command.Spanned)
    (hb : command.isBlock = false) :
    (c.step command.withoutLocations : Except Failure (Cursor × List (Event α))) =
      (c.step command).map fun s => (s.1, s.2.map Event.withoutLocation) := by
  cases command with
  | note name mark timing location =>
    obtain ⟨span, rfl⟩ := h location (List.mem_singleton_self _)
    exact note_withoutLocation c name mark timing span
  | rest timing =>
    change (c.rest timing >>= _) = Except.map _ (c.rest timing >>= _)
    rw [Except.map_bind]
    rfl
  | track number =>
    change (number.readInt >>= _) = Except.map _ (number.readInt >>= _)
    rw [Except.map_bind]
    rfl
  | clef | keySignature | remark =>
    change (c.beat >>= _) = Except.map _ (c.beat >>= _)
    rw [Except.map_bind]
    rfl
  | timeSignature beats unit =>
    change (c.changeMeter beats unit >>= _) = Except.map _ (c.changeMeter beats unit >>= _)
    rw [Except.map_bind]
    apply bind_congr
    intro d
    rw [Except.map_bind]
    rfl
  | chord name =>
    change c.step (.chord name) = _
    rw [step]
    split
    · rfl
    · rw [Except.map_bind]
      rfl
  | block => cases hb
  | backToStart | tempo | measure | unknown | invalid | field => rfl

mutual

/-- The walk over a command without its locations is the same without locations. -/
theorem walk_withoutLocations (c : Cursor) {command : Command} (h : command.Spanned) :
    (c.walk command.withoutLocations : Walk α) = (c.walk command).withoutLocations := by
  cases command with
  | block commands =>
    rw [Command.withoutLocations_block, walk, walk,
      walkAll_withoutLocations c.enter fun command hc location hl =>
        h location (Command.mem_locationsIn.mpr ⟨command, hc, hl⟩)]
    rfl
  | _ =>
    rw [walk_of_not_block c rfl, walk_of_not_block c rfl, step_withoutLocations c h rfl,
      Walk.withoutLocations_ofStep]

theorem walkAll_withoutLocations (c : Cursor) {commands : List Command}
    (h : ∀ command ∈ commands, command.Spanned) :
    (c.walkAll (commands.map Command.withoutLocations) : Walk α) =
      (c.walkAll commands).withoutLocations := by
  cases commands with
  | nil => rfl
  | cons command tail =>
    obtain ⟨hc, ht⟩ := List.forall_mem_cons.mp h
    rw [List.map_cons, walkAll, walkAll, walk_withoutLocations c hc,
      Walk.withoutLocations_andThen]
    congr 1
    funext d
    exact walkAll_withoutLocations d ht

end

end Cursor
end LeadSheet
