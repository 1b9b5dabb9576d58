import LeadSheet.Markup.Outline
import LeadSheet.Proofs.Timeline.Run

/-!
Which time signature the lengths of a cursor belong to. A block gives the length of its measures to
what is behind it, but not the length of its notes. So behind a block with a time signature the two
may belong to different ones: notes to the time signature in force, measures to the one met last.
-/
namespace LeadSheet
variable {α : Type}

/-- Beats in a measure, each a fraction of a whole note. -/
structure Meter where
  beats : Int
  unit : Int
  deriving DecidableEq, Repr

namespace Meter

/-- The meter without a time signature. -/
def common : Meter := ⟨Ticks.defaultBeats, 4⟩

def noteLength (m : Meter) : Rat := Ticks.perBeat * 4 / m.unit

def measureLength (m : Meter) : Rat := m.noteLength * m.beats

end Meter

namespace Command

/-- The meter that a command sets. -/
def meter? : Command → Option Meter
  | .timeSignature beats unit => beats.toInt.toOption.map fun n => ⟨n, unit⟩
  | _ => none

private theorem meter?_of_isTimeSignature {command : Command}
    (h : command.isTimeSignature = false) :
    command.meter? = none := by
  cases command with
  | timeSignature => cases h
  | _ => rfl

private theorem occursIn_of_occurs_block {kind : Command → Bool} {inside : List Command}
    (h : occurs kind (.block inside) = false) : occursIn kind inside = false :=
  (Bool.or_eq_false_iff.mp h).2

/-- Time signatures stand outside blocks only. -/
def MetersOutside (commands : List Command) : Prop :=
  ∀ inside, .block inside ∈ commands → occursIn isTimeSignature inside = false

private theorem metersOutside_of_occursIn {commands : List Command}
    (h : occursIn isTimeSignature commands = false) : MetersOutside commands := by
  intro inside hi
  induction commands with
  | nil => cases hi
  | cons command commands ih =>
    obtain ⟨hc, h⟩ := Bool.or_eq_false_iff.mp h
    rcases List.mem_cons.mp hi with rfl | hi
    · exact occursIn_of_occurs_block hc
    · exact ih h hi

end Command

namespace Cursor

/-- A time signature sets both lengths. -/
theorem step_timeSignature [Timebase α] {c : Cursor} (beats : Int) {unit : Int} {b : α}
    (hu : unit ≠ 0) (hb : c.beat = .ok b) :
    c.step (.timeSignature (.whole beats) unit) =
      .ok ({ c with
          noteLength := (⟨beats, unit⟩ : Meter).noteLength
          measureLength := (⟨beats, unit⟩ : Meter).measureLength },
        [.timeSignature b (.whole beats)]) := by
  rw [step, changeMeter, if_neg hu, hb]
  rfl

end Cursor

/-- A place on the way through commands: the cursor, the commands ahead in the block at hand, the
meter in force, which ends with its block, and the one met last. -/
structure Outlook where
  cursor : Cursor
  ahead : List Command
  force : Meter
  latest : Meter

namespace Outlook

/-- In front of the commands of a piece. -/
def start (octave : Int) (commands : List Command) : Outlook :=
  ⟨.initial octave, commands, .common, .common⟩

variable [Timebase α]

/-- The places that a walk comes to, also when it fails later. -/
inductive Reaches (α : Type) [Timebase α] : Outlook → Outlook → Prop
  | refl (o : Outlook) : Reaches α o o
  | step {o : Outlook} {c d : Cursor} {command : Command} {ahead : List Command}
      {force latest : Meter} {events : List (Event α)}
      (front : Reaches α o ⟨c, command :: ahead, force, latest⟩) (hb : command.isBlock = false)
      (hs : c.step command = .ok (d, events)) :
      Reaches α o ⟨d, ahead, command.meter?.getD force, command.meter?.getD latest⟩
  | enter {o : Outlook} {c : Cursor} {inside ahead : List Command} {force latest : Meter}
      (front : Reaches α o ⟨c, .block inside :: ahead, force, latest⟩) :
      Reaches α o ⟨c.enter, inside, force, latest⟩
  | leave {o : Outlook} {c d : Cursor} {inside ahead : List Command}
      {force latest force' latest' : Meter}
      (front : Reaches α o ⟨c, .block inside :: ahead, force, latest⟩)
      (inner : Reaches α ⟨c.enter, inside, force, latest⟩ ⟨d, [], force', latest'⟩) :
      Reaches α o ⟨c.leave d, ahead, force, latest'⟩

/-- A run comes to its end and to both sides of each of its stops. -/
theorem reaches_of_run {c e : Cursor} {commands : List Command} {stops : List (Stop α)}
    (h : Cursor.Run c commands stops e) {o : Outlook} {force latest : Meter}
    (ho : Reaches α o ⟨c, commands, force, latest⟩) :
    (∃ force' latest', Reaches α o ⟨e, [], force', latest'⟩) ∧
      ∀ s ∈ stops, ∃ ahead force' latest',
        Reaches α o ⟨s.front, s.command :: ahead, force', latest'⟩ ∧
          Reaches α o ⟨s.behind, ahead, s.command.meter?.getD force',
            s.command.meter?.getD latest'⟩ := by
  induction h generalizing o force latest with
  | done c => exact ⟨⟨force, latest, ho⟩, fun _ hs => (List.not_mem_nil hs).elim⟩
  | @step c d e command commands events stops hb hs tail ih =>
    have hbehind := ho.step hb hs
    obtain ⟨hend, hstops⟩ := ih hbehind
    exact ⟨hend, List.forall_mem_cons.mpr ⟨⟨commands, force, latest, ho, hbehind⟩, hstops⟩⟩
  | @block c d e inside commands stops stops' inner tail hi ht =>
    obtain ⟨⟨force', latest', hinner⟩, -⟩ := hi (Reaches.refl ⟨c.enter, inside, force, latest⟩)
    obtain ⟨hend, hstops'⟩ := ht (ho.leave hinner)
    exact ⟨hend, List.forall_mem_append.mpr ⟨(hi ho.enter).2, hstops'⟩⟩

/-- The lengths of the cursor belong to the two meters. -/
structure Metered (o : Outlook) : Prop where
  noteLength : o.cursor.noteLength = o.force.noteLength
  measureLength : o.cursor.measureLength = o.latest.measureLength

private theorem metered_start (octave : Int) (commands : List Command) : (start octave commands).Metered := by
  have hnote : Ticks.perBeat = Meter.common.noteLength := by
    norm_num [Ticks.perBeat, Meter.noteLength, Meter.common]
  exact ⟨hnote, congrArg (· * (Ticks.defaultBeats : Rat)) hnote⟩

/-- A step other than over a time signature changes neither length; a time signature sets both. -/
theorem Metered.step {c d : Cursor} {command : Command} {ahead : List Command}
    {force latest : Meter} (h : Metered ⟨c, command :: ahead, force, latest⟩)
    (hm : c.Moves command d) :
    Metered ⟨d, ahead, command.meter?.getD force, command.meter?.getD latest⟩ := by
  obtain ⟨hnote, hmeasure⟩ := h
  cases command with
  | timeSignature beats unit =>
    obtain ⟨-, n, hn, rfl⟩ := Cursor.changeMeter_eq_ok hm
    rw [Command.meter?, hn]
    exact ⟨rfl, rfl⟩
  | note name mark timing location =>
    obtain ⟨_, _, -, rfl⟩ := hm
    exact ⟨hnote, hmeasure⟩
  | rest timing =>
    rcases hm with ⟨-, rfl⟩ | ⟨_, -, -, rfl⟩
    · exact ⟨hnote, hmeasure⟩
    · exact ⟨hnote, hmeasure⟩
  | track number =>
    obtain ⟨_, -, rfl⟩ := hm
    exact ⟨hnote, hmeasure⟩
  | measure number =>
    obtain rfl : d = c.toMeasure number := hm
    cases number with
    | none => exact ⟨hnote, hmeasure⟩
    | some n => exact ⟨hnote, hmeasure⟩
  | _ =>
    obtain rfl : d = _ := hm
    exact ⟨hnote, hmeasure⟩

private theorem Metered.of_reaches {o p : Outlook} (ho : o.Metered) (h : Reaches α o p) :
    p.Metered := by
  induction h with
  | refl o => exact ho
  | step front hb hs ih => exact (ih ho).step (Cursor.moves_of_step hs)
  | enter front ih => exact ⟨(ih ho).noteLength, (ih ho).measureLength⟩
  | leave front inner ih hi =>
    -- notes are as long as in front of the block, measures as at its end
    have hfront := ih ho
    exact ⟨hfront.noteLength, (hi ⟨hfront.noteLength, hfront.measureLength⟩).measureLength⟩

/-- Where no time signature is ahead the meters stay as they are. -/
theorem Reaches.meters_eq {o p : Outlook} (h : Reaches α o p)
    (ho : Command.occursIn Command.isTimeSignature o.ahead = false) :
    p.force = o.force ∧ p.latest = o.latest ∧
      Command.occursIn Command.isTimeSignature p.ahead = false := by
  induction h with
  | refl o => exact ⟨rfl, rfl, ho⟩
  | @step o c d command ahead force latest events front hb hs ih =>
    obtain ⟨hforce, hlatest, hahead⟩ := ih ho
    obtain ⟨hc, hahead⟩ := Bool.or_eq_false_iff.mp hahead
    have hkind : command.isTimeSignature = false := by
      cases command with
      | block => rfl
      | _ => exact hc
    rw [Command.meter?_of_isTimeSignature hkind]
    exact ⟨hforce, hlatest, hahead⟩
  | enter front ih =>
    obtain ⟨hforce, hlatest, hahead⟩ := ih ho
    exact ⟨hforce, hlatest, Command.occursIn_of_occurs_block (Bool.or_eq_false_iff.mp hahead).1⟩
  | leave front inner ih hi =>
    obtain ⟨hforce, hlatest, hahead⟩ := ih ho
    obtain ⟨hblock, hahead⟩ := Bool.or_eq_false_iff.mp hahead
    obtain ⟨-, hinner, -⟩ := hi (Command.occursIn_of_occurs_block hblock)
    exact ⟨hforce, hinner.trans hlatest, hahead⟩

/-- With time signatures outside blocks only, the meter in force is the one met last. -/
theorem Reaches.force_eq_latest {o p : Outlook} (h : Reaches α o p)
    (ho : Command.MetersOutside o.ahead) (heq : o.force = o.latest) :
    p.force = p.latest ∧ Command.MetersOutside p.ahead := by
  induction h with
  | refl o => exact ⟨heq, ho⟩
  | @step o c d command ahead force latest events front hb hs ih =>
    obtain ⟨hmeters, hahead⟩ := ih ho heq
    exact ⟨congrArg command.meter?.getD hmeters,
      fun inside hb => hahead inside (List.mem_cons_of_mem _ hb)⟩
  | enter front ih =>
    obtain ⟨hmeters, hahead⟩ := ih ho heq
    exact ⟨hmeters, Command.metersOutside_of_occursIn (hahead _ List.mem_cons_self)⟩
  | leave front inner ih hi =>
    obtain ⟨hmeters, hahead⟩ := ih ho heq
    obtain ⟨-, hinner, -⟩ := inner.meters_eq (hahead _ List.mem_cons_self)
    exact ⟨hmeters.trans hinner.symm, fun inside hb => hahead inside (List.mem_cons_of_mem _ hb)⟩

/-- Anywhere on the way through a piece the notes have the length that the time signature in force
sets, and the measures the one that the time signature met last sets. A measure has the beats of the
time signature in force exactly if both set the same length; so it is where time signatures stand
outside blocks only. -/
theorem Reaches.lengths {octave : Int} {commands : List Command} {o : Outlook}
    (h : Reaches α (start octave commands) o) :
    o.cursor.noteLength = o.force.noteLength ∧ o.cursor.measureLength = o.latest.measureLength ∧
      (o.cursor.measureLength = o.cursor.noteLength * o.force.beats ↔
        o.latest.measureLength = o.force.measureLength) ∧
      (Command.MetersOutside commands →
        o.cursor.measureLength = o.cursor.noteLength * o.force.beats) := by
  obtain ⟨hnote, hmeasure⟩ := (metered_start octave commands).of_reaches h
  have hiff : o.cursor.measureLength = o.cursor.noteLength * o.force.beats ↔
      o.latest.measureLength = o.force.measureLength := by
    rw [hnote, hmeasure]
    rfl
  refine ⟨hnote, hmeasure, hiff, ?_⟩
  intro houtside
  obtain ⟨hmeters, -⟩ := h.force_eq_latest houtside rfl
  exact hiff.mpr (by rw [hmeters])

/-- Behind a block in six eighths the lengths still belong together. -/
theorem Reaches.lengths_behind_block :
    ∃ o : Outlook,
      Reaches Number (start 4 [.timeSignature (.whole 6) 8, .block [.backToStart]]) o ∧
        o.ahead = [] ∧ o.force = ⟨6, 8⟩ ∧
        o.cursor.measureLength = o.cursor.noteLength * o.force.beats := by
  have hbeat : (Cursor.initial 4).beat = .ok (Number.approx (.finite 0)) := by decide +kernel
  have hfront := (Reaches.refl (α := Number)
    (start 4 [.timeSignature (.whole 6) 8, .block [.backToStart]])).step rfl
      (Cursor.step_timeSignature 6 (by decide) hbeat)
  have hbehind := hfront.leave ((Reaches.refl _).step rfl rfl)
  refine ⟨_, hbehind, rfl, rfl, hbehind.lengths.2.2.2 ?_⟩
  intro inside hi
  simp only [List.mem_cons, reduceCtorEq, Command.block.injEq, List.not_mem_nil, or_false,
    false_or] at hi
  rw [hi]
  rfl

/-- Behind a block in three eighths measures have its length, notes have the length they had. -/
theorem Reaches.lengths_apart :
    ∃ (commands : List Command) (o : Outlook), parse "\x7bts3/8\x7d" = .ok commands ∧
      Reaches Number (start 4 commands) o ∧ o.ahead = [] ∧ o.force = .common ∧
      o.cursor.noteLength = 48 ∧ o.cursor.measureLength = 72 ∧
      o.cursor.measureLength ≠ o.cursor.noteLength * o.force.beats := by
  have hbeat : (Cursor.initial 4).enter.beat = .ok (Number.approx (.finite 0)) := by
    decide +kernel
  have hinner := (Reaches.refl (α := Number)
    ⟨(Cursor.initial 4).enter, [.timeSignature (.whole 3) 8], .common, .common⟩).step rfl
      (Cursor.step_timeSignature 3 (by decide) hbeat)
  refine ⟨[.block [.timeSignature (.whole 3) 8]], _, rfl, .leave (.refl _) hinner, rfl, rfl, rfl,
    ?_, ?_⟩
  · decide +kernel
  · decide +kernel

end Outlook
end LeadSheet
