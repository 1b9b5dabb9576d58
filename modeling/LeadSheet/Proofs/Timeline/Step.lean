import LeadSheet.Proofs.Outcome
import LeadSheet.Timeline.Event

/-! What a step over a command does to the cursor, and what a walk through commands does when every
step keeps to some relation. -/
namespace LeadSheet
variable {α : Type}

namespace Command

mutual

/-- Whether a command is of some kind, or one inside it at any depth. -/
def occurs (kind : Command → Bool) : Command → Bool
  | .block commands => kind (.block commands) || occursIn kind commands
  | command => kind command

def occursIn (kind : Command → Bool) : List Command → Bool
  | [] => false
  | command :: commands => occurs kind command || occursIn kind commands

end

def isBlock : Command → Bool
  | .block _ => true
  | _ => false

def isTimeSignature : Command → Bool
  | .timeSignature _ _ => true
  | _ => false

end Command

/-- The event with its track changed, if it has one. -/
def Event.mapTrack (track : Int → Int) : Event α → Event α
  | note t name start duration location => note (track t) name start duration location
  | clef t beat sign => clef (track t) beat sign
  | event => event

theorem Event.mapTrack_id : (mapTrack id : Event α → Event α) = id := by
  funext e
  cases e <;> rfl

namespace Walk

theorem andThen_outcome_eq_ok_iff {w : Walk α} {next : Cursor → Walk α} {c : Cursor} :
    (w.andThen next).outcome = .ok c ↔ ∃ d, w.outcome = .ok d ∧ (next d).outcome = .ok c := by
  unfold andThen
  cases w.outcome with
  | error e => simp
  | ok d => simp

theorem andThen_outcome (w : Walk α) (next : Cursor → Walk α) :
    (w.andThen next).outcome = w.outcome >>= fun c => (next c).outcome := by
  obtain ⟨events, outcome⟩ := w
  cases outcome <;> rfl

theorem ofStep_outcome (r : Except Failure (Cursor × List (Event α))) :
    (ofStep r).outcome = r.map Prod.fst := by
  cases r <;> rfl

private theorem andThen_assoc (w : Walk α) (f g : Cursor → Walk α) :
    (w.andThen f).andThen g = w.andThen fun c => (f c).andThen g := by
  obtain ⟨events, outcome⟩ := w
  cases outcome with
  | error e => rfl
  | ok c =>
    simp only [andThen]
    split
    · rfl
    · rw [List.append_assoc]

/-- How a walk goes on matters only where it has come to. -/
theorem andThen_congr {w : Walk α} {f g : Cursor → Walk α}
    (h : ∀ c, w.outcome = .ok c → f c = g c) : w.andThen f = w.andThen g := by
  obtain ⟨events, outcome⟩ := w
  cases outcome with
  | error e => rfl
  | ok c =>
    dsimp only [andThen]
    rw [h c rfl]

theorem ofStep_outcome_eq_ok_iff {r : Except Failure (Cursor × List (Event α))} {c : Cursor} :
    (ofStep r).outcome = .ok c ↔ ∃ events, r = .ok (c, events) := by
  cases r with
  | error e => simp [ofStep]
  | ok s => simp [ofStep, Prod.ext_iff]

end Walk

namespace Cursor
variable [Timebase α]

/-- A length is made in three steps: the plain one is multiplied, the dots are put to it, and it is
rounded. -/
theorem length_eq (c : Cursor) (timing : Timing) : c.length timing =
    (match timing.multiplier with
      | some m => if m.isZero then .ok (.ratio (c.noteLength * c.stretch))
        else Number.mul (.ratio (c.noteLength * c.stretch)) m
      | none => .ok (.ratio (c.noteLength * c.stretch))) >>= fun multiplied =>
    (match timing.dots with
      | some k => if k = 0 then .ok multiplied
        else Ticks.dotted k >>= fun factor => multiplied.mul (.ratio factor)
      | none => .ok multiplied) >>= Ticks.round := by
  obtain ⟨multiplier, dots, start⟩ := timing
  have hdots (multiplied : Number) : (dots.elim (Ticks.round multiplied) fun k =>
      if k = 0 then Ticks.round multiplied else do
        Ticks.round (← multiplied.mul (.ratio (← Ticks.dotted k)))) =
      (match dots with
        | some k => if k = 0 then .ok multiplied
          else Ticks.dotted k >>= fun factor => multiplied.mul (.ratio factor)
        | none => .ok multiplied) >>= Ticks.round := by
    cases dots with
    | none => rfl
    | some k =>
      dsimp only [Option.elim_some]
      split
      · rfl
      · rw [bind_assoc]
  dsimp only
  rw [← funext hdots, length]
  cases multiplier with
  | none => cases dots <;> rfl
  | some m =>
    dsimp only
    split
    · cases dots <;> rfl
    · cases dots <;> rfl

/-- What a step over a command leaves of the cursor. -/
def Moves (c : Cursor) : Command → Cursor → Prop
  | .note _ _ timing _, d => ∃ length p, c.length timing = .ok length ∧
      d = { c with
        position := if timing.start.isSome then c.position else c.position + length
        lastPitch := some p }
  | .rest timing, d => (timing.start.isSome ∧ d = c) ∨
      ∃ length : Int, timing.start.isNone ∧ c.length timing = .ok length ∧
        d = { c with position := c.position + length }
  | .backToStart, d => d = c.rewind
  | .tempo tempo count, d => d = c.changeTempo tempo (count.getD 1)
  | .measure number, d => d = c.toMeasure number
  | .track number, d => ∃ n, number.readInt = .ok n ∧ d = { c with track := n }
  | .keySignature count _, d => d = { c with key := count }
  | .timeSignature beats unit, d => c.changeMeter beats unit = .ok d
  | _, d => d = c

/-- A time signature sets the two lengths and nothing else. -/
theorem changeMeter_eq_ok {c d : Cursor} {beats : Datum} {unit : Int}
    (h : c.changeMeter beats unit = .ok d) : unit ≠ 0 ∧ ∃ n, beats.toInt = .ok n ∧
      d = { c with
        noteLength := Ticks.perBeat * 4 / unit
        measureLength := Ticks.perBeat * 4 / unit * n } := by
  rw [changeMeter] at h
  split at h
  · cases h
  · next hunit =>
    obtain ⟨n, hn, h⟩ := Except.bind_eq_ok_iff.mp h
    exact ⟨hunit, n, hn, (Except.pure_eq_ok_iff.mp h).symm⟩

/-- What a note is made of: its length, name, place and pitch, and its times in beats. -/
theorem note_eq_ok {c d : Cursor} {name : String} {mark : Option Mark} {timing : Timing}
    {location : Option Location} {events : List (Event α)}
    (h : c.note name mark timing location = .ok (d, events)) :
    ∃ (length : Int) (sounding : String) (start position : Rat) (p : Int) (beat duration : α)
      (place : Option Location),
      c.length timing = .ok length ∧ c.soundingName name mark = .ok sounding ∧
      c.place timing length = .ok (start, position) ∧ NoteName.pitch sounding = .ok p ∧
      Ticks.toBeats start = .ok beat ∧ Ticks.toBeats (length : Rat) = .ok duration ∧
      location.mapM Location.fixed = .ok place ∧
      d = { c with position, lastPitch := some p } ∧
      events = [.note c.track sounding beat duration place] := by
  rw [note] at h
  obtain ⟨length, hl, h⟩ := Except.bind_eq_ok_iff.mp h
  obtain ⟨sounding, hs, h⟩ := Except.bind_eq_ok_iff.mp h
  obtain ⟨⟨start, position⟩, hp, h⟩ := Except.bind_eq_ok_iff.mp h
  obtain ⟨p, hpitch, h⟩ := Except.bind_eq_ok_iff.mp h
  obtain ⟨beat, hb, h⟩ := Except.bind_eq_ok_iff.mp h
  obtain ⟨duration, hd, h⟩ := Except.bind_eq_ok_iff.mp h
  obtain ⟨place, hplace, h⟩ := Except.bind_eq_ok_iff.mp h
  obtain ⟨rfl, rfl⟩ := Prod.mk.inj (Except.pure_eq_ok_iff.mp h)
  exact ⟨length, sounding, start, position, p, beat, duration, place, hl, hs, hp, hpitch, hb, hd,
    hplace, rfl, rfl⟩

/-- A note is made of its parts. -/
theorem note_of_parts {c : Cursor} {name sounding : String} {mark : Option Mark} {timing : Timing}
    {location place : Option Location} {length : Int} {start position : Rat} {p : Int}
    {beat duration : α} (hlength : c.length timing = .ok length)
    (hsounding : c.soundingName name mark = .ok sounding)
    (hplace : c.place timing length = .ok (start, position))
    (hpitch : NoteName.pitch sounding = .ok p) (hbeat : Ticks.toBeats start = .ok beat)
    (hduration : Ticks.toBeats (length : Rat) = .ok duration)
    (hlocation : location.mapM Location.fixed = .ok place) :
    c.note name mark timing location = .ok ({ c with position, lastPitch := some p },
      [.note c.track sounding beat duration place]) := by
  refine Except.bind_eq_ok_iff.mpr ⟨length, hlength, ?_⟩
  refine Except.bind_eq_ok_iff.mpr ⟨sounding, hsounding, ?_⟩
  refine Except.bind_eq_ok_iff.mpr ⟨(start, position), hplace, ?_⟩
  refine Except.bind_eq_ok_iff.mpr ⟨p, hpitch, Except.bind_eq_ok_iff.mpr ⟨beat, hbeat, ?_⟩⟩
  refine Except.bind_eq_ok_iff.mpr ⟨duration, hduration, ?_⟩
  exact Except.bind_eq_ok_iff.mpr ⟨place, hlocation, rfl⟩

private theorem moves_of_note {c d : Cursor} {name : String} {mark : Option Mark} {timing : Timing}
    {location : Option Location} {events : List (Event α)}
    (h : c.note name mark timing location = .ok (d, events)) :
    c.Moves (.note name mark timing location) d := by
  obtain ⟨length, -, start, position, p, -, -, -, hl, -, hp, -, -, -, -, rfl, -⟩ := note_eq_ok h
  refine ⟨length, p, hl, ?_⟩
  rw [place] at hp
  cases hs : timing.start with
  | none =>
    rw [hs] at hp
    obtain ⟨-, rfl⟩ := Prod.mk.inj (Except.ok.inj hp)
    rfl
  | some start =>
    rw [hs] at hp
    obtain ⟨_, -, hp⟩ := Except.bind_eq_ok_iff.mp hp
    obtain ⟨-, rfl⟩ := Prod.mk.inj (Except.pure_eq_ok_iff.mp hp)
    rfl

private theorem moves_of_rest {c d : Cursor} {timing : Timing} (h : c.rest timing = .ok d) :
    c.Moves (.rest timing) d := by
  rw [rest] at h
  cases hs : timing.start with
  | some start =>
    rw [hs] at h
    exact .inl ⟨by rw [hs]; rfl, (Except.ok.inj h).symm⟩
  | none =>
    rw [hs] at h
    obtain ⟨length, hl, h⟩ := Except.bind_eq_ok_iff.mp h
    exact .inr ⟨length, by rw [hs]; rfl, hl, (Except.pure_eq_ok_iff.mp h).symm⟩

/-- A step moves the cursor as its command says. -/
theorem moves_of_step {c d : Cursor} {command : Command} {events : List (Event α)}
    (h : c.step command = .ok (d, events)) : c.Moves command d := by
  cases command with
  | note name mark timing location => exact moves_of_note h
  | rest timing =>
    obtain ⟨_, hr, h⟩ := Except.bind_eq_ok_iff.mp h
    obtain ⟨rfl, -⟩ := Prod.mk.inj (Except.pure_eq_ok_iff.mp h)
    exact moves_of_rest hr
  | backToStart | tempo | measure | unknown | field | block =>
    exact (Prod.mk.inj (Except.ok.inj h)).1.symm
  | track number =>
    obtain ⟨n, hn, h⟩ := Except.bind_eq_ok_iff.mp h
    exact ⟨n, hn, (Prod.mk.inj (Except.pure_eq_ok_iff.mp h)).1.symm⟩
  | clef | keySignature | remark =>
    obtain ⟨_, -, h⟩ := Except.bind_eq_ok_iff.mp h
    exact (Prod.mk.inj (Except.pure_eq_ok_iff.mp h)).1.symm
  | timeSignature beats unit =>
    obtain ⟨_, hm, h⟩ := Except.bind_eq_ok_iff.mp h
    obtain ⟨_, -, h⟩ := Except.bind_eq_ok_iff.mp h
    obtain ⟨rfl, -⟩ := Prod.mk.inj (Except.pure_eq_ok_iff.mp h)
    exact hm
  | chord name =>
    rw [step] at h
    split at h
    · exact (Prod.mk.inj (Except.ok.inj h)).1.symm
    · obtain ⟨_, -, h⟩ := Except.bind_eq_ok_iff.mp h
      exact (Prod.mk.inj (Except.pure_eq_ok_iff.mp h)).1.symm
  | invalid cause => cases h

/-- What a step over a command tells. -/
def Tells (c : Cursor) : Command → List (Event α) → Prop
  | .note _ _ _ _, events => ∃ name start duration location,
      events = [.note c.track name start duration location]
  | .clef sign, events => ∃ b, c.beat = .ok b ∧ events = [.clef c.track b sign]
  | .keySignature count location, events => ∃ b, c.beat = .ok b ∧
      events = [.keySignature b count location]
  | .timeSignature beats _, events => ∃ b, c.beat = .ok b ∧ events = [.timeSignature b beats]
  | .chord _, events => events = [] ∨ ∃ b symbol, c.beat = .ok b ∧ events = [.chord b symbol]
  | .remark text, events => ∃ b, c.beat = .ok b ∧ events = [.remark b text]
  | .unknown node, events => events = [.unknown node]
  | _, events => events = []

theorem tells_of_step {c d : Cursor} {command : Command} {events : List (Event α)}
    (h : c.step command = .ok (d, events)) : c.Tells command events := by
  cases command with
  | note name mark timing location =>
    obtain ⟨-, sounding, -, -, -, beat, duration, place, -, -, -, -, -, -, -, -, he⟩ := note_eq_ok h
    exact ⟨sounding, beat, duration, place, he⟩
  | rest | track =>
    obtain ⟨_, -, h⟩ := Except.bind_eq_ok_iff.mp h
    exact (Prod.mk.inj (Except.pure_eq_ok_iff.mp h)).2.symm
  | backToStart | tempo | measure | unknown | field | block =>
    exact (Prod.mk.inj (Except.ok.inj h)).2.symm
  | clef | keySignature | remark =>
    obtain ⟨b, hb, h⟩ := Except.bind_eq_ok_iff.mp h
    exact ⟨b, hb, (Prod.mk.inj (Except.pure_eq_ok_iff.mp h)).2.symm⟩
  | timeSignature beats unit =>
    obtain ⟨_, -, h⟩ := Except.bind_eq_ok_iff.mp h
    obtain ⟨b, hb, h⟩ := Except.bind_eq_ok_iff.mp h
    exact ⟨b, hb, (Prod.mk.inj (Except.pure_eq_ok_iff.mp h)).2.symm⟩
  | chord name =>
    rw [step] at h
    split at h
    · exact .inl (Prod.mk.inj (Except.ok.inj h)).2.symm
    · obtain ⟨b, hb, h⟩ := Except.bind_eq_ok_iff.mp h
      exact .inr ⟨b, _, hb, (Prod.mk.inj (Except.pure_eq_ok_iff.mp h)).2.symm⟩
  | invalid cause => cases h

/-! ### Tracks and pitches -/

/-- The cursor with its track and last pitch changed. -/
def mapAside (track : Int → Int) (lastPitch : Option Int → Option Int) (c : Cursor) : Cursor :=
  { c with track := track c.track, lastPitch := lastPitch c.lastPitch }

section MapAside
variable (track : Int → Int) (lastPitch : Option Int → Option Int) (c : Cursor)

private theorem rest_mapAside (timing : Timing) : (c.mapAside track lastPitch).rest timing =
    (c.rest timing).map fun d => d.mapAside track lastPitch := by
  rw [rest, rest]
  split
  · rfl
  · rw [Except.map_bind]
    rfl

private theorem changeMeter_mapAside (beats : Datum) (unit : Int) :
    (c.mapAside track lastPitch).changeMeter beats unit =
      (c.changeMeter beats unit).map fun d => d.mapAside track lastPitch := by
  rw [changeMeter, changeMeter]
  split
  · rfl
  · change (beats.toInt >>= _) = Except.map _ (beats.toInt >>= _)
    rw [Except.map_bind]
    rfl

/-- Only notes look at the last pitch, and only they and clefs at the track. -/
theorem step_mapAside {command : Command} (hn : ∀ name mark timing location,
    command ≠ .note name mark timing location) (ht : ∀ number, command ≠ .track number) :
    ((c.mapAside track lastPitch).step command : Except Failure (Cursor × List (Event α))) =
      (c.step command).map fun s => (s.1.mapAside track lastPitch, s.2.map (Event.mapTrack track)) := by
  cases command with
  | note => exact absurd rfl (hn _ _ _ _)
  | track number => exact absurd rfl (ht number)
  | rest timing =>
    change ((c.mapAside track lastPitch).rest timing >>= _) = Except.map _ (c.rest timing >>= _)
    rw [rest_mapAside]
    exact Except.map_bind_eq_map_bind fun _ => rfl
  | clef | keySignature | remark =>
    change (c.beat >>= _) = Except.map _ (c.beat >>= _)
    exact Except.bind_eq_map_bind fun _ => rfl
  | timeSignature beats unit =>
    change ((c.mapAside track lastPitch).changeMeter beats unit >>= _) =
      Except.map _ (c.changeMeter beats unit >>= _)
    rw [changeMeter_mapAside]
    refine Except.map_bind_eq_map_bind fun d => ?_
    change (c.beat >>= _) = Except.map _ (c.beat >>= _)
    exact Except.bind_eq_map_bind fun _ => rfl
  | chord name =>
    rw [step, step]
    split
    · rfl
    · change (c.beat >>= _) = Except.map _ (c.beat >>= _)
      exact Except.bind_eq_map_bind fun _ => rfl
  | measure number => cases number <;> rfl
  | backToStart | tempo | unknown | invalid | field | block => rfl

end MapAside

/-! ### Walks -/

theorem walk_of_not_block (c : Cursor) {command : Command} (h : command.isBlock = false) :
    (c.walk command : Walk α) = .ofStep (c.step command) := by
  cases command with
  | block commands => exact absurd h (by simp [Command.isBlock])
  | _ => rfl

theorem walk_block_outcome (c : Cursor) (commands : List Command) :
    (c.walk (.block commands) : Walk α).outcome =
      (c.enter.walkAll commands : Walk α).outcome.map c.leave :=
  rfl

theorem walkAll_cons_of_step {c d : Cursor} {command : Command}
    {commands : List Command} {events : List (Event α)} (hb : command.isBlock = false)
    (hs : c.step command = .ok (d, events)) :
    (c.walkAll (command :: commands) : Walk α) =
      ⟨events ++ (d.walkAll commands).events, (d.walkAll commands : Walk α).outcome⟩ := by
  rw [walkAll, walk_of_not_block c hb, hs]
  rfl

theorem walkAll_append (c : Cursor) (commands commands' : List Command) :
    (c.walkAll (commands ++ commands') : Walk α) =
      (c.walkAll commands).andThen fun d => d.walkAll commands' := by
  induction commands generalizing c with
  | nil => rfl
  | cons command commands ih =>
    rw [List.cons_append, walkAll, walkAll, Walk.andThen_assoc]
    exact congrArg _ (funext ih)

/-- A relation between cursors that steps over commands not of a kind keep to, one after the other,
and that a block carries outside. -/
structure Carried (kind : Command → Bool) (R : Cursor → Cursor → Prop) : Prop where
  refl : ∀ c, R c c
  trans : ∀ {a b c}, R a b → R b c → R a c
  step : ∀ {c d command}, kind command = false → c.Moves command d → R c d
  block : ∀ {c d}, R c.enter d → R c (c.leave d)

variable {kind : Command → Bool} {R : Cursor → Cursor → Prop}

mutual

/-- A relation that is carried holds between the ends of a walk without the kind at any depth. -/
theorem Carried.of_walk (hR : Carried kind R) {command : Command} {c d : Cursor}
    (hk : command.occurs kind = false) (h : (c.walk command : Walk α).outcome = .ok d) : R c d := by
  cases command with
  | block commands =>
    obtain ⟨-, hk⟩ := Bool.or_eq_false_iff.mp hk
    rw [walk_block_outcome] at h
    obtain ⟨inner, hi, rfl⟩ := Except.map_eq_ok_iff.mp h
    exact hR.block (hR.of_walkAll hk hi)
  | _ =>
    rw [walk_of_not_block c rfl] at h
    obtain ⟨events, hs⟩ := Walk.ofStep_outcome_eq_ok_iff.mp h
    exact hR.step hk (moves_of_step hs)

theorem Carried.of_walkAll (hR : Carried kind R) {commands : List Command} {c d : Cursor}
    (hk : Command.occursIn kind commands = false)
    (h : (c.walkAll commands : Walk α).outcome = .ok d) : R c d := by
  cases commands with
  | nil => exact Except.ok.inj h ▸ hR.refl c
  | cons command commands =>
    obtain ⟨hc, hk⟩ := Bool.or_eq_false_iff.mp hk
    obtain ⟨b, hb, h⟩ := Walk.andThen_outcome_eq_ok_iff.mp h
    exact hR.trans (hR.of_walk hc hb) (hR.of_walkAll hk h)

end

end Cursor
end LeadSheet
