import LeadSheet.Proofs.Pitch.Root
import LeadSheet.Proofs.Timeline.Block
import LeadSheet.Proofs.Timeline.Naming
import LeadSheet.Proofs.Timeline.Run

/-!
Voices. All that a voice leaves behind for the next one is the last pitch, to which a first note
without octave is close. So the notes of the next voice are the same whatever the voice before it
was, up to the octaves of notes that are written without.
-/
namespace LeadSheet
variable {α : Type}

/-! ### Names up to their octave -/

namespace NoteName

/-- Whether a name has an octave behind its letter and sign. -/
def hasOctave (name : String) : Bool :=
  match head? name.toList with
  | some (_, _, rest) => (spanDigits rest).1 ≠ []
  | none => false

/-- Two names of one letter with one alteration, in octaves that may differ. -/
inductive SameButOctave : String → String → Prop
  | refl (name : String) : SameButOctave name name
  | octaves (letter : Letter) (alteration : Alteration) (octave octave' : Nat) :
      SameButOctave (inParts letter alteration (some octave))
        (inParts letter alteration (some octave'))

private theorem exists_digit_of_hasOctave {name : String} (h : hasOctave name = true) :
    ∃ c ∈ name.toList, Text.isDecimalDigit c = true := by
  rw [hasOctave] at h
  split at h
  · next letter alteration rest hhead =>
    obtain ⟨c, hc⟩ := List.exists_mem_of_ne_nil _ (of_decide_eq_true h)
    rw [spanDigits, List.span_eq_takeWhile_dropWhile] at hc
    refine ⟨c, ?_, List.mem_takeWhile_imp hc⟩
    rw [eq_of_head? hhead]
    exact List.mem_cons_of_mem _
      (List.mem_append_right _ ((List.takeWhile_prefix _).subset hc))
  · cases h

/-- Only a letter with its sign is given an octave. -/
theorem eq_inParts_of_closestOctave {name sounding : String} {reference : Int}
    (h : closestOctave name reference = .ok sounding) :
    ∃ letter alteration, name = inParts letter alteration none := by
  rw [closestOctave] at h
  cases hbare : isBare name with
  | false =>
    rw [hbare] at h
    cases h
  | true =>
    rw [hbare] at h
    obtain ⟨p, hp, -⟩ := Except.bind_eq_ok_iff.mp h
    obtain ⟨letter, alteration, hname | hname⟩ := parts_of_isBare hbare
    · exact ⟨letter, alteration, hname⟩
    · rw [pitch_withOctave_of_newline hname] at hp
      cases hp

end NoteName

/-! ### Sounding names -/

namespace Cursor
open NoteName

/-- The cursor with another last pitch. -/
def withLastPitch (c : Cursor) (lastPitch : Option Int) : Cursor :=
  { c with lastPitch := lastPitch }

/-- Two cursors that differ in the last pitch only. -/
def Beside (c d : Cursor) : Prop := ∃ lastPitch, d = c.withLastPitch lastPitch

/-- A name whose accidental is settled is the same behind another pitch but for its octave, which is
the same as well if there are digits in the name. -/
theorem soundingName_natural_same (c d : Cursor) {name sounding : String}
    (hs : c.soundingName name (some .natural) = .ok sounding) :
    ∃ sounding', d.soundingName name (some .natural) = .ok sounding' ∧
      SameButOctave sounding sounding' ∧
        ((∃ char ∈ name.toList, Text.isDecimalDigit char = true) → sounding' = sounding) := by
  rw [soundingName_natural] at hs
  rw [soundingName_natural]
  cases hlast : name.toList.getLast? with
  | none =>
    rw [hlast] at hs
    cases hs
  | some last =>
    rw [hlast] at hs
    dsimp only at hs ⊢
    split at hs
    · next hdigit =>
      rw [if_pos hdigit]
      obtain rfl := Except.ok.inj hs
      exact ⟨name, rfl, .refl name, fun _ => rfl⟩
    · next hdigit =>
      rw [if_neg hdigit]
      obtain ⟨letter, alteration, rfl⟩ := eq_inParts_of_closestOctave hs
      obtain ⟨octave, ho, -⟩ := exists_closestOctave letter alteration c.reference
      obtain ⟨octave', ho', -⟩ := exists_closestOctave letter alteration d.reference
      obtain rfl := Except.ok.inj (ho.symm.trans hs)
      refine ⟨_, ho', .octaves letter alteration octave octave', ?_⟩
      rintro ⟨char, hc, hdigits⟩
      rw [not_digit_of_mem_inParts hc] at hdigits
      cases hdigits

private theorem mem_withSign {name : String} {sign char : Char} (h : char ∈ name.toList) :
    char ∈ (withSign name sign).toList := by
  rw [withSign, String.toList_ofList, List.mem_append, List.mem_cons]
  rw [← List.take_append_drop 1 name.toList, List.mem_append] at h
  rcases h with h | h
  · exact .inl h
  · exact .inr (.inr h)

/-- A letter without a sign has its octave right behind it. -/
theorem spanDigits_ne_nil_of_hasOctave {c : Char} {rest : List Char}
    (h : hasOctave (String.ofList (c :: rest)) = true)
    (hsign : (rest.head? = some '#' || rest.head? = some 'b') = false) :
    (spanDigits rest).1 ≠ [] := by
  have hread : Alteration.read rest = (.natural, rest) := by
    rw [Alteration.read.eq_3]
    · rintro _ rfl
      cases hsign
    · rintro _ rfl
      cases hsign
  rw [hasOctave, String.toList_ofList, head?] at h
  cases hl : Letter.ofChar? c with
  | none =>
    rw [hl] at h
    cases h
  | some letter =>
    rw [hl, Option.map_some, hread] at h
    exact of_decide_eq_true h

/-- A key keeps the octave of a name. -/
theorem exists_digit_of_soundingUnder {count : Datum} {name settled : String}
    (h : KeySignature.soundingUnder count name = .ok settled) (ho : hasOctave name = true) :
    ∃ char ∈ settled.toList, Text.isDecimalDigit char = true := by
  rw [KeySignature.soundingUnder] at h
  split at h
  · rw [KeySignature.sounding] at h
    split at h
    · cases h
      exact exists_digit_of_hasOctave ho
    · split at h
      · cases h
      · next c rest hname =>
        split at h
        · cases h
        · next letter _ =>
          dsimp only at h
          split at h
          · next halter =>
            cases h
            rw [Bool.and_eq_true, Bool.not_eq_true'] at halter
            rw [← String.ofList_toList (s := name), hname] at ho
            obtain ⟨char, hc⟩ := List.exists_mem_of_ne_nil _
              (spanDigits_ne_nil_of_hasOctave ho halter.2)
            refine ⟨char, ?_, ?_⟩
            · rw [String.toList_ofList]
              exact List.mem_cons_of_mem _ (List.mem_append_right _ hc)
            · rw [spanDigits, List.span_eq_takeWhile_dropWhile] at hc
              exact List.mem_takeWhile_imp hc
          · cases h
            exact exists_digit_of_hasOctave ho
  · obtain ⟨_, -, h⟩ := Except.bind_eq_ok_iff.mp h
    cases h

/-- The sounding name of a note is the same behind another pitch but for its octave, which is the
same as well if it is written. -/
theorem soundingName_beside {c d : Cursor} (h : c.Beside d) {name sounding : String} {mark : Option Mark}
    (hs : c.soundingName name mark = .ok sounding) :
    ∃ sounding', d.soundingName name mark = .ok sounding' ∧ SameButOctave sounding sounding' ∧
      (hasOctave name = true → sounding' = sounding) := by
  have hkey : d.key = c.key := by
    obtain ⟨p, rfl⟩ := h
    rfl
  have hsign {sign : Char} (ho : hasOctave name = true) :
      ∃ char ∈ (withSign name sign).toList, Text.isDecimalDigit char = true := by
    obtain ⟨char, hc, hdigit⟩ := exists_digit_of_hasOctave ho
    exact ⟨char, mem_withSign hc, hdigit⟩
  rcases mark with _ | _ | _ | _
  · rw [soundingName_none] at hs
    obtain ⟨settled, hsettled, hs⟩ := Except.bind_eq_ok_iff.mp hs
    obtain ⟨sounding', hs', hsame, hkept⟩ := c.soundingName_natural_same d hs
    refine ⟨sounding', ?_, hsame, fun ho => hkept (exists_digit_of_soundingUnder hsettled ho)⟩
    rw [soundingName_none, hkey]
    exact Except.bind_eq_ok_iff.mpr ⟨settled, hsettled, hs'⟩
  · obtain ⟨sounding', hs', hsame, hkept⟩ := c.soundingName_natural_same d hs
    exact ⟨sounding', hs', hsame, fun ho => hkept (hsign ho)⟩
  · obtain ⟨sounding', hs', hsame, hkept⟩ := c.soundingName_natural_same d hs
    exact ⟨sounding', hs', hsame, fun ho => hkept (hsign ho)⟩
  · obtain ⟨sounding', hs', hsame, hkept⟩ := c.soundingName_natural_same d hs
    exact ⟨sounding', hs', hsame, fun ho => hkept (exists_digit_of_hasOctave ho)⟩

end Cursor

/-! ### Runs beside each other -/

/-- Two events that differ in nothing but the octave of a note. -/
inductive Event.SameButOctave : Event α → Event α → Prop
  | refl (e : Event α) : SameButOctave e e
  | note {name name' : String} (h : NoteName.SameButOctave name name') (track : Int)
      (start duration : α) (location : Option Location) :
      SameButOctave (.note track name start duration location)
        (.note track name' start duration location)

/-- Whether a command is a note that is written without octave. -/
def Command.lacksOctave : Command → Bool
  | .note name _ _ _ => !NoteName.hasOctave name
  | _ => false

/-- Stops at one command whose events are the same, but for the octave of a note that is written
without. -/
structure Stop.Alike (s t : Stop α) : Prop where
  command : t.command = s.command
  events : List.Forall₂ Event.SameButOctave s.events t.events
  written : s.command.lacksOctave = false → t.events = s.events

namespace Cursor
variable [Timebase α]

/-- Only notes look at the last pitch. -/
theorem step_withLastPitch (c : Cursor) (lastPitch : Option Int) {command : Command}
    (h : command.isNote = false) :
    ((c.withLastPitch lastPitch).step command :
        Except Failure (Cursor × List (Event α))) =
      (c.step command).map fun s => (s.1.withLastPitch lastPitch, s.2) := by
  by_cases ht : ∃ number, command = .track number
  · obtain ⟨number, rfl⟩ := ht
    change (number.readInt >>= _) = Except.map _ (number.readInt >>= _)
    exact Except.bind_eq_map_bind fun _ => rfl
  · have hstep := step_mapAside (α := α) id (fun _ => lastPitch) c
      (fun _ _ _ _ hc => by rw [hc] at h; cases h) fun number hc => ht ⟨number, hc⟩
    simp only [Event.mapTrack_id, List.map_id] at hstep
    exact hstep

private theorem note_beside {c d c' : Cursor} (h : c.Beside d) {name : String} {mark : Option Mark}
    {timing : Timing} {location : Option Location} {events : List (Event α)}
    (hn : c.note name mark timing location = .ok (c', events)) :
    ∃ d' events', d.note name mark timing location = .ok (d', events') ∧ c'.Beside d' ∧
      List.Forall₂ Event.SameButOctave events events' ∧
        (NoteName.hasOctave name = true → events' = events) := by
  obtain ⟨length, sounding, start, position, p, beat, duration, place, hlength, hsounding, hplace,
    hp, hbeat, hduration, hlocation, rfl, rfl⟩ := note_eq_ok hn
  obtain ⟨sounding', hs', hsame, hkept⟩ := soundingName_beside h hsounding
  obtain ⟨p', hp'⟩ : NoteName.Readable sounding' := by
    cases hsame with
    | refl => exact ⟨p, hp⟩
    | octaves letter alteration _ octave' =>
      exact NoteName.readable_inParts letter alteration octave'
  obtain ⟨lastPitch, rfl⟩ := h
  exact ⟨{ c with position := position, lastPitch := some p' },
    [.note c.track sounding' beat duration place],
    note_of_parts hlength hs' hplace hp' hbeat hduration hlocation, ⟨some p', rfl⟩,
    .cons (.note hsame ..) .nil, fun ho => by rw [hkept ho]⟩

/-- A step is the same for cursors beside each other, but for the octave of a note. -/
theorem step_beside {c d c' : Cursor} (h : c.Beside d) {command : Command} {events : List (Event α)}
    (hs : c.step command = .ok (c', events)) :
    ∃ d' events', d.step command = .ok (d', events') ∧ c'.Beside d' ∧
      Stop.Alike ⟨command, c, events, c'⟩ ⟨command, d, events', d'⟩ := by
  cases hn : command.isNote with
  | true =>
    cases command with
    | note name mark timing location =>
      obtain ⟨d', events', hs', hd, hevents, hkept⟩ := note_beside h hs
      refine ⟨d', events', hs', hd, rfl, hevents, fun hl => hkept ?_⟩
      rwa [Command.lacksOctave, Bool.not_eq_false'] at hl
    | _ => cases hn
  | false =>
    obtain ⟨lastPitch, rfl⟩ := h
    have hs' := step_withLastPitch (α := α) c lastPitch hn
    rw [hs] at hs'
    exact ⟨_, events, hs', ⟨lastPitch, rfl⟩, rfl, List.forall₂_same.mpr fun e _ => .refl e,
      fun _ => rfl⟩

/-- Runs through the same commands are alike if they start beside each other. -/
theorem Run.beside {c d e : Cursor} (h : c.Beside d) {commands : List Command}
    {stops : List (Stop α)} (hrun : Run c commands stops e) :
    ∃ stops' e', Run d commands stops' e' ∧ List.Forall₂ Stop.Alike stops stops' ∧ e.Beside e' := by
  induction hrun generalizing d with
  | done c => exact ⟨[], d, .done d, .nil, h⟩
  | step hb hs tail ih =>
    obtain ⟨d', events', hs', hd, halike⟩ := step_beside h hs
    obtain ⟨stops', e', hrun', hstops, he⟩ := ih hd
    exact ⟨_, e', .step hb hs' hrun', .cons halike hstops, he⟩
  | @block c inner e inside commands stops stops' _ _ hi ht =>
    obtain ⟨lastPitch, rfl⟩ := h
    obtain ⟨front, inner', hfront, hfronts, lastPitch', rfl⟩ :=
      hi (d := c.enter.withLastPitch lastPitch) ⟨lastPitch, rfl⟩
    obtain ⟨back, e', hback, hbacks, he⟩ :=
      ht (d := (c.leave inner).withLastPitch lastPitch') ⟨lastPitch', rfl⟩
    exact ⟨front ++ back, e', .block hfront hback, List.rel_append hfronts hbacks, he⟩

end Cursor

/-! ### Voices -/

/-- Whether a command may stand in a voice: a note, a rest, text, a chord, or a block that leaves the
measures as they are. -/
def Command.isVoice : Command → Bool
  | .note .. | .rest _ | .remark _ | .chord _ => true
  | .block commands => !occursIn isTimeSignature commands
  | _ => false

namespace Cursor
variable [Timebase α]

/-- A voice moves the cursor on and leaves a last pitch, and nothing else. -/
theorem walk_of_isVoice {c d : Cursor} {command : Command} (hv : command.isVoice = true)
    (h : (c.walk command : Walk α).outcome = .ok d) :
    ∃ position lastPitch, d = { c with position := position, lastPitch := lastPitch } := by
  cases command with
  | block commands =>
    rw [walk_block_outcome] at h
    obtain ⟨inner, hi, rfl⟩ := Except.map_eq_ok_iff.mp h
    rw [Command.isVoice, Bool.not_eq_true'] at hv
    have hlength : inner.measureLength = c.measureLength :=
      carried_measureLength.of_walkAll (c := c.enter) hv hi
    refine ⟨inner.position, inner.lastPitch, ?_⟩
    rw [leave, hlength, sub_add_cancel]
  | note name mark timing location =>
    obtain ⟨events, hs⟩ := Walk.ofStep_outcome_eq_ok_iff.mp h
    obtain ⟨length, p, -, rfl⟩ := moves_of_step hs
    exact ⟨_, _, rfl⟩
  | rest timing =>
    obtain ⟨events, hs⟩ := Walk.ofStep_outcome_eq_ok_iff.mp h
    rcases moves_of_step hs with ⟨-, rfl⟩ | ⟨length, -, -, rfl⟩
    · exact ⟨_, _, rfl⟩
    · exact ⟨_, _, rfl⟩
  | remark | chord =>
    obtain ⟨events, hs⟩ := Walk.ofStep_outcome_eq_ok_iff.mp h
    obtain rfl := moves_of_step hs
    exact ⟨_, _, rfl⟩
  | _ => cases hv

private theorem walkAll_of_isVoice {c d : Cursor} {voice : List Command}
    (hv : ∀ command ∈ voice, command.isVoice = true)
    (h : (c.walkAll voice : Walk α).outcome = .ok d) :
    ∃ position lastPitch, d = { c with position := position, lastPitch := lastPitch } := by
  induction voice generalizing c with
  | nil =>
    obtain rfl : c = d := Except.ok.inj h
    exact ⟨_, _, rfl⟩
  | cons command voice ih =>
    obtain ⟨hcommand, hv⟩ := List.forall_mem_cons.mp hv
    obtain ⟨b, hb, h⟩ := Walk.andThen_outcome_eq_ok_iff.mp h
    obtain ⟨position, lastPitch, rfl⟩ := walk_of_isVoice hcommand hb
    obtain ⟨position', lastPitch', rfl⟩ := ih hv h
    exact ⟨_, _, rfl⟩

/-- Behind a bar the walk goes on from the start of the block, with the last pitch of the voice in front
of the bar. -/
theorem walk_block_voices {c d : Cursor} {first : List Command}
    (hv : ∀ command ∈ first, command.isVoice = true)
    (h : (c.enter.walkAll first : Walk α).outcome = .ok d) (voice : List Command) :
    (c.walk (.block (first ++ .backToStart :: voice)) : Walk α) =
      ⟨(c.enter.walkAll first).events ++
          ((c.enter.withLastPitch d.lastPitch).walkAll voice : Walk α).events,
        ((c.enter.withLastPitch d.lastPitch).walkAll voice : Walk α).outcome.map c.leave⟩ := by
  obtain ⟨position, lastPitch, rfl⟩ := walkAll_of_isVoice hv h
  rw [walk, walkAll_append, Walk.andThen, h]
  rfl

/-- Voices do not depend on each other. When the first voice of a block is another one, the walk
behind the bar starts from the same cursor but for the last pitch, succeeds as well, and tells the same
but for the octaves of notes that are written without. -/
theorem walk_voices_alike {c d e : Cursor} {first other voice : List Command}
    (hfirst : ∀ command ∈ first, command.isVoice = true)
    (hother : ∀ command ∈ other, command.isVoice = true)
    (hwalk : (c.walk (.block (first ++ .backToStart :: voice)) : Walk α).outcome = .ok e)
    (hwalk' : (c.enter.walkAll other : Walk α).outcome = .ok d) :
    ∃ (lastPitch lastPitch' : Option Int) (stops stops' : List (Stop α)) (inner inner' : Cursor),
      Run (c.enter.withLastPitch lastPitch) voice stops inner ∧
      Run (c.enter.withLastPitch lastPitch') voice stops' inner' ∧
      (c.walk (.block (first ++ .backToStart :: voice)) : Walk α) =
        ⟨(c.enter.walkAll first).events ++ stops.flatMap Stop.events, .ok (c.leave inner)⟩ ∧
      (c.walk (.block (other ++ .backToStart :: voice)) : Walk α) =
        ⟨(c.enter.walkAll other).events ++ stops'.flatMap Stop.events, .ok (c.leave inner')⟩ ∧
      List.Forall₂ Stop.Alike stops stops' ∧ inner.Beside inner' := by
  obtain ⟨b, hb⟩ : ∃ b, (c.enter.walkAll first : Walk α).outcome = .ok b := by
    obtain ⟨_, hi, -⟩ := Except.map_eq_ok_iff.mp hwalk
    rw [walkAll_append] at hi
    obtain ⟨b, hb, -⟩ := Walk.andThen_outcome_eq_ok_iff.mp hi
    exact ⟨b, hb⟩
  have hblock := walk_block_voices hfirst hb voice
  have hblock' := walk_block_voices hother hwalk' voice
  rw [hblock] at hwalk
  obtain ⟨inner, hi, rfl⟩ := Except.map_eq_ok_iff.mp hwalk
  obtain ⟨stops, hrun, -⟩ := run_of_walkAll hi
  have hbeside : (c.enter.withLastPitch b.lastPitch).Beside (c.enter.withLastPitch d.lastPitch) :=
    ⟨d.lastPitch, rfl⟩
  obtain ⟨stops', inner', hrun', hstops, hinner⟩ := hrun.beside hbeside
  refine ⟨_, _, stops, stops', inner, inner', hrun, hrun', ?_, ?_, hstops, hinner⟩
  · rw [hblock, hrun.walkAll_eq]
    rfl
  · rw [hblock', hrun'.walkAll_eq]
    rfl

theorem walk_voices_alike_block :
    let first : List Command := [.note "C" none .plain none]
    let other : List Command :=
      [.remark (.text "low"), .block [.tempo .double none, .note "G2" none .plain none]]
    let voice : List Command := [.note "E" none .plain none, .note "F4" (some .sharp) .plain none]
    ∃ stops stops' : List (Stop Rat),
      ((initial 4).walk (.block (first ++ .backToStart :: voice)) : Walk Rat).events =
        ((initial 4).enter.walkAll first).events ++ stops.flatMap Stop.events ∧
      ((initial 4).walk (.block (other ++ .backToStart :: voice)) : Walk Rat).events =
        ((initial 4).enter.walkAll other).events ++ stops'.flatMap Stop.events ∧
      List.Forall₂ Stop.Alike stops stops' := by
  intro first other voice
  obtain ⟨e, he⟩ : ∃ e, ((initial 4).walk (.block (first ++ .backToStart :: voice)) :
      Walk Rat).outcome = .ok e := Except.exists_eq_ok (by decide +kernel)
  obtain ⟨d, hd⟩ : ∃ d, ((initial 4).enter.walkAll other : Walk Rat).outcome = .ok d :=
    Except.exists_eq_ok (by decide +kernel)
  obtain ⟨_, _, stops, stops', _, _, -, -, hw, hw', hstops, -⟩ :=
    walk_voices_alike (by decide) (by decide) he hd
  exact ⟨stops, stops', by rw [hw], by rw [hw'], hstops⟩

end Cursor
end LeadSheet
