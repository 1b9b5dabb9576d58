import LeadSheet.Proofs.Markup.Leaf
import LeadSheet.Proofs.Pitch.Closest
import LeadSheet.Proofs.Timeline.Step

/-!
Names on a walk through the commands of a text. A written note is a letter that an octave may follow;
its sign, the key and the octave that is left out make a name with a pitch of it. So what a walk tells
can be read, and the walk never fails because of a note name.
-/
namespace LeadSheet
open Except (nameless_pure)

open NoteName

/-! ### Sounding names -/

namespace KeySignature

/-- What a key does to a letter without sign. -/
def alterationOf (key : KeySignature) (letter : Letter) : Alteration :=
  if key.alteredLetters.contains letter then key.alteration else .natural

/-- A key puts its sign on the letters it alters and leaves the other names as they are. -/
theorem sounding_inParts (key : KeySignature) (letter : Letter) (octave : Option Nat) :
    key.sounding (inParts letter .natural octave) =
      .ok (inParts letter (key.alterationOf letter) octave) := by
  have hsign : ((octaveDigits octave).head? = some '#' || (octaveDigits octave).head? = some 'b') =
      false := by
    cases octave with
    | none => rfl
    | some n =>
      have hdigit (c : Char) (hc : (toString n).toList.head? = some c) : c ≠ '#' ∧ c ≠ 'b' :=
        not_sign_of_isAsciiDigit (Text.isAsciiDigit_of_mem_toString (List.mem_of_mem_head? hc))
      rw [Bool.or_eq_false_iff, decide_eq_false_iff_not, decide_eq_false_iff_not]
      exact ⟨fun h => (hdigit '#' h).1 rfl, fun h => (hdigit 'b' h).2 rfl⟩
  rw [sounding, alterationOf]
  split
  · next hcount =>
    have hnone : key.alteredLetters = [] := by rw [alteredLetters, hcount]; rfl
    rw [hnone]
    rfl
  · rw [inParts, String.toList_ofList, Alteration.sign, List.nil_append]
    dsimp only
    rw [ofChar?_toChar]
    dsimp only
    rw [hsign, Bool.not_false, Bool.and_true]
    split
    · rw [spanDigits_octaveDigits, inParts]
    · rfl

theorem soundingUnder_inParts {count : Datum} {n : Int} (h : count.toInt = .ok n) (letter : Letter)
    (octave : Option Nat) : soundingUnder count (inParts letter .natural octave) =
      .ok (inParts letter ((accidentals n).alterationOf letter) octave) := by
  rw [soundingUnder, h]
  exact sounding_inParts (accidentals n) letter octave

/-- A count that is no number has got no key, and that is what the failure is about. -/
theorem yields_soundingUnder (count : Datum) (letter : Letter) (octave : Option Nat) :
    (soundingUnder count (inParts letter .natural octave)).Yields
      (fun name => ∃ alteration, name = inParts letter alteration octave)
      fun e => count.toInt = .error e := by
  cases h : count.toInt with
  | ok n =>
    rw [soundingUnder_inParts h]
    exact .ok ⟨_, rfl⟩
  | error e =>
    rw [soundingUnder, h]
    dsimp only
    rw [sounding_inParts]
    exact .error rfl

end KeySignature

namespace Cursor

/-! The accidental of a note is settled before its octave. -/

theorem soundingName_sharp (c : Cursor) (name : String) :
    c.soundingName name (some .sharp) = c.soundingName (withSign name '#') (some .natural) :=
  rfl

theorem soundingName_flat (c : Cursor) (name : String) :
    c.soundingName name (some .flat) = c.soundingName (withSign name 'b') (some .natural) :=
  rfl

theorem soundingName_none (c : Cursor) (name : String) :
    c.soundingName name none = (do
      c.soundingName (← KeySignature.soundingUnder c.key name) (some .natural)) :=
  rfl

/-- Once its accidental is settled, a name is kept if it ends in a digit, and given an octave
otherwise. -/
theorem soundingName_natural (c : Cursor) (name : String) :
    c.soundingName name (some .natural) =
      match name.toList.getLast? with
      | none => .error .outOfRange
      | some last =>
        if Text.isDigitSign last then .ok name else closestOctave name c.reference := rfl

/-- A name whose sign is settled keeps the octave that it has. -/
theorem soundingName_octave (c : Cursor) (letter : Letter) (alteration : Alteration) (octave : Nat) :
    c.soundingName (inParts letter alteration (some octave)) (some .natural) =
      .ok (inParts letter alteration (some octave)) := by
  have hdigits := Text.toList_toString_ne_nil octave
  have hparts : (inParts letter alteration (some octave)).toList.getLast? =
      some ((toString octave).toList.getLast hdigits) := by
    rw [inParts, String.toList_ofList, octaveDigits, ← List.cons_append,
      List.getLast?_append_of_ne_nil _ hdigits, List.getLast?_eq_some_getLast hdigits]
  have hlast : Text.isDigitSign ((toString octave).toList.getLast hdigits) = true := by
    rw [Text.isDigitSign, Text.isDecimalDigit_of_isAsciiDigit
      (Text.isAsciiDigit_of_mem_toString (List.getLast_mem hdigits)), Bool.true_or]
  rw [soundingName_natural, hparts]
  exact if_pos hlast

/-- A name whose sign is settled is given an octave, unless it has one. -/
theorem exists_soundingName_natural (c : Cursor) (letter : Letter) (alteration : Alteration)
    (octave : Option Nat) : ∃ name,
      c.soundingName (inParts letter alteration octave) (some .natural) = .ok name ∧
        Readable name := by
  cases octave with
  | none =>
    obtain ⟨last, hlast, hdigit⟩ := isDigitSign_getLast? letter alteration
    obtain ⟨name, hname, hread⟩ := closestOctave_inParts letter alteration c.reference
    have hparts : (inParts letter alteration none).toList.getLast? = some last := by
      rw [inParts, String.toList_ofList, octaveDigits, List.append_nil, hlast]
    refine ⟨name, ?_, hread⟩
    rw [soundingName_natural, hparts]
    dsimp only
    rw [hdigit, if_neg Bool.false_ne_true, hname]
  | some n =>
    exact ⟨_, c.soundingName_octave letter alteration n, readable_inParts letter alteration n⟩

theorem withSign_inParts (letter : Letter) (octave : Option Nat) (sign : Char) :
    withSign (inParts letter .natural octave) sign =
      String.ofList (letter.toChar :: sign :: octaveDigits octave) := by
  rw [withSign, inParts, String.toList_ofList]
  rfl

/-- The sounding name of a written note has a pitch, if its key is a number. -/
theorem yields_soundingName (c : Cursor) (letter : Letter) (octave : Option Nat)
    (mark : Option Mark) :
    (c.soundingName (inParts letter .natural octave) mark).Yields Readable
      fun e => c.key.toInt = .error e := by
  have hnatural (alteration : Alteration) :
      (c.soundingName (inParts letter alteration octave) (some .natural)).Yields Readable
        fun e => c.key.toInt = .error e := by
    obtain ⟨name, hname, hread⟩ := c.exists_soundingName_natural letter alteration octave
    rw [hname]
    exact .ok hread
  rcases mark with _ | _ | _ | _
  · rw [soundingName_none]
    refine (KeySignature.yields_soundingUnder c.key letter octave).bind ?_
    rintro _ ⟨alteration, rfl⟩
    exact hnatural alteration
  · rw [soundingName_sharp, withSign_inParts]
    exact hnatural .sharp
  · rw [soundingName_flat, withSign_inParts]
    exact hnatural .flat
  · exact hnatural .natural

private theorem wellNamed_soundingName (c : Cursor) (letter : Letter) (octave : Option Nat)
    (mark : Option Mark) :
    (c.soundingName (inParts letter .natural octave) mark).WellNamed Readable :=
  (c.yields_soundingName letter octave mark).mono (fun _ h => h)
    fun _ he => (he ▸ c.key.nameless_toInt).of_error

end Cursor

/-! ### Commands and events -/

/-- A symbol with a root that can be read and a shape that is known. -/
structure ChordSymbol.Known (symbol : ChordSymbol) : Prop where
  root : ∃ (letter : Letter) (alteration : Alteration),
    symbol.root = String.ofList (letter.toChar :: alteration.sign)
  shape : ∃ name intervals, symbol.shape = .named name ∧ chordShapes.lookup name = some intervals

private theorem ChordSymbol.known_of_ofText? {text : String} {symbol : ChordSymbol}
    (h : ofText? text = some symbol) : symbol.Known := by
  obtain ⟨⟨root, written⟩, hsplit, h⟩ := Option.bind_eq_some_iff.mp h
  obtain ⟨hknown, h⟩ := Option.ite_none_right_eq_some.mp h
  cases h
  obtain ⟨intervals, hi⟩ := Option.isSome_iff_exists.mp hknown
  refine ⟨?_, _, intervals, rfl, hi⟩
  cases hcs : text.toList with
  | nil =>
    rw [hcs] at hsplit
    cases hsplit
  | cons c rest =>
    rw [hcs] at hsplit
    obtain ⟨letter, -, hparts⟩ := Option.map_eq_some_iff.mp hsplit
    obtain ⟨rfl, -⟩ := Prod.mk.inj hparts
    exact ⟨letter, _, rfl⟩

/-- An event whose names can be read. -/
def Event.Readable {α : Type} : Event α → Prop
  | .note _ name _ _ _ => NoteName.Readable name
  | .chord _ symbol => symbol.Known
  | _ => True

namespace Command

/-- A command that is no block and whose name, if it is a note, is a letter and perhaps an octave. -/
def Spelled : Command → Prop
  | .note name _ _ _ => ∃ letter octave, name = inParts letter .natural octave
  | .invalid _ => False
  | .block _ => False
  | _ => True

private theorem spelled_of_ofWord {start stop : Nat} {written : String} {word : Word}
    {command : Command}
    (h : ofWord start stop written word = .ok command) : command.Spelled := by
  cases word with
  | note n =>
    rw [ofWord] at h
    split at h
    · cases h
    · cases h
      refine ⟨n.letter, n.octave, ?_⟩
      cases n.octave with
      | none => rfl
      | some k => exact (inParts_written n.letter k).symm
  | rest | timeSignature =>
    rw [ofWord] at h
    split at h
    · cases h
    · cases h
      trivial
  | keySignature | tempo | measure | track | clef =>
    cases h
    trivial

theorem spelled_of_parse {text : String} {commands : List Command}
    (h : parse text = .ok commands) : ∀ leaf ∈ leavesIn commands, leaf.Spelled :=
  forall_leaf_of_parse spelled_of_ofWord (fun _ => trivial) trivial (fun _ => trivial)
    (fun _ _ => trivial) h

end Command

namespace Cursor

private theorem nameless_length (c : Cursor) (timing : Timing) : (c.length timing).Nameless := by
  rw [length_eq]
  refine Except.Nameless.bind ?_ fun multiplied => Except.Nameless.bind ?_ Ticks.nameless_round
  · split
    · split
      · exact .ok trivial
      · exact Number.nameless_mul _ _
    · exact .ok trivial
  · split
    · split
      · exact .ok trivial
      · exact (Ticks.nameless_dotted _).bind fun _ => multiplied.nameless_mul _
    · exact .ok trivial

private theorem nameless_place (c : Cursor) (timing : Timing) (length : Int) :
    (c.place timing length).Nameless := by
  rw [place]
  split
  · exact .ok trivial
  · exact (Ticks.nameless_ofBeats _).bind fun _ => nameless_pure _

private theorem wellNamed_note (c : Cursor) (letter : Letter) (octave : Option Nat)
    (mark : Option Mark)
    (timing : Timing) (location : Option Location) :
    (c.note (inParts letter .natural octave) mark timing location :
      Except Failure (Cursor × List (Event Number))).WellNamed fun r => ∀ e ∈ r.2, e.Readable := by
  refine (c.nameless_length timing).bind fun length => ?_
  refine (c.wellNamed_soundingName letter octave mark).bind ?_
  rintro name ⟨p, hp⟩
  refine (c.nameless_place timing length).bind fun placed => ?_
  dsimp only
  rw [hp]
  refine (Ticks.nameless_toBeats _).bind fun start => ?_
  refine (Ticks.nameless_toBeats _).bind fun duration => ?_
  refine Except.Nameless.bind ?_ fun location => ?_
  · cases location with
    | none => exact .ok trivial
    | some location => exact location.nameless_fixed.bind fun _ => nameless_pure _
  · exact .ok (List.forall_mem_singleton.mpr ⟨p, hp⟩)

private theorem nameless_rest (c : Cursor) (timing : Timing) : (c.rest timing).Nameless := by
  unfold rest
  split
  · exact .ok trivial
  · exact (c.nameless_length timing).bind fun _ => nameless_pure _

private theorem nameless_changeMeter (c : Cursor) (beats : Datum) (unit : Int) :
    (c.changeMeter beats unit).Nameless := by
  unfold changeMeter
  split
  · exact .error rfl
  · exact beats.nameless_toInt.bind fun _ => nameless_pure _

/-- A step over a command that a text can write tells what can be read. -/
theorem wellNamed_step (c : Cursor) {command : Command} (h : command.Spelled) :
    (c.step command : Except Failure (Cursor × List (Event Number))).WellNamed
      fun r => ∀ e ∈ r.2, e.Readable := by
  cases command with
  | note name mark timing location =>
    obtain ⟨letter, octave, rfl⟩ := h
    exact c.wellNamed_note letter octave mark timing location
  | rest timing => exact (c.nameless_rest timing).bind fun _ => .ok (List.forall_mem_nil _)
  | track number => exact number.nameless_readInt.bind fun _ => .ok (List.forall_mem_nil _)
  | backToStart | tempo | measure | field => exact .ok (List.forall_mem_nil _)
  | clef | keySignature | remark =>
    exact (Ticks.nameless_toBeats _).bind fun _ => .ok (List.forall_mem_singleton.mpr trivial)
  | timeSignature beats unit =>
    exact (c.nameless_changeMeter beats unit).bind fun _ =>
      (Ticks.nameless_toBeats _).bind fun _ => .ok (List.forall_mem_singleton.mpr trivial)
  | chord name =>
    rw [step]
    split
    · exact .ok (List.forall_mem_nil _)
    · next symbol hs =>
      exact (Ticks.nameless_toBeats _).bind fun _ =>
        .ok (List.forall_mem_singleton.mpr (ChordSymbol.known_of_ofText? hs))
  | unknown node => exact .ok (List.forall_mem_singleton.mpr trivial)
  | invalid | block => exact h.elim

end Cursor

/-! ### Walks -/

/-- A walk that tells what can be read, and does not end because of a note name. -/
structure Walk.WellNamed (w : Walk Number) : Prop where
  events : ∀ e ∈ w.events, e.Readable
  outcome : w.outcome.Nameless

namespace Walk

private theorem wellNamed_ofStep {r : Except Failure (Cursor × List (Event Number))}
    (h : r.WellNamed fun r => ∀ e ∈ r.2, e.Readable) : (ofStep r).WellNamed := by
  cases h with
  | ok h => exact ⟨h, .ok trivial⟩
  | error h => exact ⟨List.forall_mem_nil _, .error h⟩

private theorem WellNamed.andThen {w : Walk Number} (h : w.WellNamed) {next : Cursor → Walk Number}
    (hnext : ∀ c, (next c).WellNamed) : (w.andThen next).WellNamed := by
  obtain ⟨events, outcome⟩ := w
  obtain ⟨hevents, houtcome⟩ := h
  cases houtcome with
  | ok => exact ⟨List.forall_mem_append.mpr ⟨hevents, (hnext _).events⟩, (hnext _).outcome⟩
  | error he => exact ⟨hevents, .error he⟩

end Walk

namespace Cursor

mutual

/-- A walk over a command is well named if all steps over the commands in it are. -/
theorem wellNamed_walk (c : Cursor) {command : Command}
    (h : ∀ leaf ∈ command.leaves, leaf.Spelled) : (c.walk command : Walk Number).WellNamed := by
  cases command with
  | block commands =>
    have hinner := wellNamed_walkAll c.enter h
    exact ⟨hinner.events, hinner.outcome.map fun _ _ => trivial⟩
  | _ =>
    rw [walk_of_not_block c rfl]
    exact Walk.wellNamed_ofStep (c.wellNamed_step (h _ (List.mem_singleton_self _)))

theorem wellNamed_walkAll (c : Cursor) {commands : List Command}
    (h : ∀ leaf ∈ Command.leavesIn commands, leaf.Spelled) :
    (c.walkAll commands : Walk Number).WellNamed := by
  cases commands with
  | nil => exact ⟨List.forall_mem_nil _, .ok trivial⟩
  | cons command commands =>
    obtain ⟨hhead, htail⟩ := List.forall_mem_append.mp h
    exact (wellNamed_walk c hhead).andThen fun d => wellNamed_walkAll d htail

end

end Cursor
end LeadSheet
