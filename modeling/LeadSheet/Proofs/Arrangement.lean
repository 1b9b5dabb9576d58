import LeadSheet.Proofs.Packed.Share
import LeadSheet.Proofs.Song.Location

/-!
Arrangements up to locations. A text that comes back from its short string has other locations than
the text had, but the same commands and the same song otherwise.
-/
namespace LeadSheet
variable {α : Type}

namespace Arrangement

/-- The arrangement without the locations in its song. -/
def withoutLocations (a : Arrangement α) : Arrangement α :=
  { a with result := a.result.map Song.withoutLocations }

private theorem fieldsOf_withoutLocations (commands : List Command) :
    fieldsOf (commands.map Command.withoutLocations) = fieldsOf commands := by
  rw [fieldsOf, fieldsOf, List.foldl_map]
  congr 1
  funext fields command
  cases command <;> rfl

variable [Timebase α]

private theorem plainSong_withoutLocations {commands : List Command}
    (h : ∀ command ∈ commands, command.Spanned) (defaultOctave : Int) :
    (plainSong (commands.map Command.withoutLocations) defaultOctave :
        List (Event α) × Except Failure (Song α)) =
      ((plainSong commands defaultOctave).1.map Event.withoutLocation,
        (plainSong commands defaultOctave).2.map Song.withoutLocations) := by
  rw [plainSong, plainSong, Cursor.walkAll_withoutLocations _ h, fieldsOf_withoutLocations]
  dsimp only [Walk.withoutLocations]
  rw [Song.ofEvents_withoutLocation, Except.map_bind]
  congr 1
  apply bind_congr
  intro cursor
  rw [Except.map_bind]
  apply bind_congr
  intro metadata
  rw [Except.map_bind]
  rfl

private theorem accompanied_withoutLocations (song : Song α) (options : ArrangementOptions) :
    accompanied song.withoutLocations options =
      ((accompanied song options).1, (accompanied song options).2.map Song.withoutLocations) := by
  have hc : song.withoutLocations.sheet.chords = song.sheet.chords := rfl
  rw [accompanied, accompanied, hc]
  cases song.sheet.chords.isEmpty with
  | true => rfl
  | false =>
  cases strategyOf options.accompaniment with
  | error e => rfl
  | ok strategy =>
  cases strategy with
  | none => rfl
  | some strategy =>
  cases Accompaniment.Settings.ofDatum options.settings with
  | error e => rfl
  | ok settings =>
    dsimp only
    rw [Accompaniment.accompany_withoutLocations]
    cases (Accompaniment.accompany song strategy settings).result <;> rfl

/-- Commands without locations are arranged as the commands are. -/
theorem ofCommands_withoutLocations {commands : List Command}
    (h : ∀ command ∈ commands, command.Spanned) (options : ArrangementOptions) :
    (ofCommands (commands.map Command.withoutLocations) options : Arrangement α) =
      (ofCommands commands options).withoutLocations := by
  rw [ofCommands, ofCommands]
  cases options.defaultOctave.toInt with
  | error e => rfl
  | ok defaultOctave =>
    have hu : ∀ e : Event α, e.withoutLocation.unknown? = e.unknown? := fun e => by cases e <;> rfl
    dsimp only
    rw [plainSong_withoutLocations h]
    dsimp only
    rw [Event.filterMap_withoutLocation hu]
    cases (plainSong commands defaultOctave : List (Event α) × Except Failure (Song α)).2 with
    | error e => rfl
    | ok song =>
      change (⟨_, _, _⟩ : Arrangement α) = _
      dsimp only [Except.map]
      rw [accompanied_withoutLocations]
      rfl

private theorem ofText_of_parse {text : String} {commands : List Command}
    (h : parse text = .ok commands)
    (options : ArrangementOptions) :
    (ofText text options : Arrangement α) = ofCommands commands options := by
  rw [ofText, h]

/-- The text of words makes the song of the commands that they stand for, but for locations. -/
theorem result_write {words : List Word} (hv : ∀ word ∈ words, word.Valid) {commands : List Command}
    (hc : List.Forall₂ Word.StandsFor words commands) {options : ArrangementOptions} {song : Song α}
    (h : (ofCommands commands options : Arrangement α).result = .ok song) :
    ∃ song', (ofText (Word.write words) options : Arrangement α).result = .ok song' ∧
      song'.withoutLocations = song := by
  obtain ⟨commands', hparse, hcommands⟩ := parse_words hv hc
  rw [← hcommands, ofCommands_withoutLocations (spanned_of_parse hparse)] at h
  rw [ofText_of_parse hparse]
  exact Except.map_eq_ok_iff.mp h

/-- Texts whose commands differ in locations only are arranged the same, but for locations. -/
theorem withoutLocations_ofText {text text' : String} {commands commands' : List Command}
    (h : parse text = .ok commands) (h' : parse text' = .ok commands')
    (hc : commands'.map Command.withoutLocations = commands.map Command.withoutLocations)
    (options : ArrangementOptions) :
    (ofText text' options : Arrangement α).withoutLocations =
      (ofText text options).withoutLocations := by
  rw [ofText_of_parse h, ofText_of_parse h', ← ofCommands_withoutLocations (spanned_of_parse h),
    ← ofCommands_withoutLocations (spanned_of_parse h'), hc]

end Arrangement

/-- The text that comes back from the short string of a text has the same commands and is arranged
to the same song, but for locations. -/
theorem parse_decompress_compress [Timebase α] {text short : String} {references : Bool}
    {commands : List Command} (hp : parse text = .ok commands)
    (hs : compress text references = .ok short) :
    ∃ text' commands', decompress short references = .ok text' ∧ parse text' = .ok commands' ∧
      commands'.map Command.withoutLocations = commands.map Command.withoutLocations ∧
      ∀ options, (Arrangement.ofText text' options : Arrangement α).withoutLocations =
        (Arrangement.ofText text options).withoutLocations := by
  obtain ⟨commands', hp', hc⟩ := parse_write hp
  refine ⟨_, commands', (decompress_compress hs).2, hp', hc, ?_⟩
  intro options
  exact Arrangement.withoutLocations_ofText hp hp' hc options

theorem parse_decompress_compress_voices :
    parse "\x7bc  | E \x7d" = .ok [.block [.note "C" none .plain (some (.span ⟨1, 2⟩)),
        .backToStart, .note "E" none .plain (some (.span ⟨6, 7⟩))]] ∧
      ∃ short text' commands', compress "\x7bc  | E \x7d" true = .ok short ∧
        decompress short true = .ok text' ∧ parse text' = .ok commands' ∧
        commands'.map Command.withoutLocations =
          [.block [.note "C" none .plain none, .backToStart, .note "E" none .plain none]] ∧
        ∀ options, (Arrangement.ofText text' options : Arrangement Number).withoutLocations =
          (Arrangement.ofText "\x7bc  | E \x7d" options).withoutLocations := by
  have hp : parse "\x7bc  | E \x7d" = .ok [.block [.note "C" none .plain (some (.span ⟨1, 2⟩)),
      .backToStart, .note "E" none .plain (some (.span ⟨6, 7⟩))]] := by rfl
  have he : Packed.encode (tokens "\x7bc  | E \x7d") = .ok [76, 77, 16, 2, 16, 4, 18, 3] := by rfl
  have hs : compress "\x7bc  | E \x7d" true = .ok (String.ofList (Packed.writeBase64
      (Packed.shorten [76, 77, 16, 2, 16, 4, 18, 3]))) := by
    rw [compress, he]
    rfl
  obtain ⟨text', commands', ht, hp', hc, ho⟩ :=
    parse_decompress_compress (α := Number) hp hs
  exact ⟨hp, _, text', commands', hs, ht, hp', hc, ho⟩

end LeadSheet
