import LeadSheet.Arrangement
import LeadSheet.Proofs.Timeline.Run

/-!
The stages of an arrangement that gives a song: the text is parsed, its commands are walked through,
the events are made into a song, and the song is accompanied.
-/
namespace LeadSheet.Arrangement
variable {α : Type} [Timebase α]

theorem result_ofCommands {commands : List Command} {options : ArrangementOptions} {song : Song α}
    (h : (ofCommands commands options : Arrangement α).result = .ok song) :
    ∃ (octave : Int) (plain : Song α), options.defaultOctave.toInt = .ok octave ∧
      (plainSong commands octave).2 = .ok plain ∧ (accompanied plain options).2 = .ok song := by
  rw [ofCommands] at h
  cases ho : options.defaultOctave.toInt with
  | error e =>
    rw [ho] at h
    cases h
  | ok octave =>
    rw [ho] at h
    dsimp only at h
    cases hs : (plainSong commands octave : List (Event α) × Except Failure (Song α)).2 with
    | error e =>
      rw [hs] at h
      cases h
    | ok plain =>
      rw [hs] at h
      exact ⟨octave, plain, rfl, hs, h⟩

theorem result_ofText {text : String} {options : ArrangementOptions} {song : Song α}
    (h : (ofText text options : Arrangement α).result = .ok song) :
    ∃ (commands : List Command) (octave : Int) (plain : Song α), parse text = .ok commands ∧
      options.defaultOctave.toInt = .ok octave ∧ (plainSong commands octave).2 = .ok plain ∧
      (accompanied plain options).2 = .ok song := by
  rw [ofText] at h
  cases hp : parse text with
  | error fault =>
    rw [hp] at h
    cases h
  | ok commands =>
    rw [hp] at h
    obtain ⟨octave, plain, ho, hplain, hsong⟩ := result_ofCommands h
    exact ⟨commands, octave, plain, rfl, ho, hplain, hsong⟩

/-- A song before it is accompanied is that of the events of a run. What is added to it are the
metadata and the first time signature. -/
theorem plainSong_eq_ok {commands : List Command} {octave : Int} {plain : Song α}
    (h : (plainSong commands octave : List (Event α) × Except Failure (Song α)).2 = .ok plain) :
    ∃ (stops : List (Stop α)) (last : Cursor) (metadata : Metadata α)
      (timeSignatures : List (α × Datum)),
      Cursor.Run (.initial octave) commands stops last ∧
      metadataAt last (fieldsOf commands) = .ok metadata ∧
      withFirstSignature ((stops.flatMap Stop.events).filterMap Event.timeSignature?) =
        .ok timeSignatures ∧
      plain =
        { Song.ofEvents (stops.flatMap Stop.events) with
          sheet :=
            { (Song.ofEvents (stops.flatMap Stop.events)).sheet with metadata, timeSignatures } } := by
  rw [plainSong] at h
  obtain ⟨last, hl, h⟩ := Except.bind_eq_ok_iff.mp h
  obtain ⟨stops, hrun, he⟩ := Cursor.run_of_walkAll hl
  obtain ⟨metadata, hm, h⟩ := Except.bind_eq_ok_iff.mp h
  obtain ⟨timeSignatures, ht, h⟩ := Except.bind_eq_ok_iff.mp h
  rw [he] at ht h
  exact ⟨stops, last, metadata, timeSignatures, hrun, hm, ht, (Except.pure_eq_ok_iff.mp h).symm⟩

/-- A walk that comes to its end makes a song. -/
theorem plainSong_of_walkAll {commands : List Command} {octave : Int} {events : List (Event α)}
    {last : Cursor} {metadata : Metadata α} {timeSignatures : List (α × Datum)}
    (hwalk : (Cursor.initial octave).walkAll commands = (⟨events, .ok last⟩ : Walk α))
    (hmetadata : metadataAt last (fieldsOf commands) = .ok metadata)
    (hsignatures : withFirstSignature (events.filterMap Event.timeSignature?) = .ok timeSignatures) :
    plainSong commands octave = (events, .ok
      { Song.ofEvents events with
        sheet := { (Song.ofEvents events).sheet with metadata, timeSignatures } }) := by
  rw [plainSong, hwalk]
  refine Prod.ext rfl (Except.bind_eq_ok_iff.mpr ⟨last, rfl, ?_⟩)
  refine Except.bind_eq_ok_iff.mpr ⟨metadata, hmetadata, ?_⟩
  exact Except.bind_eq_ok_iff.mpr ⟨timeSignatures, hsignatures, rfl⟩

/-- A song without chords is not accompanied. -/
theorem result_of_plainSong {commands : List Command} {options : ArrangementOptions} {octave : Int}
    {plain : Song α} (ho : options.defaultOctave.toInt = .ok octave)
    (hplain : (plainSong commands octave).2 = .ok plain) (hchords : plain.sheet.chords = []) :
    (ofCommands commands options : Arrangement α).result = .ok plain := by
  rw [ofCommands, ho]
  dsimp only
  rw [hplain]
  dsimp only
  rw [accompanied, hchords]
  rfl

/-- An accompanied song is the song itself, or it has one track more. -/
theorem accompanied_eq_ok {plain song : Song α} {options : ArrangementOptions}
    (h : (accompanied plain options).2 = .ok song) :
    song = plain ∨ options.accompaniment ≠ .off ∧
      ∃ (strategy : Accompaniment.Strategy) (settings : Accompaniment.Settings)
        (new : List (Note α)),
        Accompaniment.notes plain strategy settings (Accompaniment.blocks plain.sheet).1.kept =
          .ok new ∧
        song = Accompaniment.addTrack plain new := by
  rw [accompanied] at h
  split at h
  · exact .inl (Except.ok.inj h).symm
  · split at h
    · cases h
    · exact .inl (Except.ok.inj h).symm
    · next strategy hstrategy =>
      have hoff : options.accompaniment ≠ .off := by
        intro ho
        rw [ho] at hstrategy
        cases hstrategy
      split at h
      · cases h
      · next settings hsettings =>
        obtain ⟨attempt, ha, rfl⟩ := Except.map_eq_ok_iff.mp h
        rw [Accompaniment.accompany] at ha
        obtain ⟨-, -, ha⟩ := Except.bind_eq_ok_iff.mp ha
        obtain ⟨new, hnew, ha⟩ := Except.bind_eq_ok_iff.mp ha
        obtain rfl := Except.pure_eq_ok_iff.mp ha
        exact .inr ⟨hoff, strategy, settings, new, hnew, rfl⟩

end LeadSheet.Arrangement
