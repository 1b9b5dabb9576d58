import LeadSheet.Arrangement
import LeadSheet.Proofs.Accompaniment.Naming
import LeadSheet.Proofs.Arrangement.Stages

/-!
The names in the song of a text. Every note that is written can be read, and none is a cause of
failure. An accompaniment keeps to this where its strategy has room below the melody. Without room it
may fail because of a root that it has made up itself, or add a note that has no pitch.
-/
namespace LeadSheet
open Except (nameless_pure)
open Accompaniment (Strategy)

namespace Song

private theorem readable_of_mem_notesOf {α : Type} {events : List (Event α)}
    (h : ∀ e ∈ events, e.Readable)
    {note : Int × Note α} (hnote : note ∈ notesOf events) : NoteName.Readable note.2.name := by
  obtain ⟨i, hi, rfl⟩ := List.mem_mapIdx.mp hnote
  have hmade := List.getElem_mem hi
  generalize (events.filterMap Event.note?)[i] = made at hmade ⊢
  obtain ⟨e, he, hmade⟩ := List.mem_filterMap.mp hmade
  have hread := h e he
  cases e with
  | note track name start duration location =>
    obtain rfl := Option.some.inj hmade
    exact hread
  | _ => cases hmade

/-- Events that can be read make a song that can be read, with known chords. -/
theorem readable_ofEvents {α : Type} {events : List (Event α)} (h : ∀ e ∈ events, e.Readable) :
    (ofEvents events).Readable ∧ ∀ chord ∈ (ofEvents events).sheet.chords, chord.2.Known := by
  refine ⟨⟨?_, ?_⟩, ?_⟩
  · intro note hnote
    obtain ⟨placed, hplaced, rfl⟩ := List.mem_map.mp hnote
    exact readable_of_mem_notesOf h hplaced
  · intro track htrack note hnote
    obtain ⟨number, -, rfl⟩ := List.mem_map.mp htrack
    obtain ⟨placed, hplaced, rfl⟩ := List.mem_map.mp hnote
    exact readable_of_mem_notesOf h (List.mem_filter.mp hplaced).1
  · intro chord hchord
    obtain ⟨e, he, hmade⟩ := List.mem_filterMap.mp hchord
    have hread := h e he
    cases e with
    | chord beat symbol =>
      obtain rfl := Option.some.inj hmade
      exact hread
    | _ => cases hmade

end Song

namespace Arrangement

private theorem nameless_metadataAt (cursor : Cursor) (fields : List (Datum × Datum)) :
    (metadataAt cursor fields : Except Failure (Metadata Number)).Nameless := by
  refine Except.Nameless.bind ?_ fun _ => nameless_pure _
  rw [wholeOrNearest]
  split
  · exact .ok trivial
  · exact (Number.nameless_nearest _).bind fun _ => nameless_pure _

private theorem nameless_withFirstSignature (log : List (Number × Datum)) :
    (withFirstSignature log).Nameless :=
  Except.Nameless.bind ((Number.nameless_nearest 0).bind fun _ => nameless_pure _)
    fun _ => nameless_pure _

/-- Before it is accompanied the song of commands that a text can write can be read. -/
theorem wellNamed_plainSong {commands : List Command}
    (h : ∀ leaf ∈ Command.leavesIn commands, leaf.Spelled) (octave : Int) :
    (plainSong commands octave : List (Event Number) × Except Failure (Song Number)).2.WellNamed
      fun song => song.Readable ∧ ∀ chord ∈ song.sheet.chords, chord.2.Known := by
  obtain ⟨hevents, houtcome⟩ := (Cursor.initial octave).wellNamed_walkAll h
  obtain ⟨⟨hnotes, htracks⟩, hchords⟩ := Song.readable_ofEvents hevents
  refine houtcome.bind fun cursor => ?_
  refine (nameless_metadataAt cursor _).bind fun metadata => ?_
  refine (nameless_withFirstSignature _).bind fun timeSignatures => ?_
  exact .ok ⟨⟨hnotes, htracks⟩, hchords⟩

private theorem mem_all_of_strategyOf {choice : AccompanimentChoice} {strategy : Strategy}
    (h : strategyOf choice = .ok (some strategy)) : strategy ∈ Strategy.all := by
  cases choice with
  | off => cases h
  | standard =>
    cases h
    decide
  | named name =>
    obtain ⟨strategy', hnamed, h⟩ := Except.bind_eq_ok_iff.mp h
    obtain rfl := Option.some.inj (Except.pure_eq_ok_iff.mp h)
    rw [Strategy.named] at hnamed
    split at hnamed
    · next hfind =>
      obtain rfl := Except.ok.inj hnamed
      exact List.mem_of_find?_eq_some hfind
    · cases hnamed

private theorem nameless_strategyOf (choice : AccompanimentChoice) :
    (strategyOf choice).Nameless := by
  cases choice with
  | off | standard => exact .ok trivial
  | named name =>
    refine Except.Nameless.bind ?_ fun _ => nameless_pure _
    rw [Strategy.named]
    split
    · exact .ok trivial
    · exact .error rfl

/-- A song that can be read stays so when it is accompanied, if there is room for the strategy. -/
theorem wellNamed_accompanied {plain : Song Number} (hplain : plain.Readable)
    (hchords : ∀ chord ∈ plain.sheet.chords, chord.2.Known) (octave : Datum)
    {choice : AccompanimentChoice}
    (hroom : ∀ strategy, strategyOf choice = .ok (some strategy) → strategy.HasRoom plain.sheet) :
    (accompanied plain ⟨octave, choice, .none⟩).2.WellNamed Song.Readable := by
  rw [accompanied]
  split
  · exact .ok hplain
  · split
    · next herror => exact .error (herror ▸ nameless_strategyOf choice).of_error
    · exact .ok hplain
    · next strategy hstrategy =>
      exact (Accompaniment.wellNamed_accompany hplain hchords (mem_all_of_strategyOf hstrategy)
        (hroom strategy hstrategy)).map fun _ h => h

/-- The names of the notes that sound with each chord of a text. -/
def heardNames (text : String) : Option (List (Except Failure (List String))) :=
  (parse text).toOption.bind fun commands =>
    (plainSong commands 4).2.toOption.map fun song : Song Number =>
      (Accompaniment.blocks song.sheet).1.kept.map fun b =>
        (song.sheet.notesBetween b.start b.stop).map (List.map Note.name)

private theorem plainSong_of_heardNames {text : String} {commands : List Command}
    {names : List (Except Failure (List String))} (hparse : parse text = .ok commands)
    (h : heardNames text = some names) :
    ∃ plain : Song Number, (plainSong commands 4).2 = .ok plain ∧
      (Accompaniment.blocks plain.sheet).1.kept.map (fun b =>
        (plain.sheet.notesBetween b.start b.stop).map (List.map Note.name)) = names := by
  rw [heardNames, hparse] at h
  obtain ⟨plain, hplain, hkept⟩ := Option.map_eq_some_iff.mp h
  refine ⟨plain, ?_, hkept⟩
  cases hsong : (plainSong commands 4 : List (Event Number) × Except Failure (Song Number)).2 with
  | error e =>
    rw [hsong] at hplain
    cases hplain
  | ok plain' =>
    rw [hsong] at hplain
    rw [Option.some.inj hplain]

private theorem hasRoom_of_heard {plain : Song Number} {strategy : Strategy}
    {heard : List (Except Failure (List String))}
    (hkept : (Accompaniment.blocks plain.sheet).1.kept.map (fun b =>
      (plain.sheet.notesBetween b.start b.stop).map (List.map Note.name)) = heard)
    (h : ∀ names, .ok names ∈ heard → ∀ name ∈ names, ∃ q, strategy.lowestMelody ≤ q ∧
      NoteName.pitch name = .ok q) : strategy.HasRoom plain.sheet := by
  intro b hb notes hbetween note hnote p hp
  have hnames : .ok (notes.map Note.name) ∈ heard := by
    rw [← hkept]
    exact List.mem_map.mpr ⟨b, hb, by rw [hbetween]; rfl⟩
  obtain ⟨q, hq, hpitch⟩ := h _ hnames note.name (List.mem_map_of_mem hnote)
  obtain rfl := Except.ok.inj (hpitch.symm.trans hp)
  exact hq

private theorem cramped_of_heard {plain : Song Number} {heard : List (Except Failure (List String))}
    (hkept : (Accompaniment.blocks plain.sheet).1.kept.map (fun b =>
      (plain.sheet.notesBetween b.start b.stop).map (List.map Note.name)) = heard)
    {names : List String} (hnames : .ok names ∈ heard) {name : String} (hname : name ∈ names)
    {p : Int} (hp : NoteName.pitch name = .ok p) (hlow : p < 13) :
    Accompaniment.Cramped plain.sheet := by
  rw [← hkept] at hnames
  obtain ⟨b, hb, hnames⟩ := List.mem_map.mp hnames
  obtain ⟨notes, hbetween, rfl⟩ := Except.map_eq_ok_iff.mp hnames
  obtain ⟨note, hnote, rfl⟩ := List.mem_map.mp hname
  exact ⟨b, hb, fun h => (h notes hbetween note hnote p hp).not_gt hlow⟩

/-- The song of a text can be read, and a note name is no cause of failure, if the melody leaves room
for the strategy that is asked for. -/
private theorem wellNamed_ofText {text : String} {commands : List Command}
    (hparse : parse text = .ok commands) {choice : AccompanimentChoice} {octave : Int}
    (hroom : ∀ strategy, strategyOf choice = .ok (some strategy) →
      ∀ song, (plainSong commands octave).2 = .ok song → strategy.HasRoom song.sheet) :
    (ofText text ⟨.whole octave, choice, .none⟩ : Arrangement Number).result.WellNamed
      Song.Readable := by
  rw [ofText, hparse]
  dsimp only
  rw [ofCommands]
  have hoctave : (Datum.whole octave).toInt = .ok octave := rfl
  rw [hoctave]
  dsimp only
  have hplain := wellNamed_plainSong (Command.spelled_of_parse hparse) octave
  cases hsong : (plainSong commands octave :
      List (Event Number) × Except Failure (Song Number)).2 with
  | error e => exact .error (hsong ▸ hplain).of_error
  | ok plain =>
    obtain ⟨hread, hchords⟩ := (hsong ▸ hplain).of_ok
    exact wellNamed_accompanied hread hchords (.whole octave) fun strategy hstrategy =>
      hroom strategy hstrategy plain hsong

/-- Over a note as low as the C of octave zero no strategy makes a song that can be read. -/
private theorem unreadable_of_cramped {text : String} {commands : List Command}
    (hparse : parse text = .ok commands) {choice : AccompanimentChoice} {strategy : Strategy}
    (hstrategy : strategyOf choice = .ok (some strategy)) {octave : Int} {plain song : Song Number}
    (hplain : (plainSong commands octave).2 = .ok plain)
    (hcramped : Accompaniment.Cramped plain.sheet)
    (h : (ofText text ⟨.whole octave, choice, .none⟩ : Arrangement Number).result = .ok song) :
    ¬ song.Readable := by
  have hread := wellNamed_plainSong (Command.spelled_of_parse hparse) octave
  obtain ⟨-, hchords⟩ := (hplain ▸ hread).of_ok
  obtain ⟨b, hkept, -⟩ := id hcramped
  have hmem := ChordBlocks.mem_of_mem_inMeasures hkept
  have hne : plain.sheet.chords.isEmpty = false :=
    List.isEmpty_eq_false_iff.mpr (List.ne_nil_of_mem hmem)
  obtain ⟨_, _, plain', hparse', hoctave, hplain', h⟩ := result_ofText h
  obtain rfl := Except.ok.inj (hparse.symm.trans hparse')
  obtain rfl := Except.ok.inj hoctave
  obtain rfl := Except.ok.inj (hplain.symm.trans hplain')
  rw [accompanied, hne, if_neg Bool.false_ne_true] at h
  dsimp only at h
  rw [hstrategy] at h
  obtain ⟨⟨after, number⟩, ha, rfl⟩ := Except.map_eq_ok_iff.mp h
  exact Accompaniment.unreadable_of_accompany hchords hcramped ha

/-- A text that is parsed is never refused because of a note name, and all notes of its song can be
read, if the melody leaves room for the strategy that is asked for. The room is needed: where a chord
holds over a note as low as the C of octave zero, no strategy makes a song that can be read. -/
theorem ofText_readable {text : String} {commands : List Command}
    (hparse : parse text = .ok commands) {choice : AccompanimentChoice} {octave : Int} :
    ((∀ strategy, strategyOf choice = .ok (some strategy) →
      ∀ song, (plainSong commands octave).2 = .ok song → strategy.HasRoom song.sheet) →
        (ofText text ⟨.whole octave, choice, .none⟩ : Arrangement Number).result.WellNamed
          Song.Readable) ∧
      ∀ strategy, strategyOf choice = .ok (some strategy) →
        ∀ plain, (plainSong commands octave).2 = .ok plain → Accompaniment.Cramped plain.sheet →
          ∀ song, (ofText text ⟨.whole octave, choice, .none⟩ : Arrangement Number).result =
            .ok song → ¬ song.Readable :=
  ⟨wellNamed_ofText hparse, fun _ hstrategy _ hplain hcramped _ h =>
    unreadable_of_cramped hparse hstrategy hplain hcramped h⟩

/-- The bass of bossa nova has room below the C of octave one. Below the C of octave zero the root of
the chord would be a note without a pitch. -/
theorem ofText_readable_by_octave :
    (∃ song, (ofText "$C c1 d2" ⟨.whole 4, .standard, .none⟩ : Arrangement Number).result =
        .ok song ∧ song.Readable) ∧
      ∃ song, (ofText "$C c0" ⟨.whole 4, .named (.text Strategy.root.key), .none⟩ :
        Arrangement Number).result = .ok song ∧ ¬ song.Readable := by
  constructor
  · obtain ⟨commands, hparse⟩ : ∃ commands, parse "$C c1 d2" = .ok commands :=
      Except.exists_eq_ok (by decide +kernel)
    obtain ⟨song, h⟩ : ∃ song, (ofText "$C c1 d2" ⟨.whole 4, .standard, .none⟩ :
        Arrangement Number).result = .ok song := Except.exists_eq_ok (by decide +kernel)
    obtain ⟨plain, hplain, hkept⟩ := plainSong_of_heardNames hparse
      (show heardNames "$C c1 d2" = some [.ok ["C1", "D2"]] by decide +kernel)
    have hpitches : ∀ name ∈ ["C1", "D2"], ∃ q, 24 ≤ q ∧ NoteName.pitch name = .ok q :=
      List.forall_mem_cons.mpr ⟨⟨24, by decide, by decide +kernel⟩,
        List.forall_mem_singleton.mpr ⟨38, by decide, by decide +kernel⟩⟩
    refine ⟨song, h, (h ▸ (ofText_readable hparse).1 ?_).of_ok⟩
    rintro _ ⟨⟩ _ hplain'
    obtain rfl := Except.ok.inj (hplain.symm.trans hplain')
    refine hasRoom_of_heard hkept fun names hnames => ?_
    obtain rfl := Except.ok.inj (List.mem_singleton.mp hnames)
    exact hpitches
  · obtain ⟨commands, hparse⟩ : ∃ commands, parse "$C c0" = .ok commands :=
      Except.exists_eq_ok (by decide +kernel)
    obtain ⟨song, h⟩ : ∃ song, (ofText "$C c0" ⟨.whole 4, .named (.text Strategy.root.key), .none⟩ :
        Arrangement Number).result = .ok song := Except.exists_eq_ok (by decide +kernel)
    obtain ⟨plain, hplain, hkept⟩ := plainSong_of_heardNames hparse
      (show heardNames "$C c0" = some [.ok ["C0"]] by decide +kernel)
    have hcramped := cramped_of_heard hkept (List.mem_singleton_self _) (List.mem_singleton_self "C0")
      (show NoteName.pitch "C0" = .ok 12 by decide +kernel) (by decide)
    exact ⟨song, h, (ofText_readable hparse).2 .root (by decide +kernel) plain hplain hcramped song h⟩

/-- Under the C of octave zero four strategies fail because of a root that nobody has written, and the
fifth one plays that root. -/
theorem ofText_unreadable :
    (parse "$C c0").isOk = true ∧
      (∀ choice ∈ AccompanimentChoice.standard ::
          [Strategy.bossaNova, .triad, .rootAndFifth, .arpeggio].map fun strategy =>
            .named (.text strategy.key),
        (ofText "$C c0" ⟨.whole 4, choice, .none⟩ : Arrangement Number).result.map
          (fun song => song.sheet.notes.map Note.name) = .error (.noRoot "C-")) ∧
      (ofText "$C c0" ⟨.whole 4, .named (.text Strategy.root.key), .none⟩ :
        Arrangement Number).result.map (fun song => song.sheet.notes.map Note.name) =
          .ok ["C0", "C-1"] ∧
      NoteName.pitch "C-1" = .error (.noPitch "C-1") := by
  decide +kernel

end Arrangement
end LeadSheet
