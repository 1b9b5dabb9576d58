import LeadSheet.Arrangement
import LeadSheet.Proofs.Outcome
import LeadSheet.Proofs.Timeline.Location

/-!
Songs up to the locations of their notes and keys. An accompaniment is the same whatever these
locations are.
-/
namespace LeadSheet
variable {α : Type}

def Note.withoutLocation (n : Note α) : Note α := { n with location := none }

def KeyChange.withoutLocation (change : KeyChange α) : KeyChange α :=
  { change with location := none }

def Sheet.withoutLocations (s : Sheet α) : Sheet α :=
  { s with
    notes := s.notes.map Note.withoutLocation
    keySignatures := s.keySignatures.map KeyChange.withoutLocation }

/-- The song without the locations of its notes and keys. -/
def Song.withoutLocations (s : Song α) : Song α := s.mapSheets Sheet.withoutLocations

namespace Event

private theorem note?_withoutLocation (e : Event α) :
    e.withoutLocation.note? = e.note?.map fun t => (t.1, fun id => (t.2 id).withoutLocation) := by
  cases e <;> rfl

private theorem keyChange?_withoutLocation (e : Event α) :
    e.withoutLocation.keyChange? = e.keyChange?.map KeyChange.withoutLocation := by
  cases e <;> rfl

private theorem filterMap_of_withoutLocation {β : Type} {f : Event α → Option β} {g : β → β}
    (h : ∀ e, f e.withoutLocation = (f e).map g) (events : List (Event α)) :
    (events.map withoutLocation).filterMap f = (events.filterMap f).map g := by
  rw [List.filterMap_map, List.map_filterMap]
  exact congrArg (events.filterMap ·) (funext h)

/-- What does not look at locations finds the same in events without them. -/
theorem filterMap_withoutLocation {β : Type} {f : Event α → Option β}
    (h : ∀ e, f e.withoutLocation = f e) (events : List (Event α)) :
    (events.map withoutLocation).filterMap f = events.filterMap f := by
  have hid : ∀ e, f e.withoutLocation = (f e).map id := by
    intro e
    rw [h, Option.map_id, id]
  rw [filterMap_of_withoutLocation hid, List.map_id]

end Event

namespace Song

private theorem notesOf_withoutLocation (events : List (Event α)) :
    notesOf (events.map Event.withoutLocation) =
      (notesOf events).map (Prod.map id Note.withoutLocation) := by
  rw [notesOf, notesOf, Event.filterMap_of_withoutLocation Event.note?_withoutLocation]
  apply List.ext_getElem?
  intro i
  rw [List.getElem?_mapIdx, List.getElem?_map, List.getElem?_map, List.getElem?_mapIdx,
    Option.map_map, Option.map_map]
  rfl

private theorem trackOf_withoutLocation (events : List (Event α)) (notes : List (Int × Note α))
    (number : Int) :
    trackOf (events.map Event.withoutLocation) (notes.map (Prod.map id Note.withoutLocation))
        number = (trackOf events notes number).withoutLocations := by
  rw [trackOf, trackOf, List.filter_map, List.map_map,
    Event.filterMap_withoutLocation fun e => by cases e <;> rfl]
  rw [Sheet.withoutLocations, Sheet.ofNotes, Sheet.ofNotes, List.map_map]
  rfl

/-- The song of events without locations is the one of the events, without locations. -/
theorem ofEvents_withoutLocation (events : List (Event α)) :
    ofEvents (events.map Event.withoutLocation) = (ofEvents events).withoutLocations := by
  have ht : ∀ number, trackOf (events.map Event.withoutLocation)
      ((notesOf events).map (Prod.map id Note.withoutLocation)) number =
        (trackOf events (notesOf events) number).withoutLocations :=
    trackOf_withoutLocation events (notesOf events)
  rw [ofEvents, notesOf_withoutLocation, funext ht, List.length_map, List.map_map,
    Event.filterMap_of_withoutLocation Event.keyChange?_withoutLocation,
    Event.filterMap_withoutLocation (f := Event.chord?) fun e => by cases e <;> rfl,
    Event.filterMap_withoutLocation (f := Event.remark?) fun e => by cases e <;> rfl,
    Event.filterMap_withoutLocation (f := Event.timeSignature?) fun e => by cases e <;> rfl,
    Event.filterMap_withoutLocation (f := Event.track?) fun e => by cases e <;> rfl]
  rw [Song.withoutLocations, mapSheets, ofEvents, Sheet.withoutLocations, Sheet.ofNotes,
    Sheet.ofNotes, List.map_map, List.map_map]
  rfl

private theorem nextTrack_withoutLocations (s : Song α) :
    s.withoutLocations.nextTrack = s.nextTrack := by
  rw [nextTrack, withoutLocations, mapSheets, List.map_map]
  rfl

end Song

/-! ### Accompaniments -/

private theorem Accompaniment.addTrack_withoutLocations (song : Song α) {new : List (Note α)}
    (h : new.map Note.withoutLocation = new) :
    addTrack song.withoutLocations new = (addTrack song new).withoutLocations := by
  rw [addTrack, addTrack, Song.nextTrack_withoutLocations]
  rw [Song.withoutLocations, Song.withoutLocations, Song.mapSheets, Song.mapSheets,
    List.map_append, List.map_singleton, Sheet.withoutLocations, Sheet.withoutLocations,
    List.map_append, Sheet.withoutLocations, Sheet.ofNotes, h]
  rfl

variable [Timebase α]

private theorem Sheet.notesBetween_withoutLocations (s : Sheet α) (start stop : α) :
    s.withoutLocations.notesBetween start stop =
      (s.notesBetween start stop).map (·.map Note.withoutLocation) :=
  Except.filterM_map (fun _ => rfl) s.notes

namespace Accompaniment

private theorem ceiling_withoutLocations (s : Sheet α) (settings : Settings) (start stop : α) :
    ceiling s.withoutLocations settings start stop = ceiling s settings start stop := by
  rw [ceiling, ceiling, Sheet.notesBetween_withoutLocations]
  cases s.notesBetween start stop with
  | error e => rfl
  | ok notes =>
    change ((notes.map Note.withoutLocation).mapM fun n => NoteName.pitch n.name) >>= _ = _
    rw [List.mapM_map]
    rfl

private theorem play_withoutLocations (strategy : Strategy) (s : Sheet α) (settings : Settings)
    (symbol : ChordSymbol) (start stop : α) :
    strategy.play s.withoutLocations settings symbol start stop =
      strategy.play s settings symbol start stop := by
  have hc := ceiling_withoutLocations s settings start stop
  cases strategy with
  | base => rfl
  | root =>
    rw [Strategy.play, Strategy.play, playRoot, hc]
    rfl
  | triad =>
    rw [Strategy.play, Strategy.play, playTriad, hc]
    rfl
  | rootAndFifth =>
    rw [Strategy.play, Strategy.play, playRootAndFifth, hc]
    rfl
  | arpeggio =>
    rw [Strategy.play, Strategy.play, playArpeggio, hc]
    rfl
  | bossaNova =>
    rw [Strategy.play, Strategy.play, playBossaNova, hc]
    rfl

private theorem notes_withoutLocations (song : Song α) (strategy : Strategy) (settings : Settings)
    (blocks : List (ChordBlock α ChordSymbol)) :
    notes song.withoutLocations strategy settings blocks = notes song strategy settings blocks := by
  rw [notes, notes]
  congr 1
  congr 1
  funext b
  exact play_withoutLocations strategy song.sheet settings b.chord b.start b.stop

/-- Notes of an accompaniment have no locations. -/
theorem withoutLocation_notes {song : Song α} {strategy : Strategy} {settings : Settings}
    {blocks : List (ChordBlock α ChordSymbol)} {new : List (Note α)}
    (h : notes song strategy settings blocks = .ok new) : new.map Note.withoutLocation = new := by
  obtain ⟨played, -, h⟩ := Except.bind_eq_ok_iff.mp h
  cases h
  apply List.ext_getElem?
  intro i
  rw [List.getElem?_map, List.getElem?_mapIdx, Option.map_map]
  rfl

/-- A song without locations is accompanied as the song is. -/
theorem accompany_withoutLocations (song : Song α) (strategy : Strategy) (settings : Settings) :
    accompany song.withoutLocations strategy settings =
      { rejected := (accompany song strategy settings).rejected
        result := (accompany song strategy settings).result.map
          (Prod.map Song.withoutLocations id) } := by
  have hb : blocks song.withoutLocations.sheet = blocks song.sheet := rfl
  rw [accompany, accompany, hb]
  dsimp only
  rw [Except.map_bind]
  congr 1
  apply bind_congr
  intro _
  rw [notes_withoutLocations, Song.nextTrack_withoutLocations]
  cases hn : notes song strategy settings (blocks song.sheet).1.kept with
  | error e => rfl
  | ok new =>
    change Except.ok (addTrack song.withoutLocations new, song.nextTrack) = _
    rw [addTrack_withoutLocations song (withoutLocation_notes hn)]
    rfl

end Accompaniment
end LeadSheet
