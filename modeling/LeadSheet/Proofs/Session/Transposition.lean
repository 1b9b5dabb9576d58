import LeadSheet.Proofs.Pitch.Spelling
import LeadSheet.Proofs.Rows
import LeadSheet.Proofs.Session.Keyed

/-!
Transposed songs in a session. The new song holds a new note wherever the song holds a note, the
same one in the same places; each is the note that it comes from, moved. Nothing else in the session
changes.
-/
namespace LeadSheet

namespace Session
variable {s s' : Session} {semitones : Datum} {k : Number}

/-! ### Pages as sheets -/

/-- The count of the key of a piece, if it has one. -/
def keyOf (metadata : Datum) : Option Datum :=
  if metadata.hasField "keySignature" then some (metadata.field "keySignature") else none

/-- A sheet that has what transposition changes of a page. -/
structure Reads (s : Session) (page : Page) (sheet : Sheet Datum) : Prop where
  names : ∀ number ∈ page.notes, ∃ name, (s.note number).name = .text name
  notes : sheet.notes = s.notesOf page
  key : sheet.metadata.keySignature = keyOf page.metadata
  keys : ∃ entries, (s.logOf page .keySignatures).parts = .ok entries ∧
    entries.mapM KeyChange.ofDatum = .ok sheet.keySignatures

theorem eq_text_of_toText {d : Datum} {text : String} (h : d.toText = .ok text) :
    d = .text text := by
  cases d <;> cases h
  rfl

private theorem reads_of_keyedSheet {page : Page} {sheet : Sheet Datum}
    (h : s.keyedSheet page = .ok sheet) : s.Reads page sheet := by
  obtain ⟨names, hnames, h⟩ := Except.bind_eq_ok_iff.mp h
  obtain ⟨entries, hentries, h⟩ := Except.bind_eq_ok_iff.mp h
  obtain ⟨keys, hkeys, h⟩ := Except.bind_eq_ok_iff.mp h
  cases h
  refine ⟨?_, rfl, rfl, entries, hentries, hkeys⟩
  intro number hn
  obtain ⟨name, -, ht⟩ := Except.exists_mem_of_mapM hnames hn
  exact ⟨name, eq_text_of_toText ht⟩

theorem reads_of_keyedSong {page : Page} {song : Song Datum} (h : s.keyedSong page = .ok song) :
    s.Reads page song.sheet ∧
      List.Forall₂ (fun track (entry : Int × Sheet Datum) => s.Reads (s.pageAt track.2) entry.2)
        (page.tracks.getD []) song.tracks ∧
      song.fresh = s.notes.size := by
  obtain ⟨sheet, hsheet, h⟩ := Except.bind_eq_ok_iff.mp h
  obtain ⟨tracks, htracks, h⟩ := Except.bind_eq_ok_iff.mp h
  cases h
  refine ⟨reads_of_keyedSheet hsheet, ?_, rfl⟩
  have hall := Except.mapM_eq_ok_iff_forall₂.mp htracks
  have hplain : ((page.tracks.getD []).zipIdx.map Prod.fst) = page.tracks.getD [] :=
    List.zipIdx_map_fst ..
  rw [← hplain, List.forall₂_map_left_iff]
  refine hall.imp fun _ _ he => ?_
  obtain ⟨sheet, hs, he⟩ := Except.bind_eq_ok_iff.mp he
  cases he
  exact reads_of_keyedSheet hs

/-- The note that a song holds is one of the session, with a text for a name. -/
theorem exists_number_of_holds {page : Page} {song : Song Datum}
    (hsheet : s.Reads page song.sheet)
    (htracks : List.Forall₂
      (fun track (entry : Int × Sheet Datum) => s.Reads (s.pageAt track.2) entry.2)
      (page.tracks.getD []) song.tracks) {note : Note Datum} (hn : song.Holds note) :
    note = (s.note note.id).toNote note.id ∧ (s.note note.id).name = .text note.name := by
  have hread {page : Page} {sheet : Sheet Datum} (hr : s.Reads page sheet)
      (hn : note ∈ sheet.notes) :
      note = (s.note note.id).toNote note.id ∧ (s.note note.id).name = .text note.name := by
    rw [hr.notes] at hn
    obtain ⟨number, hm, rfl⟩ := List.mem_map.mp hn
    obtain ⟨name, ht⟩ := hr.names number hm
    refine ⟨rfl, ?_⟩
    change (s.note number).name = .text ((s.note number).name.toText.toOption.getD "")
    rw [ht]
    rfl
  rcases hn with hn | ⟨entry, he, hn⟩
  · exact hread hsheet hn
  · obtain ⟨track, -, hr⟩ := exists_of_mem_forall₂ htracks he
    exact hread hr hn

/-! ### What is moved -/

private theorem notes_of_not_moves {sheet : Sheet Datum} (h : sheet.moves = false) :
    sheet.notes = [] ∧ sheet.metadata.keySignature = none ∧ sheet.keySignatures = [] := by
  rw [Sheet.moves, Bool.or_eq_false_iff, Bool.or_eq_false_iff] at h
  obtain ⟨⟨hn, hm⟩, hk⟩ := h
  refine ⟨?_, ?_, ?_⟩
  · simpa using hn
  · simpa using hm
  · simpa using hk

/-- The notes of the session that have been moved, with their new names. -/
def newEntries (s : Session) (r : Renewal Datum) : List NoteEntry :=
  r.made.reverse.map fun (old, new) => { s.note old with name := .text new.name }

/-- The session with the pages of a transposed song added, the new song at hand. -/
def withRenewed (s : Session) (song : Song Datum) (r : Renewal Datum) : Session :=
  let (t, _) := s.addNotes (s.newEntries r)
  let (t, tracks) := t.addKeyedTracks (s.page.tracks.getD []) (song.tracks.map Prod.snd)
  selectAdded (t.addKeyed s.page song.sheet (s.page.tracks.map fun _ => tracks))

/-- How far a song is moved. Semitones need be a number only if there is something to move. -/
def amount (semitones : Datum) (song : Song Datum) : Except Failure Number :=
  if song.sheet.moves || song.tracks.any fun track => track.2.moves then semitones.toNumber
  else .ok 0

private theorem transpose_eq (h0 : semitones.same (.whole 0) = false) :
    s.transpose semitones = do
      let song ← s.keyedSong s.page
      let k ← amount semitones song
      let (song', r) ← song.renewed k
      return s.withRenewed song' r := by
  rw [transpose, if_neg (by rw [h0]; decide)]
  refine bind_congr fun song => ?_
  rw [amount]
  dsimp only
  split
  · rfl
  · rfl

theorem transpose_eq_ok_iff (h0 : semitones.same (.whole 0) = false) :
    s.transpose semitones = .ok s' ↔ ∃ song k song' r, s.keyedSong s.page = .ok song ∧
      amount semitones song = .ok k ∧ song.renewed k = .ok (song', r) ∧
      s' = s.withRenewed song' r := by
  rw [transpose_eq h0]
  constructor
  · intro h
    obtain ⟨song, hsong, h⟩ := Except.bind_eq_ok_iff.mp h
    obtain ⟨k, hk, h⟩ := Except.bind_eq_ok_iff.mp h
    obtain ⟨⟨song', r⟩, hr, h⟩ := Except.bind_eq_ok_iff.mp h
    exact ⟨song, k, song', r, hsong, hk, hr, (Except.ok.inj h).symm⟩
  · rintro ⟨song, k, song', r, hsong, hk, hr, rfl⟩
    exact Except.bind_eq_ok_iff.mpr ⟨song, hsong, Except.bind_eq_ok_iff.mpr ⟨k, hk,
      Except.bind_eq_ok_iff.mpr ⟨_, hr, rfl⟩⟩⟩

/-- A song without anything to move is transposed alike by whatever it is. -/
theorem renewed_of_not_moves {song : Song Datum}
    (h : (song.sheet.moves || song.tracks.any fun track => track.2.moves) = false) (k : Number) :
    song.renewed k = .ok (song, ⟨song.fresh, []⟩) := by
  have hwith {sheet : Sheet Datum} (hs : sheet.moves = false) :
      sheet.notes = [] ∧ sheet.transposedWith k [] = .ok sheet := by
    obtain ⟨hn, hm, hk⟩ := notes_of_not_moves hs
    refine ⟨hn, ?_⟩
    rw [Sheet.transposedWith, Metadata.transposed, hm, hk]
    obtain ⟨notes, ⟨key, beats, fields⟩, chords, clefs, remarks, times, keys, name⟩ := sheet
    cases hn
    cases hm
    cases hk
    rfl
  obtain ⟨hsheet, htracks⟩ := Bool.or_eq_false_iff.mp h
  rw [List.any_eq_false] at htracks
  obtain ⟨sheet, tracks, fresh⟩ := song
  have hall (r : Renewal Datum) : r.tracks k tracks = .ok (r, tracks) := by
    clear h hsheet
    dsimp only at htracks
    induction tracks with
    | nil => rfl
    | cons track tracks ih =>
      obtain ⟨number, sheet⟩ := track
      obtain ⟨hs, htracks⟩ := List.forall_mem_cons.mp htracks
      obtain ⟨hn, hw⟩ := hwith (Bool.eq_false_iff.mpr hs)
      refine Renewal.tracks_cons_eq_ok_iff.mpr ⟨r, [], sheet, tracks, ?_, hw, ih htracks, rfl⟩
      rw [hn]
      rfl
  obtain ⟨hn, hw⟩ := hwith hsheet
  dsimp only at hn hw
  rw [Song.renewed]
  dsimp only
  rw [hn]
  refine Except.bind_eq_ok_iff.mpr ⟨_, rfl, Except.bind_eq_ok_iff.mpr ⟨_, hall _, ?_⟩⟩
  exact Except.bind_eq_ok_iff.mpr ⟨_, hw, rfl⟩

/-- If semitones are a number, a song is moved by it, also where there is nothing to move. -/
theorem exists_amount {song song' : Song Datum} {r : Renewal Datum}
    (hk : amount semitones song = .ok k) (hr : song.renewed k = .ok (song', r)) :
    ∃ k, song.renewed k = .ok (song', r) ∧
      (semitones.toNumber = .ok k ∨ r.made = [] ∧ ∃ e, semitones.toNumber = .error e) := by
  rw [amount] at hk
  split at hk
  · exact ⟨k, hr, .inl hk⟩
  · next hm =>
    have hm := Bool.eq_false_iff.mpr hm
    cases hn : semitones.toNumber with
    | ok k' =>
      refine ⟨k', ?_, .inl rfl⟩
      rw [renewed_of_not_moves hm] at hr ⊢
      exact hr
    | error e =>
      have hr' := hr
      rw [renewed_of_not_moves hm] at hr'
      cases hr'
      exact ⟨k, hr, .inr ⟨rfl, e, rfl⟩⟩

/-- The number of a note that was made for the note with another number. -/
def MadeFor (made : List (Nat × Note Datum)) (n n' : Nat) : Prop :=
  ∃ m ∈ made, m.1 = n ∧ m.2.id = n'

/-- A page has new notes in the places of those that they were made for. -/
def NotesMoved (made : List (Nat × Note Datum)) (page new : Page) : Prop :=
  List.Forall₂ (MadeFor made) page.notes new.notes

/-- A page has what another one has besides its notes, with the keys moved. -/
structure PageMoved (s s' : Session) (k : Number) (page new : Page) : Prop where
  key : ∃ count, (keyOf page.metadata).mapM (KeySignature.transposed · k) = .ok count ∧
    new.metadata = keyedMetadata page.metadata count
  keys : ∃ entries changes changes', (s.logOf page .keySignatures).parts = .ok entries ∧
    entries.mapM KeyChange.ofDatum = .ok changes ∧
    changes.mapM (·.transposed k) = .ok changes' ∧
    s'.logOf new .keySignatures = .list (changes'.map KeyChange.toDatum)
  logs : ∀ kind, kind ≠ .keySignatures → new.logs.get kind = page.logs.get kind
  name : new.name = page.name

section
variable {page new : Page} {sheet sheet' : Sheet Datum} {made : List (Nat × Note Datum)}
  {tracks : Option (List (Datum × Nat))}

private theorem notesMoved_of_reads (hr : s.Reads page sheet) (hn : sheet.Renewed made k sheet')
    (hk : new.notes = sheet'.notes.map Note.id) : NotesMoved made page new := by
  have hall := hn.notes
  rw [hr.notes, notesOf, List.forall₂_map_left_iff] at hall
  rw [NotesMoved, hk, List.forall₂_map_right_iff]
  exact hall.imp fun n new hm => ⟨_, hm, rfl, rfl⟩

private theorem pageMoved_of_reads (hr : s.Reads page sheet) (hn : sheet.Renewed made k sheet')
    (hk : s'.Keyed page sheet' tracks new) : s.PageMoved s' k page new where
  key := by
    obtain ⟨count, hc, h⟩ := Except.bind_eq_ok_iff.mp hn.metadata
    refine ⟨count, hr.key ▸ hc, ?_⟩
    rw [hk.metadata, ← Except.ok.inj h]
  keys := by
    obtain ⟨entries, he, hchanges⟩ := hr.keys
    refine ⟨entries, _, _, he, hchanges, hn.keys, ?_⟩
    rw [logOf]
    change (s'.logs[new.logs.keySignatures]?).getD .none = _
    rw [hk.keys]
    rfl
  logs := hk.logs
  name := hk.name

end

/-- A track of the new song that comes from a track of the song. -/
structure TrackMoved (s s' : Session) (k : Number) (made : List (Nat × Note Datum))
    (track track' : Datum × Nat) : Prop where
  key : track'.1 = track.1
  notes : NotesMoved made (s.pageAt track.2) (s'.pageAt track'.2)
  page : track.2 < s.pages.size → s.PageMoved s' k (s.pageAt track.2) (s'.pageAt track'.2)

/-- A session with a song that comes from the song at hand of another session. -/
structure Moved (s s' : Session) (k : Number) (made : List (Nat × Note Datum)) : Prop where
  grown : s.Extends s'
  entries : ∀ m ∈ made, ∃ name, (s.note m.1).name = .text name ∧
    NoteName.transposeAny name k = .ok m.2.name ∧
    s'.note m.2.id = { s.note m.1 with name := .text m.2.name }
  ids : ∀ m ∈ made, ∀ m' ∈ made, m.2.id = m'.2.id → m = m'
  keys : s.page.notes.Nodup → (made.map Prod.fst).Nodup
  notes : NotesMoved made s.page s'.page
  page : s.PageMoved s' k s.page s'.page
  tracks : ∃ tracks', (s'.page.tracks = s.page.tracks.map fun _ => tracks') ∧
    List.Forall₂ (s.TrackMoved s' k made) (s.page.tracks.getD []) tracks'

/-- Where the new notes have been added, each is the note that it was made for, with a new name. -/
theorem entry_of_mem_made {song : Song Datum} {r : Renewal Datum}
    (hsound : r.Sound song.Holds k s.notes.size)
    (hnames : ∀ note, song.Holds note → (s.note note.id).name = .text note.name)
    (hs : s'.notes = (s.addNotes (s.newEntries r)).1.notes) {m : Nat × Note Datum}
    (hm : m ∈ r.made) :
    ∃ name, (s.note m.1).name = .text name ∧ NoteName.transposeAny name k = .ok m.2.name ∧
      s'.note m.2.id = { s.note m.1 with name := .text m.2.name } := by
  obtain ⟨note, hholds, hid, hmoved⟩ := hsound.moved m hm
  obtain ⟨name, htransposed, he⟩ := Except.bind_eq_ok_iff.mp hmoved
  have hname : name = m.2.name := congrArg Note.name (Except.ok.inj he)
  refine ⟨note.name, hid ▸ hnames note hholds, hname ▸ htransposed, ?_⟩
  obtain ⟨i, hi, hplace⟩ := hsound.exists_getElem? hm
  have hentry : (s.newEntries r)[i]? = some { s.note m.1 with name := .text m.2.name } := by
    rw [newEntries, List.getElem?_map, hi]
    rfl
  rw [Session.note, hs, hplace, s.getElem?_addNotes hentry]
  rfl

private theorem trackMoved_of_keyedTrack {track track' : Datum × Nat} {sheet sheet' : Sheet Datum}
    {made : List (Nat × Note Datum)} (hr : s.Reads (s.pageAt track.2) sheet)
    (hn : sheet.Renewed made k sheet') (hk : KeyedTrack s s' track sheet' track') :
    s.TrackMoved s' k made track track' := by
  obtain ⟨page, new, hpage, hnew, hkeyed⟩ := hk.exists_new
  have hplace := pageAt_of_getElem? hnew
  refine ⟨hk.key, ?_, fun hin => ?_⟩
  · rw [hplace]
    exact notesMoved_of_reads hr hn hkeyed.notes
  · rw [hplace]
    exact pageMoved_of_reads hr hn (hpage hin ▸ hkeyed)

private theorem moved_withRenewed {song song' : Song Datum} {r : Renewal Datum}
    (hsong : s.keyedSong s.page = .ok song) (hr : song.renewed k = .ok (song', r)) :
    s.Moved (s.withRenewed song' r) k r.made := by
  obtain ⟨hsheet, htracks, hfresh⟩ := reads_of_keyedSong hsong
  obtain ⟨hsound, hrenewed, hall, hnodup⟩ := Song.renewed_spec hr
  rw [hfresh] at hsound
  have hpairs : List.Forall₂
      (fun track sheet' => ∃ sheet, s.Reads (s.pageAt track.2) sheet ∧
        sheet.Renewed r.made k sheet')
      (s.page.tracks.getD []) (song'.tracks.map Prod.snd) :=
    List.forall₂_map_right_iff.mpr
      (forall₂_trans (fun _ _ _ hr hn => ⟨_, hr, hn.2⟩) htracks hall)
  -- first come the notes, then the tracks, then the song, which is taken
  let t := (s.addNotes (s.newEntries r)).1
  obtain ⟨hsheets, hsame, htracks'⟩ := t.addKeyedTracks_spec hpairs
  let u := (t.addKeyedTracks (s.page.tracks.getD []) (song'.tracks.map Prod.snd)).1
  let tracks' := (t.addKeyedTracks (s.page.tracks.getD []) (song'.tracks.map Prod.snd)).2
  let last := u.addKeyed s.page song'.sheet (s.page.tracks.map fun _ => tracks')
  obtain ⟨hpage, hsame', new, hnew, hkeyed⟩ :=
    u.addKeyed_spec s.page song'.sheet (s.page.tracks.map fun _ => tracks')
  have hlast : s.withRenewed song' r = last.1.select last.2 := rfl
  have hselect := extends_select last.1 last.2
  have hnewest : (last.1.select last.2).page = new := pageAt_of_getElem? hnew
  rw [hlast]
  refine
    { grown := ((extends_addNotes s _).trans hsheets).trans (hpage.trans hselect)
      entries := fun m hm => entry_of_mem_made hsound
        (fun note hn => (exists_number_of_holds hsheet htracks hn).2) (hsame'.trans hsame) hm
      ids := fun m hm m' hm' => hsound.eq_of_id hm hm'
      keys := fun hd => hnodup ?_
      notes := ?_
      page := ?_
      tracks := ⟨tracks', ?_, htracks'.imp ?_⟩ }
  · have hids : song.sheet.notes.map Note.id = s.page.notes := by
      rw [hsheet.notes, notesOf, List.map_map]
      exact List.map_id _
    rwa [hids]
  · rw [hnewest]
    exact notesMoved_of_reads hsheet hrenewed hkeyed.notes
  · rw [hnewest]
    exact pageMoved_of_reads hsheet hrenewed (hkeyed.mono hselect)
  · rw [hnewest]
    exact hkeyed.tracks
  · rintro track track' ⟨sheet', ⟨sheet, hreads, hn⟩, hk⟩
    have hk' : KeyedTrack s u track sheet' track' := ⟨hk.key, hk.exists_new⟩
    exact trackMoved_of_keyedTrack hreads hn (hk'.later (hpage.trans hselect))

theorem exists_moved (h : s.transpose semitones = .ok s')
    (h0 : semitones.same (.whole 0) = false) : ∃ k made, s.Moved s' k made ∧
      (semitones.toNumber = .ok k ∨ made = [] ∧ ∃ e, semitones.toNumber = .error e) := by
  obtain ⟨song, k, song', r, hsong, hk, hr, rfl⟩ := (transpose_eq_ok_iff h0).mp h
  obtain ⟨k, hr, hk⟩ := exists_amount hk hr
  exact ⟨k, r.made, moved_withRenewed hsong hr, hk⟩

/-! ### Places of notes -/

/-- The lists of notes of the song at hand: all its notes, and then those of each track. -/
def lists (s : Session) : List (List Nat) :=
  s.page.notes :: (s.page.tracks.getD []).map fun track => (s.pageAt track.2).notes

/-- The number of the note at a place of a list of the song at hand. -/
def listed? (s : Session) (list place : Nat) : Option Nat := s.lists[list]?.bind (·[place]?)

section
variable {made : List (Nat × Note Datum)}

theorem Moved.lists (h : s.Moved s' k made) :
    List.Forall₂ (List.Forall₂ (MadeFor made)) s.lists s'.lists := by
  obtain ⟨tracks', hpage, htracks⟩ := h.tracks
  refine .cons h.notes ?_
  cases ht : s.page.tracks with
  | none =>
    rw [ht] at hpage
    rw [hpage]
    exact .nil
  | some tracks =>
    rw [ht] at hpage htracks
    rw [hpage]
    refine List.forall₂_map_left_iff.mpr (List.forall₂_map_right_iff.mpr ?_)
    exact htracks.imp fun _ _ h => h.notes

private theorem Moved.listed? (h : s.Moved s' k made) (list place : Nat) :
    Option.Rel (MadeFor made) (s.listed? list place) (s'.listed? list place) :=
  rel_bind (fun _ _ hlist => forall₂_getElem? hlist place) (forall₂_getElem? h.lists list)

/-- Each note has one new note if no note of the song stands there twice, and no two notes have the
same. -/
theorem Moved.madeFor_eq_iff (h : s.Moved s' k made) (hd : s.page.notes.Nodup) (n n' m m' : Nat)
    (hn : MadeFor made n n') (hm : MadeFor made m m') : n' = m' ↔ n = m := by
  obtain ⟨entry, he, rfl, rfl⟩ := hn
  obtain ⟨entry', he', rfl, rfl⟩ := hm
  constructor
  · intro hid
    rw [h.ids entry he entry' he' hid]
  · intro hold
    rw [List.inj_on_of_nodup_map (h.keys hd) he he' hold]

end

/-- A transposed song has the shape of the song. It holds one note in two places where the song
does; each note has the name of its pitch moved by the semitones, and of no other pitch, and keeps
all else; and nothing that was there before has changed. -/
theorem transpose_keeps_sharing {tracks : List (Datum × Nat)}
    (h : s.transpose semitones = .ok s') (h0 : semitones.same (.whole 0) = false)
    (ht : s.page.tracks = some tracks) (hd : s.page.notes.Nodup) :
    s'.page.notes.length = s.page.notes.length ∧
      (∃ tracks', s'.page.tracks = some tracks' ∧
        tracks'.map Prod.fst = tracks.map Prod.fst) ∧
      (∀ list place list' place', s'.listed? list place = s'.listed? list' place' ↔
        s.listed? list place = s.listed? list' place') ∧
      (∀ list place n, s.listed? list place = some n → ∃ n' name p k q name',
        s'.listed? list place = some n' ∧ (s.note n).name = .text name ∧
        NoteName.pitch name = .ok p ∧ semitones.toNumber = .ok k ∧
        (Number.whole p).add k = .ok q ∧ NoteName.spellAny q true = .ok name' ∧
        (∀ d, q = .whole d → (∀ d' sharpen, name' = NoteName.spell d' sharpen → d' = d) ∧
          (12 ≤ d → NoteName.pitch name' = .ok d)) ∧
        s'.note n' = { s.note n with name := .text name' }) ∧
      s.Extends s' := by
  obtain ⟨k, made, hmoved, hk⟩ := exists_moved h h0
  refine ⟨hmoved.notes.length_eq.symm, ?_, ?_, ?_, hmoved.grown⟩
  · obtain ⟨tracks', hpage, htracks⟩ := hmoved.tracks
    rw [ht] at hpage htracks
    exact ⟨tracks', hpage, (map_eq_of_forall₂ (htracks.imp fun _ _ h => h.key.symm)).symm⟩
  · intro list place list' place'
    exact rel_eq_iff (hmoved.madeFor_eq_iff hd) (hmoved.listed? list place)
      (hmoved.listed? list' place')
  · intro list place n hn
    have hrel := hmoved.listed? list place
    rw [hn] at hrel
    generalize s'.listed? list place = found at hrel
    cases hrel with
    | some hmade =>
      obtain ⟨m, hm, rfl, rfl⟩ := hmade
      obtain ⟨name, hname, htransposed, hentry⟩ := hmoved.entries m hm
      obtain ⟨p, hp, hq⟩ := Except.bind_eq_ok_iff.mp htransposed
      obtain ⟨q, hq, hspell⟩ := Except.bind_eq_ok_iff.mp hq
      have hsemitones := hk.resolve_right fun hnone => by
        rw [hnone.1] at hm
        cases hm
      refine ⟨_, name, p, k, q, _, rfl, hname, hp, hsemitones, hq, hspell, ?_, hentry⟩
      rintro d rfl
      rw [← Except.ok.inj hspell]
      exact ⟨fun d' sharpen hname => (NoteName.eq_of_spell_eq hname).symm,
        fun hd => NoteName.pitch_spell_of_le hd true⟩

/-- A song of two notes, with a further note that stands in both of its tracks only. -/
def shared : Session where
  notes := #[⟨.text "C4", .whole 0, .whole 1, .none⟩, ⟨.text "E4", .whole 1, .whole 1, .none⟩,
    ⟨.text "G4", .whole 2, .whole 1, .tuple [.whole 3, .whole 5]⟩]
  logs := #[.list [], .list [.tuple [.whole 0, .whole 0, .none]]]
  pages := #[
    ⟨[0, 1], .record [], ⟨0, 0, 0, 0, 1⟩, .none, some [(.whole 1, 1), (.whole 3, 2)], .whole 8, none⟩,
    ⟨[0, 2], .record [], .all 0, .text "Right", none, .whole 8, none⟩,
    ⟨[2, 1], .record [("keySignature", .whole 5)], .all 0, .none, none, .whole 8, none⟩]
  atHand := 0
  saved := []

theorem transpose_shared : ∃ s', shared.transpose (.whole 2) = .ok s' ∧
    s'.listed? 1 1 = s'.listed? 2 0 ∧ s'.listed? 1 0 ≠ s'.listed? 2 1 ∧
    shared.Extends s' := by
  obtain ⟨s', h⟩ := Except.exists_eq_ok (x := shared.transpose (.whole 2)) rfl
  obtain ⟨-, -, hplaces, -, hgrown⟩ := transpose_keeps_sharing h rfl rfl (by decide)
  exact ⟨s', h, (hplaces 1 1 2 0).mpr rfl, fun hne => absurd ((hplaces 1 0 2 1).mp hne) (by decide),
    hgrown⟩

end Session
end LeadSheet
