import LeadSheet.Proofs.Number.Unrounded
import LeadSheet.Session.Accompaniment

/-!
Accompaniments that are added note by note. Nothing can fail once the first note is added: a failure
leaves the session as it was, and else the notes stand behind all others of the song and in a track
of their own.
-/
namespace LeadSheet
open Accompaniment (Strategy Settings Played)

/-- A note that is played, as it is entered. -/
def NoteEntry.ofPlayed (p : Played Number) : NoteEntry :=
  ⟨.text p.name, .number p.start, .number p.duration, .none⟩

namespace Session
variable {s s' : Session} {tracks : List (Datum × Nat)} {key : Datum}

/-! ### Note by note -/

/-- Adds notes to the song at hand and to one of its tracks, one after the other until one fails. -/
def pushAll (key : Datum) (s : Session) : List NoteEntry → Session × Except Failure Unit
  | [] => (s, .ok ())
  | note :: rest =>
    match s.push note key with
    | (s, .error e) => (s, .error e)
    | (s, .ok ()) => pushAll key s rest

/-- An accompaniment for the chord blocks of the song at hand. -/
def withAccompaniment (s : Session) (strategy : Strategy) (settings : Settings) :
    Except Failure (Session × Number) := do
  s.chordBlocks.2
  s.accompany strategy settings s.chordBlocks.1

/-- Adds an accompaniment step by step. Where a step fails, the session stays as it has become. -/
def accompanyInSteps (s : Session) (strategy : Strategy) (settings : Settings) :
    Session × Except Failure Number :=
  match (do s.chordBlocks.2; s.played strategy settings s.chordBlocks.1) with
  | .error e => (s, .error e)
  | .ok notes =>
    match s.nextTrack with
    | .error e => (s, .error e)
    | .ok key =>
      match s.pushAll (.number key) notes with
      | (s, .error e) => (s, .error e)
      | (s, .ok ()) =>
        match s.openTrack (.number key) with
        | .error e => (s, .error e)
        | .ok (s, track) =>
          (s.modifyPage track fun p => { p with name := .text Accompaniment.trackName }, .ok key)

/-! ### The log of chords -/

private theorem markers_of_mapM {entries : List Datum} {found : List (Number × Datum)}
    (h : entries.mapM marker = .ok found) : markers entries = (found, .ok ()) := by
  induction entries generalizing found with
  | nil =>
    obtain rfl := Except.pure_eq_ok_iff.mp h
    rfl
  | cons entry entries ih =>
    obtain ⟨new, rest, hnew, hrest, rfl⟩ := Except.mapM_cons_eq_ok_iff.mp h
    rw [markers, ih hrest, hnew]

/-- Chord markers that make sense are cut into blocks as they stand in the log. -/
theorem chordBlocks_eq_inMeasures {beats : Number} {entries : List Datum}
    {found : List (Number × Datum)} (hbeats : s.beats = .ok (some beats))
    (hentries : s.entries .chords = .ok entries) (hfound : entries.mapM marker = .ok found) :
    s.chordBlocks = ChordBlocks.inMeasures (some beats) found := by
  rw [chordBlocks, hbeats, hentries]
  cases entries with
  | nil =>
    obtain rfl := Except.pure_eq_ok_iff.mp hfound
    rfl
  | cons entry entries =>
    obtain ⟨new, rest, -, -, rfl⟩ := Except.mapM_cons_eq_ok_iff.mp hfound
    dsimp only
    rw [markers_of_mapM hfound, ChordBlocks.inMeasures]
    generalize ChordBlocks.ofChords beats (new :: rest) = blocks
    obtain ⟨blocks, outcome | outcome⟩ := blocks <;> rfl

/-! ### A new track -/

/-- The session with notes added to the song at hand and in a new track of it. -/
def withTrack (s : Session) (tracks : List (Datum × Nat)) (key : Datum) (notes : List NoteEntry)
    (name : Datum) : Session :=
  let numbers := (List.range notes.length).map fun i => s.notes.size + i
  { s with
    notes := s.notes ++ notes.toArray
    logs := s.logs ++ (Logs.all (Datum.list [])).toList.toArray
    pages := (s.pages.modify s.atHand fun p =>
        { p with notes := p.notes ++ numbers, tracks := some (tracks ++ [(key, s.pages.size)]) }).push
      { notes := numbers, metadata := .record [], logs := .numbered s.logs.size, name, tracks := none
        bucketSize := .whole Matching.bucketSize, spans := none } }

section Arrays
variable {β : Type} {xs : Array β} {i : Nat}

private theorem modify_push_of_lt (h : i < xs.size) (b : β) (f : β → β) :
    (xs.push b).modify i f = (xs.modify i f).push b := by
  apply Array.ext_getElem?
  intro j
  rw [Array.getElem?_modify, Array.getElem?_push, Array.getElem?_push, Array.getElem?_modify,
    Array.size_modify]
  split_ifs <;> first | rfl | omega

private theorem modify_push_of_eq (h : i = xs.size) (b : β) (f : β → β) :
    (xs.push b).modify i f = xs.push (f b) := by
  subst h
  apply Array.ext_getElem?
  intro j
  rw [Array.getElem?_modify, Array.getElem?_push, Array.getElem?_push]
  split_ifs <;> first | rfl | omega

private theorem modify_modify (f g : β → β) : (xs.modify i f).modify i g = xs.modify i (g ∘ f) := by
  apply Array.ext_getElem?
  intro j
  rw [Array.getElem?_modify, Array.getElem?_modify, Array.getElem?_modify]
  split_ifs
  · rw [Option.map_map]
  · rfl

end Arrays

/-- Only pages that are there have tracks. -/
theorem lt_size_of_tracks (h : s.page.tracks = some tracks) : s.atHand < s.pages.size := by
  by_contra hge
  rw [page, pageAt, Array.getElem?_eq_none (Nat.le_of_not_lt hge)] at h
  cases h

private theorem tracks_eq_ok (htracks : s.page.tracks = some tracks) : s.tracks = .ok tracks := by
  rw [Session.tracks, htracks]
  rfl

/-- A track that is there is found, and nothing is changed. -/
theorem openTrack_of_find {track : Datum × Nat} (htracks : s.page.tracks = some tracks)
    (hkey : key.isKey = true) (hfind : (tracks.find? fun t => t.1.same key) = some track) :
    s.openTrack key = .ok (s, track.2) := by
  rw [openTrack, tracks_eq_ok htracks]
  simp [hkey, hfind, bind, Except.bind, pure, Except.pure]

/-- A track that is not there is made. -/
theorem openTrack_of_fresh (htracks : s.page.tracks = some tracks) (hkey : key.isKey = true)
    (hfind : (tracks.find? fun t => t.1.same key) = none) :
    s.openTrack key = .ok (s.withTrack tracks key [] .none, s.pages.size) := by
  rw [openTrack, tracks_eq_ok htracks]
  simp [hkey, hfind, bind, Except.bind, pure, Except.pure, addPlain, addPage, modify, modifyPage,
    withTrack, modify_push_of_lt (lt_size_of_tracks htracks)]

private theorem push_eq {number : Nat} {note : NoteEntry} (htracks : s.page.tracks = some tracks)
    (hopen : (s.append note).openTrack key = .ok (s', number)) :
    s.push note key = (s'.putAt number s.notes.size, .ok ()) := by
  rw [push, tracks_eq_ok htracks]
  dsimp only
  rw [hopen]

private theorem page_append (s : Session) (note : NoteEntry) (h : s.atHand < s.pages.size) :
    (s.append note).page = { s.page with notes := s.page.notes ++ [s.notes.size] } := by
  simp [append, putAt, page, pageAt, modifyPage, Array.getElem_modify, h]

private theorem page_withTrack (h : s.atHand < s.pages.size) (tracks : List (Datum × Nat))
    (key : Datum)
    (notes : List NoteEntry) (name : Datum) :
    (s.withTrack tracks key notes name).page =
      { s.page with
        notes := s.page.notes ++ (List.range notes.length).map fun i => s.notes.size + i
        tracks := some (tracks ++ [(key, s.pages.size)]) } := by
  have hne : s.atHand ≠ s.pages.size := Nat.ne_of_lt h
  simp [withTrack, page, pageAt, Array.getElem?_push, Array.getElem_modify, h, hne]

/-- A new key. -/
structure Fresh (tracks : List (Datum × Nat)) (key : Datum) : Prop where
  isKey : key.isKey = true
  same_self : key.same key = true
  forall_mem : ∀ track ∈ tracks, track.1.same key = false

private theorem Fresh.find?_eq_none (h : Fresh tracks key) :
    (tracks.find? fun t => t.1.same key) = none :=
  List.find?_eq_none.mpr fun track ht => ne_true_of_eq_false (h.forall_mem track ht)

private theorem Fresh.find?_concat (h : Fresh tracks key) (number : Nat) :
    ((tracks ++ [(key, number)]).find? fun t => t.1.same key) = some (key, number) := by
  rw [List.find?_append, h.find?_eq_none, List.find?_singleton, if_pos h.same_self]
  rfl

/-- The first note makes its track. -/
theorem push_of_fresh (htracks : s.page.tracks = some tracks) (hfresh : Fresh tracks key)
    (note : NoteEntry) : s.push note key = (s.withTrack tracks key [note] .none, .ok ()) := by
  have hlt := lt_size_of_tracks htracks
  have happend : (s.append note).page.tracks = some tracks := by
    rw [page_append s note hlt]
    exact htracks
  rw [push_eq htracks (openTrack_of_fresh happend hfresh.isKey hfresh.find?_eq_none)]
  refine congrArg (·, Except.ok ()) ?_
  simp [withTrack, append, putAt, modifyPage, modify_modify, modify_push_of_eq, Function.comp_def]

/-- A further note finds it. -/
theorem push_withTrack (htracks : s.page.tracks = some tracks) (hfresh : Fresh tracks key)
    (notes : List NoteEntry) (name : Datum) (note : NoteEntry) :
    (s.withTrack tracks key notes name).push note key =
      (s.withTrack tracks key (notes ++ [note]) name, .ok ()) := by
  have hlt := lt_size_of_tracks htracks
  have hpage := page_withTrack hlt tracks key notes name
  have hat : (s.withTrack tracks key notes name).atHand <
      (s.withTrack tracks key notes name).pages.size := by
    simp only [withTrack, Array.size_push, Array.size_modify]
    exact Nat.lt_succ_of_lt hlt
  have happend : ((s.withTrack tracks key notes name).append note).page.tracks =
      some (tracks ++ [(key, s.pages.size)]) := by
    rw [page_append _ note hat, hpage]
  have htracks' : (s.withTrack tracks key notes name).page.tracks =
      some (tracks ++ [(key, s.pages.size)]) := by
    rw [hpage]
  rw [push_eq htracks' (openTrack_of_find happend hfresh.isKey (hfresh.find?_concat _))]
  refine congrArg (·, Except.ok ()) ?_
  simp [withTrack, append, putAt, modifyPage, modify_push_of_lt, hlt, modify_modify,
    modify_push_of_eq, Function.comp_def, List.range_succ]

/-- Notes behind the first one join it. -/
theorem pushAll_withTrack (htracks : s.page.tracks = some tracks) (hfresh : Fresh tracks key)
    (front notes : List NoteEntry) (name : Datum) :
    (s.withTrack tracks key front name).pushAll key notes =
      (s.withTrack tracks key (front ++ notes) name, .ok ()) := by
  induction notes generalizing front with
  | nil => rw [List.append_nil, pushAll]
  | cons note notes ih =>
    rw [pushAll, push_withTrack htracks hfresh]
    dsimp only
    rw [ih, List.append_assoc, List.singleton_append]

/-- However many notes there are, in the end they stand in a new track. -/
theorem openTrack_pushAll (htracks : s.page.tracks = some tracks) (hfresh : Fresh tracks key)
    (notes : List NoteEntry) :
    (s.pushAll key notes).1.openTrack key =
      .ok (s.withTrack tracks key notes .none, s.pages.size) := by
  have hlt := lt_size_of_tracks htracks
  cases notes with
  | nil => exact openTrack_of_fresh htracks hfresh.isKey hfresh.find?_eq_none
  | cons note notes =>
    rw [pushAll, push_of_fresh htracks hfresh]
    dsimp only
    rw [pushAll_withTrack htracks hfresh]
    refine openTrack_of_find ?_ hfresh.isKey (hfresh.find?_concat s.pages.size)
    rw [page_withTrack hlt]

/-! ### Nothing fails -/

/-- The page at hand has tracks. -/
def HasTracks (s : Session) : Prop := ∃ tracks, s.page.tracks = some tracks

private theorem page_modifyPage (s : Session) (number : Nat) (f : Page → Page) :
    (s.modifyPage number f).page =
      if number = s.atHand ∧ s.atHand < s.pages.size then f s.page else s.page := by
  simp only [page, pageAt, modifyPage, Array.getElem?_modify]
  split_ifs <;> grind

private theorem HasTracks.putAt (h : s.HasTracks) (page number : Nat) : (s.putAt page number).HasTracks := by
  rw [HasTracks, Session.putAt, page_modifyPage]
  split_ifs
  · exact h
  · exact h

private theorem HasTracks.openTrack (h : s.HasTracks) (hkey : key.isKey = true) :
    ∃ s' number, s.openTrack key = .ok (s', number) ∧ s'.HasTracks := by
  obtain ⟨tracks, htracks⟩ := h
  cases hfind : tracks.find? fun t => t.1.same key with
  | some track => exact ⟨s, _, openTrack_of_find htracks hkey hfind, tracks, htracks⟩
  | none =>
    refine ⟨_, _, openTrack_of_fresh htracks hkey hfind, tracks ++ [(key, s.pages.size)], ?_⟩
    rw [page_withTrack (lt_size_of_tracks htracks)]

private theorem HasTracks.push (h : s.HasTracks) (hkey : key.isKey = true) (note : NoteEntry) :
    ∃ s', s.push note key = (s', .ok ()) ∧ s'.HasTracks := by
  have happend : (s.append note).HasTracks :=
    HasTracks.putAt (s := { s with notes := s.notes.push note }) h s.atHand s.notes.size
  obtain ⟨s', number, hopen, hs'⟩ := happend.openTrack hkey
  obtain ⟨tracks, htracks⟩ := h
  exact ⟨_, push_eq htracks hopen, hs'.putAt number s.notes.size⟩

/-- Notes can be added to a song one after the other. -/
theorem HasTracks.pushAll (h : s.HasTracks) (hkey : key.isKey = true) (notes : List NoteEntry) :
    s.pushAll key notes = (notes.foldl (fun s note => (s.push note key).1) s, .ok ()) ∧
      (s.pushAll key notes).1.HasTracks := by
  induction notes generalizing s with
  | nil => exact ⟨rfl, h⟩
  | cons note notes ih =>
    obtain ⟨s', hpush, hs'⟩ := h.push hkey note
    rw [Session.pushAll, List.foldl_cons, hpush]
    exact ih hs'

private theorem hasTracks_of_nextTrack {number : Number} (h : s.nextTrack = .ok number) :
    s.HasTracks := by
  obtain ⟨tracks, htracks, -⟩ := Except.bind_eq_ok_iff.mp h
  rw [Session.tracks] at htracks
  cases hpage : s.page.tracks with
  | none =>
    rw [hpage] at htracks
    cases htracks
  | some tracks => exact ⟨tracks, hpage⟩

/-- Step by step or all at once makes no difference. -/
theorem accompanyInSteps_eq (s : Session) (strategy : Strategy) (settings : Settings) :
    s.accompanyInSteps strategy settings =
      match s.withAccompaniment strategy settings with
      | .error e => (s, .error e)
      | .ok (s', key) => (s', .ok key) := by
  rw [accompanyInSteps, withAccompaniment]
  cases hblocks : s.chordBlocks.2 with
  | error e => rfl
  | ok =>
    change (match s.played strategy settings s.chordBlocks.1 with | .error e => _ | .ok notes => _) =
      match s.accompany strategy settings s.chordBlocks.1 with | .error e => _ | .ok (s', key) => _
    rw [accompany]
    cases hplayed : s.played strategy settings s.chordBlocks.1 with
    | error e => rfl
    | ok notes =>
      cases hnext : s.nextTrack with
      | error e => rfl
      | ok key =>
        have hkey : (Datum.number key).isKey = true := rfl
        obtain ⟨hpush, htracks⟩ := (hasTracks_of_nextTrack hnext).pushAll hkey notes
        obtain ⟨s', number, hopen, -⟩ := htracks.openTrack hkey
        rw [hpush] at hopen
        dsimp only [bind, Except.bind]
        rw [hpush]
        dsimp only
        rw [hopen]
        rfl

/-! ### The key of the new track -/

/-- A datum that counts as a whole number is the same as this number and no other. -/
theorem same_whole_iff {d : Datum} {k m : Int} (h : d.toNumber = .ok (.whole k)) :
    d.same (.whole m) = true ↔ k = m := by
  have hsame : d.same (.whole m) = Number.same (.whole k) (.whole m) := by
    cases d with
    | truth value =>
      rw [← Except.ok.inj h]
      rfl
    | number value =>
      rw [← Except.ok.inj h]
      rfl
    | none | text | list | tuple | record => cases h
  rw [hsame, (Number.Exact.whole k).standsFor.same_iff (Number.Exact.whole m).standsFor]
  exact Int.cast_inj

private theorem exists_greatest_whole {first : Number} {numbers : List Number}
    (h : ∀ n ∈ first :: numbers, ∃ k : Int, n = .whole k) :
    ∃ m : Int, numbers.foldl (fun a b => if a.lt b then b else a) first = .whole m ∧
      ∀ k, Number.whole k ∈ first :: numbers → k ≤ m := by
  induction numbers generalizing first with
  | nil =>
    obtain ⟨m, rfl⟩ := h first (List.mem_cons_self ..)
    refine ⟨m, rfl, fun k hk => ?_⟩
    rw [Number.whole.inj (List.mem_singleton.mp hk)]
  | cons second numbers ih =>
    obtain ⟨⟨a, rfl⟩, ⟨b, rfl⟩, hrest⟩ := (List.forall_mem_cons.trans
      (and_congr_right' List.forall_mem_cons)).mp h
    have hlt : Number.lt (.whole a) (.whole b) = true ↔ a < b :=
      ((Number.Exact.whole a).standsFor.lt_iff (Number.Exact.whole b).standsFor).trans Int.cast_lt
    have hfirst : (if Number.lt (.whole a) (.whole b) then Number.whole b else .whole a) =
        .whole (max a b) := by
      split_ifs with hab
      · rw [max_eq_right (hlt.mp hab).le]
      · rw [max_eq_left (not_lt.mp (hlt.not.mp hab))]
    rw [List.foldl_cons, hfirst]
    obtain ⟨m, hm, hle⟩ := ih (List.forall_mem_cons.mpr ⟨⟨_, rfl⟩, hrest⟩)
    have hmax := hle _ (List.mem_cons_self ..)
    refine ⟨m, hm, fun k hk => ?_⟩
    rcases List.mem_cons.mp hk with hka | hk
    · rw [Number.whole.inj hka]
      exact (le_max_left a b).trans hmax
    · rcases List.mem_cons.mp hk with hkb | hk
      · rw [Number.whole.inj hkb]
        exact (le_max_right a b).trans hmax
      · exact hle k (List.mem_cons_of_mem _ hk)

/-- All keys are whole numbers. -/
def WholeKeys (tracks : List (Datum × Nat)) : Prop :=
  ∀ track ∈ tracks, ∃ k : Int, track.1.toNumber = .ok (.whole k)

/-- The key of a further track is behind all whole keys. -/
theorem nextTrack_of_whole (htracks : s.page.tracks = some tracks) (hwhole : WholeKeys tracks) :
    ∃ m : Int, s.nextTrack = .ok (.whole m) ∧
      ∀ track ∈ tracks, ∃ k < m, track.1.toNumber = .ok (.whole k) := by
  obtain ⟨numbers, hnumbers⟩ := Except.exists_mapM_eq_ok fun track ht =>
    (hwhole track ht).imp' _ fun _ hk => hk
  have hall : ∀ n ∈ numbers, ∃ k : Int, n = .whole k := by
    intro n hn
    obtain ⟨track, ht, hn⟩ := Except.exists_of_mem_mapM hnumbers hn
    obtain ⟨k, hk⟩ := hwhole track ht
    exact ⟨k, Except.ok.inj (hn.symm.trans hk)⟩
  have hof (m : Int) (hlt : ∀ k, Number.whole k ∈ numbers → k < m) :
      ∀ track ∈ tracks, ∃ k < m, track.1.toNumber = .ok (.whole k) := by
    intro track ht
    obtain ⟨n, hn, hnumber⟩ := Except.exists_mem_of_mapM hnumbers ht
    obtain ⟨k, rfl⟩ := hall n hn
    exact ⟨k, hlt k hn, hnumber⟩
  rw [nextTrack, tracks_eq_ok htracks]
  dsimp only [bind, Except.bind]
  rw [hnumbers]
  cases numbers with
  | nil => exact ⟨1, rfl, hof 1 fun k hk => (List.not_mem_nil hk).elim⟩
  | cons first rest =>
    obtain ⟨m, hm, hle⟩ := exists_greatest_whole hall
    refine ⟨m + 2, ?_, hof (m + 2) fun k hk => ?_⟩
    · dsimp only
      rw [hm]
      rfl
    · have := hle k hk
      omega

private theorem fresh_nextTrack (htracks : s.page.tracks = some tracks) (hwhole : WholeKeys tracks)
    {key : Number} (hkey : s.nextTrack = .ok key) : Fresh tracks (.number key) := by
  obtain ⟨m, hm, hlt⟩ := nextTrack_of_whole htracks hwhole
  obtain rfl : Number.whole m = key := Except.ok.inj (hm.symm.trans hkey)
  refine ⟨rfl, (same_whole_iff rfl).mpr rfl, fun track ht => ?_⟩
  obtain ⟨k, hk, hnumber⟩ := hlt track ht
  exact Bool.eq_false_of_not_eq_true fun h => hk.ne ((same_whole_iff hnumber).mp h)

/-! ### All or nothing -/

/-- Notes that a strategy plays for the blocks of the song at hand, in the order of the blocks. -/
def Plays (s : Session) (strategy : Strategy) (settings : Settings) (added : List NoteEntry) :
    Prop :=
  ∃ sheet plays, s.melody = .ok sheet ∧ s.chordBlocks.1.kept.Forall₂ (fun b played => ∃ symbol,
    ChordSymbol.ofDatum b.chord = .ok symbol ∧
      strategy.play sheet settings symbol b.start b.stop = .ok played) plays ∧
    added = plays.flatten.map NoteEntry.ofPlayed

private theorem plays_of_played {strategy : Strategy} {settings : Settings} {added : List NoteEntry}
    (h : s.played strategy settings s.chordBlocks.1 = .ok added) :
    s.Plays strategy settings added := by
  obtain ⟨sheet, hsheet, h⟩ := Except.bind_eq_ok_iff.mp h
  obtain ⟨plays, hplays, h⟩ := Except.bind_eq_ok_iff.mp h
  refine ⟨sheet, plays, hsheet, ?_, (Except.pure_eq_ok_iff.mp h).symm⟩
  refine (Except.mapM_eq_ok_iff_forall₂.mp hplays).imp fun b played hb => ?_
  exact Except.bind_eq_ok_iff.mp hb

/-- What a session has become when notes stand behind all others of the song at hand, and alone in a
new track of it. -/
structure Accompanied (s s' : Session) (key : Datum) (added : List NoteEntry) : Prop where
  /-- no track had the key -/
  fresh : ∀ tracks, s.page.tracks = some tracks → ∀ track ∈ tracks, track.1.same key = false
  notes : s'.notes = s.notes ++ added.toArray
  page : s'.page = { s.page with
    notes := s.page.notes ++ (List.range added.length).map fun i => s.notes.size + i
    tracks := s.page.tracks.map (· ++ [(key, s.pages.size)]) }
  track : s'.pages[s.pages.size]? = some
    { notes := (List.range added.length).map fun i => s.notes.size + i
      metadata := .record []
      logs := .numbered s.logs.size
      name := .text Accompaniment.trackName
      tracks := none
      bucketSize := .whole Matching.bucketSize
      spans := none }
  /-- all other pages, those of the other tracks among them -/
  others : ∀ number < s.pages.size, number ≠ s.atHand → s'.pageAt number = s.pageAt number
  logs : s'.logs = s.logs ++ (Logs.all (Datum.list [])).toList.toArray
  atHand : s'.atHand = s.atHand
  saved : s'.saved = s.saved

private theorem accompanied_withTrack (htracks : s.page.tracks = some tracks)
    (hfresh : Fresh tracks key)
    (added : List NoteEntry) :
    s.Accompanied (s.withTrack tracks key added (.text Accompaniment.trackName)) key added where
  fresh tracks' htracks' := by
    obtain rfl := Option.some.inj (htracks.symm.trans htracks')
    exact hfresh.forall_mem
  notes := rfl
  page := by
    rw [page_withTrack (lt_size_of_tracks htracks), htracks]
    rfl
  track := by
    dsimp only [withTrack]
    rw [Array.getElem?_push, if_pos Array.size_modify.symm]
  others number hlt hne := by
    simp [withTrack, pageAt, Array.getElem?_push, Array.getElem?_modify, hlt.ne, hne.symm]
  logs := rfl
  atHand := rfl
  saved := rfl

/-- Where all keys are whole, a further track is a new one. -/
theorem accompanied_of_accompany {strategy : Strategy} {settings : Settings}
    {blocks : ChordBlocks Number Datum} {number : Number}
    (hwhole : ∀ tracks, s.page.tracks = some tracks → WholeKeys tracks)
    (h : s.accompany strategy settings blocks = .ok (s', number)) :
    ∃ added, s.played strategy settings blocks = .ok added ∧
      s.Accompanied s' (.number number) added := by
  obtain ⟨added, hadded, h⟩ := Except.bind_eq_ok_iff.mp h
  obtain ⟨number', hnumber, h⟩ := Except.bind_eq_ok_iff.mp h
  obtain ⟨⟨opened, track⟩, hopen, h⟩ := Except.bind_eq_ok_iff.mp h
  obtain ⟨rfl, rfl⟩ := Prod.mk.inj (Except.pure_eq_ok_iff.mp h)
  have hkey : (Datum.number number').isKey = true := rfl
  have hhas := hasTracks_of_nextTrack hnumber
  obtain ⟨hpush, -⟩ := hhas.pushAll hkey added
  obtain ⟨tracks, htracks⟩ := hhas
  have hfresh := fresh_nextTrack htracks (hwhole tracks htracks) hnumber
  have hopened := openTrack_pushAll htracks hfresh added
  rw [hpush, hopen] at hopened
  obtain ⟨rfl, rfl⟩ := Prod.mk.inj (Except.ok.inj hopened)
  refine ⟨added, hadded, ?_⟩
  have hnamed : (s.withTrack tracks (.number number') added .none).modifyPage s.pages.size
      (fun p => { p with name := .text Accompaniment.trackName }) =
        s.withTrack tracks (.number number') added (.text Accompaniment.trackName) := by
    simp [withTrack, modifyPage, modify_push_of_eq]
  rw [hnamed]
  exact accompanied_withTrack htracks hfresh added

/-- An accompaniment is added as a whole or not at all. Made step by step, it leaves the session as it
was when it fails; else all that is played stands behind the other notes of the song, and alone in a
new track. -/
theorem withAccompaniment_all_or_nothing (s : Session) (strategy : Strategy) (settings : Settings) :
    (∀ e, s.withAccompaniment strategy settings = .error e →
      s.accompanyInSteps strategy settings = (s, .error e)) ∧
    ∀ s' key, s.withAccompaniment strategy settings = .ok (s', key) →
      s.accompanyInSteps strategy settings = (s', .ok key) ∧
      ((∀ tracks, s.page.tracks = some tracks → WholeKeys tracks) →
        ∃ added, s.Plays strategy settings added ∧ s.Accompanied s' (.number key) added) := by
  have hsteps := s.accompanyInSteps_eq strategy settings
  constructor
  · intro e h
    rw [hsteps, h]
  · intro s' key h
    refine ⟨by rw [hsteps, h], fun hwhole => ?_⟩
    obtain ⟨-, -, h⟩ := Except.bind_eq_ok_iff.mp h
    obtain ⟨added, hadded, haccompanied⟩ := accompanied_of_accompany hwhole h
    exact ⟨added, plays_of_played hadded, haccompanied⟩

/-- A song with a track at minus three and one at five, and with two chords. -/
def sparse : Session where
  notes := #[⟨.text "C5", .whole 0, .whole 8, .none⟩]
  logs := #[.list [.tuple [.whole 0, .tuple [.text "C", .text "M"]],
      .tuple [.whole 4, .tuple [.text "G", .text "7"]]],
    .list [], .list [], .list [], .list []]
  pages :=
    let page (notes : List Nat) (tracks : Option (List (Datum × Nat))) : Page :=
      { notes, metadata := .record [("beatsPerMeasure", .whole 4)], logs := .numbered 0, name := .none
        tracks, bucketSize := .whole 8, spans := none }
    #[page [0] (some [(.whole 5, 1), (.whole (-3), 2)]), page [0] none, page [] none]
  atHand := 0
  saved := []

/-- Without a pattern nothing is added, even though the chords have blocks; roots are added as track
seven. -/
theorem withAccompaniment_all_or_nothing_sparse :
    sparse.accompanyInSteps .base .plain = (sparse, .error .noPattern) ∧
    ∃ s' added, sparse.accompanyInSteps .root .plain = (s', .ok 7) ∧
      sparse.Plays .root .plain added ∧ sparse.Accompanied s' (.whole 7) added := by
  constructor
  · apply (withAccompaniment_all_or_nothing sparse .base .plain).1
    have h : (sparse.withAccompaniment .base .plain).map Prod.snd = .error .noPattern := by
      decide +kernel
    cases hrun : sparse.withAccompaniment .base .plain with
    | error e =>
      rw [hrun] at h
      exact congrArg Except.error (Except.error.inj h)
    | ok result =>
      rw [hrun] at h
      cases h
  · have h : (sparse.withAccompaniment .root .plain).map Prod.snd = .ok 7 := by decide +kernel
    obtain ⟨⟨s', key⟩, hrun, rfl⟩ := Except.map_eq_ok_iff.mp h
    obtain ⟨hsteps, hadded⟩ := (withAccompaniment_all_or_nothing sparse .root .plain).2 s' _ hrun
    have hwhole : ∀ tracks, sparse.page.tracks = some tracks → WholeKeys tracks := by
      rintro _ ⟨⟩
      exact List.forall_mem_cons.mpr ⟨⟨5, rfl⟩, List.forall_mem_singleton.mpr ⟨-3, rfl⟩⟩
    obtain ⟨added, hplays, haccompanied⟩ := hadded hwhole
    exact ⟨s', added, hsteps, hplays, haccompanied⟩

end Session
end LeadSheet
