import LeadSheet.Proofs.Session.Content
import LeadSheet.Proofs.Session.Transposition

/-!
Songs that are transposed more than once. What a song says moves with its notes and keys, so that
two transpositions are one by the sum of the semitones. Notes get new names on the way; only where
the sum is zero, and the song is left as it is, may the names differ.
-/
namespace LeadSheet

/-! ### Names -/

/-- The name of the note is the one that its pitch is spelled with. -/
def NoteEntry.Spelled (e : NoteEntry) : Prop :=
  ∃ p, e.name = .text (NoteName.ofPitch p) ∧ 12 ≤ p

private theorem NoteEntry.Spelled.pitch_heard {e : NoteEntry} {p : Int}
    (hn : e.name = .text (NoteName.ofPitch p)) (hp : 12 ≤ p) : e.heard.pitch = .ok p := by
  rw [NoteEntry.heard, hn]
  exact NoteName.pitch_spell_of_le hp true

/-- Notes that are spelled by their pitches are the same when they are heard alike. -/
theorem NoteEntry.Spelled.eq_of_heard {e e' : NoteEntry} (h : e.Spelled) (h' : e'.Spelled)
    (hh : e.heard = e'.heard) : e = e' := by
  obtain ⟨p, hn, hp⟩ := h
  obtain ⟨p', hn', hp'⟩ := h'
  have hpitch := congrArg Heard.pitch hh
  rw [pitch_heard hn hp, pitch_heard hn' hp'] at hpitch
  cases hpitch
  obtain ⟨name, start, duration, location⟩ := e
  obtain ⟨name', start', duration', location'⟩ := e'
  obtain ⟨-, rfl, rfl, rfl⟩ := Heard.mk.inj hh
  cases hn
  cases hn'
  rfl

/-! ### Keys -/

/-- A place in the text is logged as it was. -/
theorem Location.toDatum_ofDatum (d : Datum) : (ofDatum d).toDatum = d := by
  unfold ofDatum
  split <;> rfl

/-- A change of key is read, moved, and logged again. -/
theorem change_spec {d : Datum} (h : IsChange d) (k : Int) :
    ∃ change change', KeyChange.ofDatum d = .ok change ∧
      change.transposed (.whole k) = .ok change' ∧ change'.toDatum = movedChange k d := by
  obtain ⟨beat, count, location, rfl, ⟨n, rfl, -⟩⟩ := h
  have hmoved (l : Option Location) :
      KeyChange.transposed ⟨beat, .whole n, l⟩ (.whole k) =
        .ok ⟨beat, .whole (KeySignature.transposeCount n k), l⟩ := by
    rw [KeyChange.transposed, KeySignature.transposed_whole]
    rfl
  refine ⟨_, _, rfl, hmoved _, ?_⟩
  have hlocation : ((location.toOption.map Location.ofDatum).map Location.toDatum).getD .none =
      location := by
    have hback : Location.toDatum ∘ Location.ofDatum = id := funext Location.toDatum_ofDatum
    rw [Option.map_map, hback, Option.map_id_fun]
    cases location <;> rfl
  rw [KeyChange.toDatum, hlocation]
  rfl

private theorem changes_spec {entries : List Datum} (h : ∀ entry ∈ entries, IsChange entry)
    (k : Int) :
    ∃ changes changes', entries.mapM KeyChange.ofDatum = .ok changes ∧
      changes.mapM (·.transposed (.whole k)) = .ok changes' ∧
      changes'.map KeyChange.toDatum = entries.map (movedChange k) := by
  induction entries with
  | nil => exact ⟨[], [], rfl, rfl, rfl⟩
  | cons entry entries ih =>
    obtain ⟨hentry, hentries⟩ := List.forall_mem_cons.mp h
    obtain ⟨change, change', ho, hm, hd⟩ := change_spec hentry k
    obtain ⟨changes, changes', hos, hms, hds⟩ := ih hentries
    refine ⟨change :: changes, change' :: changes', ?_, ?_, ?_⟩
    · exact Except.mapM_cons_eq_ok_iff.mpr ⟨_, _, ho, hos, rfl⟩
    · exact Except.mapM_cons_eq_ok_iff.mpr ⟨_, _, hm, hms, rfl⟩
    · rw [List.map_cons, List.map_cons, hd, hds]

namespace Session
variable {s s' : Session} {k : Int} {P : Int → Prop}

/-- The key of a piece is moved where it stands in the record. -/
theorem key_spec {page : Page} (h : (s.contentOf page).Regular P) (k : Int) :
    ∃ count, (keyOf page.metadata).mapM (KeySignature.transposed · (.whole k)) = .ok count ∧
      keyedMetadata page.metadata count = movedMetadata k page.metadata := by
  obtain ⟨fields, hm, hd, hcount⟩ := h.fields
  change page.metadata = .record fields at hm
  rw [hm]
  cases hl : fields.lookup "keySignature" with
  | none =>
    have hkey : keyOf (.record fields) = none := by
      rw [keyOf, Datum.hasField, hl]
      rfl
    refine ⟨none, by rw [hkey]; rfl, ?_⟩
    rw [keyedMetadata, movedMetadata, map_eq_self fun f hf => ?_]
    have hne := List.lookup_eq_none_iff.mp hl f hf
    exact if_neg fun he => by simp [he] at hne
  | some value =>
    obtain ⟨before, behind, he, -⟩ := List.lookup_eq_some_iff.mp hl
    have hmem : ("keySignature", value) ∈ fields := by
      rw [he]
      exact List.mem_append_right _ (List.mem_cons_self ..)
    obtain ⟨n, rfl, -⟩ := hcount _ hmem rfl
    have hkey : keyOf (.record fields) = some (.whole n) := by
      rw [keyOf, Datum.hasField, Datum.field, hl]
      rfl
    refine ⟨some (.whole (KeySignature.transposeCount n k)), ?_, ?_⟩
    · rw [hkey]
      change some <$> KeySignature.transposed (.whole n) (.whole k) = _
      rw [KeySignature.transposed_whole]
      rfl
    · rw [keyedMetadata, Datum.withField, hl, movedMetadata]
      refine congrArg Datum.record (List.map_congr_left fun f hf => ?_)
      rw [movedField]
      split
      · next hf' =>
        have heq : f = ("keySignature", .whole n) := List.inj_on_of_nodup_map hd hf hmem hf'
        rw [heq]
        rfl
      · rfl

/-! ### Reading pages -/

/-- A note with a pitch has a text for a name. -/
theorem exists_name_of_heard {e : NoteEntry} {p : Int} (h : e.heard.pitch = .ok p) :
    ∃ name, e.name = .text name ∧ NoteName.pitch name = .ok p := by
  obtain ⟨name, hn, hp⟩ := Except.bind_eq_ok_iff.mp h
  exact ⟨name, eq_text_of_toText hn, hp⟩

private theorem exists_keyedSheet {page : Page} (h : (s.contentOf page).Regular P) :
    ∃ sheet, s.keyedSheet page = .ok sheet := by
  obtain ⟨entries, he⟩ := h.logs .keySignatures
  obtain ⟨changes, -, ho, -, -⟩ := changes_spec (h.keys entries he) 0
  have hnames : ∃ names, page.notes.mapM (fun n => (s.note n).name.toText) = .ok names := by
    refine Except.exists_mapM_eq_ok fun n hn => ?_
    obtain ⟨p, hp, -⟩ := h.notes _ (List.mem_map_of_mem hn)
    obtain ⟨name, ht, -⟩ := exists_name_of_heard hp
    exact ⟨name, by rw [ht]; rfl⟩
  have hparts : (s.logOf page .keySignatures).parts = .ok entries := by
    change s.logOf page .keySignatures = .list entries at he
    rw [he]
    rfl
  obtain ⟨names, hn⟩ := hnames
  exact Except.exists_bind_eq_ok hn (Except.exists_bind_eq_ok hparts
    (Except.exists_bind_eq_ok ho ⟨_, rfl⟩))

/-- What is read of a page in good order can be moved. -/
theorem movable_of_reads {page : Page} {sheet : Sheet Datum} (h : (s.contentOf page).Regular P)
    (hr : s.Reads page sheet) (k : Int) : sheet.Movable (.whole k) ∧
      ∀ note ∈ sheet.notes, ∃ moved, note.transposed (.whole k) = .ok moved := by
  refine ⟨⟨?_, ?_⟩, ?_⟩
  · obtain ⟨count, hc, -⟩ := key_spec h k
    rw [← hr.key] at hc
    exact Except.exists_bind_eq_ok hc ⟨_, rfl⟩
  · obtain ⟨entries, he⟩ := h.logs .keySignatures
    change s.logOf page .keySignatures = .list entries at he
    obtain ⟨changes, changes', ho, hm, -⟩ := changes_spec (h.keys entries he) k
    obtain ⟨entries', hp, hkeys⟩ := hr.keys
    rw [he] at hp
    cases hp
    cases ho.symm.trans hkeys
    exact ⟨changes', hm⟩
  · rw [hr.notes]
    intro note hn
    obtain ⟨n, hmem, rfl⟩ := List.mem_map.mp hn
    obtain ⟨p, hp, -⟩ := h.notes _ (List.mem_map_of_mem hmem)
    obtain ⟨name, ht, hp⟩ := exists_name_of_heard hp
    have hname : ((s.note n).toNote n).name = name := by
      change (s.note n).name.toText.toOption.getD "" = name
      rw [ht]
      rfl
    have hmoved : NoteName.transposeAny name (.whole k) = .ok (NoteName.ofPitch (p + k)) := by
      rw [NoteName.transposeAny, hp]
      rfl
    exact ⟨_, by rw [Note.transposed, hname, hmoved]; rfl⟩

/-! ### Reading songs -/

private theorem regular_track (h : s.content.Regular P) {track : Datum × Nat}
    (ht : track ∈ s.page.tracks.getD []) : (s.contentOf (s.pageAt track.2)).Regular P := by
  obtain ⟨tracks, hs, hm⟩ : ∃ tracks, s.page.tracks = some tracks ∧ track ∈ tracks := by
    cases hs : s.page.tracks with
    | none =>
      rw [hs] at ht
      cases ht
    | some tracks =>
      rw [hs] at ht
      exact ⟨tracks, rfl, ht⟩
  refine h.tracks (tracks.map fun track => (track.1, s.contentOf (s.pageAt track.2))) ?_ _
    (List.mem_map_of_mem hm)
  change s.page.tracks.map _ = _
  rw [hs]
  rfl

private theorem exists_keyedSong (h : s.content.Regular P) :
    ∃ song, s.keyedSong s.page = .ok song := by
  obtain ⟨sheet, hs⟩ := exists_keyedSheet h.page
  have htracks (entry : (Datum × Nat) × Nat) (he : entry ∈ (s.page.tracks.getD []).zipIdx) :
      ∃ track, (do return ((entry.2 : Int), ← s.keyedSheet (s.pageAt entry.1.2))) = .ok track := by
    obtain ⟨sheet, hs⟩ := exists_keyedSheet (regular_track h (List.fst_mem_of_mem_zipIdx he))
    exact Except.exists_bind_eq_ok hs ⟨_, rfl⟩
  obtain ⟨tracks, ht⟩ := Except.exists_mapM_eq_ok htracks
  exact Except.exists_bind_eq_ok hs (Except.exists_bind_eq_ok ht ⟨_, rfl⟩)

private theorem same_zero (k : Int) : (Datum.whole k).same (.whole 0) = decide (k = 0) := by
  have hle (m n : Int) : (Number.whole m).le (.whole n) = decide (m ≤ n) := by
    simp only [Number.le, Number.place, Number.exact, Int.lt_irrefl, decide_false, BEq.rfl,
      Rat.intCast_le_intCast, Bool.true_and, Bool.false_or]
  change ((Number.whole k).le (.whole 0) && (Number.whole 0).le (.whole k)) = decide (k = 0)
  rw [hle, hle, ← Bool.decide_and, decide_eq_decide, Int.le_antisymm_iff]

/-- A song in good order can be transposed by any whole number. -/
theorem exists_transpose (h : s.content.Regular P) (k : Int) :
    ∃ s', s.transpose (.whole k) = .ok s' := by
  by_cases hk : k = 0
  · exact ⟨s, if_pos (by rw [same_zero, decide_eq_true hk])⟩
  have h0 : (Datum.whole k).same (.whole 0) = false := by rw [same_zero, decide_eq_false hk]
  obtain ⟨song, hsong⟩ := exists_keyedSong h
  obtain ⟨hsheet, htracks, -⟩ := reads_of_keyedSong hsong
  obtain ⟨hmovable, hnotes⟩ := movable_of_reads h.page hsheet k
  have hall : ∀ entry ∈ song.tracks, entry.2.Movable (.whole k) ∧
      ∀ note ∈ entry.2.notes, ∃ moved, note.transposed (.whole k) = .ok moved := by
    intro entry he
    obtain ⟨track, ht, hr⟩ := exists_of_mem_forall₂ htracks he
    exact movable_of_reads (regular_track h ht) hr k
  obtain ⟨⟨song', r⟩, hr⟩ := Song.exists_renewed
    (fun note hn => hn.elim (hnotes note) fun ⟨entry, he, hn⟩ => (hall entry he).2 note hn)
    hmovable fun entry he => (hall entry he).1
  obtain ⟨amount, ha, hr⟩ : ∃ amount, Session.amount (.whole k) song = .ok amount ∧
      song.renewed amount = .ok (song', r) := by
    rw [amount]
    split
    · exact ⟨_, rfl, hr⟩
    · next hm =>
      have hm := Bool.eq_false_iff.mpr hm
      refine ⟨0, rfl, ?_⟩
      rw [renewed_of_not_moves hm] at hr ⊢
      exact hr
  exact ⟨_, (transpose_eq_ok_iff h0).mpr ⟨song, amount, song', r, hsong, ha, hr, rfl⟩⟩

/-! ### What the transposed song says -/

section
variable {made : List (Nat × Note Datum)} {page new : Page} {n n' : Nat} {p : Int}

private theorem Moved.note_eq (h : s.Moved s' (.whole k) made) (hn : MadeFor made n n')
    (hp : (s.note n).heard.pitch = .ok p) :
    s'.note n' = { s.note n with name := .text (NoteName.ofPitch (p + k)) } := by
  obtain ⟨m, hm, rfl, rfl⟩ := hn
  obtain ⟨name, hname, htransposed, hentry⟩ := h.entries m hm
  obtain ⟨name', hname', hp⟩ := exists_name_of_heard hp
  cases hname.symm.trans hname'
  rw [NoteName.transposeAny, hp] at htransposed
  rw [hentry, ← Except.ok.inj htransposed]
  rfl

private theorem Moved.heard_eq (h : s.Moved s' (.whole k) made) (hn : MadeFor made n n')
    (hp : (s.note n).heard.pitch = .ok p) (hl : 12 ≤ p + k) :
    (s'.note n').heard = (s.note n).heard.moved k := by
  have hpitch : (s'.note n').heard.pitch = .ok (p + k) := by
    rw [h.note_eq hn hp]
    exact NoteName.pitch_spell_of_le hl true
  rw [Heard.moved, hp]
  change _ = Heard.mk (.ok (p + k)) _ _ _
  rw [← hpitch, h.note_eq hn hp]
  rfl

private theorem contentOf_moved (h : s.Moved s' (.whole k) made)
    (hr : (s.contentOf page).Regular fun p => 12 ≤ p + k) (hn : NotesMoved made page new)
    (hp : s.PageMoved s' (.whole k) page new) :
    s'.contentOf new = (s.contentOf page).moved k := by
  have hnotes : new.notes.map (fun n => (s'.note n).heard) =
      (page.notes.map fun n => (s.note n).heard).map (Heard.moved k) := by
    rw [List.map_map]
    refine (map_eq_of_forall₂ (forall₂_imp_of_mem hn fun n hmem n' hmade => ?_)).symm
    obtain ⟨p, hpitch, hl⟩ := hr.notes _ (List.mem_map_of_mem hmem)
    exact (h.heard_eq hmade hpitch hl).symm
  have hmetadata : new.metadata = movedMetadata k page.metadata := by
    obtain ⟨count, hc, hm⟩ := hp.key
    obtain ⟨count', hc', hm'⟩ := key_spec hr k
    cases hc.symm.trans hc'
    rw [hm, hm']
  have hlogs (kind : LogKind) : s'.logOf new kind =
      if kind = .keySignatures then movedKeys k (s.logOf page kind) else s.logOf page kind := by
    obtain ⟨entries, he⟩ := hr.logs kind
    change s.logOf page kind = .list entries at he
    split
    · next hk =>
      cases hk
      obtain ⟨changes, changes', ho, hm, hd⟩ := changes_spec (hr.keys entries he) k
      obtain ⟨_, _, _, hparts, ho', hm', hlog⟩ := hp.keys
      rw [he] at hparts
      cases hparts
      cases ho.symm.trans ho'
      cases hm.symm.trans hm'
      rw [hlog, hd, he, movedKeys]
    · next hk =>
      have hin : s.logs[page.logs.get kind]? = some (.list entries) := by
        rw [logOf] at he
        cases hl : s.logs[page.logs.get kind]? with
        | none =>
          rw [hl] at he
          cases he
        | some log =>
          rw [hl] at he
          exact congrArg some he
      rw [he, logOf, hp.logs kind hk, getElem?_of_prefix h.grown.logs hin]
      rfl
  rw [contentOf, contentOf, Content.moved, hnotes, hmetadata, hp.name, funext hlogs]

end

/-- A page in good order is there. -/
theorem lt_size_of_regular {number : Nat} (h : (s.contentOf (s.pageAt number)).Regular P) :
    number < s.pages.size := by
  by_contra hn
  obtain ⟨fields, hm, -⟩ := h.fields
  change (s.pageAt number).metadata = .record fields at hm
  rw [pageAt, Array.getElem?_eq_none (Nat.le_of_not_lt hn)] at hm
  cases hm

private theorem content_of_moved {made : List (Nat × Note Datum)} (h : s.Moved s' (.whole k) made)
    (hr : s.content.Regular fun p => 12 ≤ p + k) : s'.content = s.content.moved k := by
  have hpage := contentOf_moved h hr.page h.notes h.page
  obtain ⟨tracks', hs', hall⟩ := h.tracks
  rw [content, content, SongContent.moved]
  dsimp only
  rw [hpage, hs']
  cases hs : s.page.tracks with
  | none => rfl
  | some tracks =>
    rw [hs] at hall
    rw [Option.map_some, Option.map_some, Option.map_some, Option.map_some, List.map_map]
    refine congrArg (SongContent.mk _ <| some ·)
      (map_eq_of_forall₂ (forall₂_imp_of_mem hall fun track hm track' ht => ?_)).symm
    have htrack := regular_track hr (hs ▸ hm : track ∈ s.page.tracks.getD [])
    rw [contentOf_moved h htrack ht.notes (ht.page (lt_size_of_regular htrack)), ht.key]
    rfl

/-! ### Names in a song -/

/-- The notes of the song at hand, list by list. -/
def noteLists (s : Session) : List (List NoteEntry) := s.lists.map (·.map s.note)

private theorem heard_noteLists (s : Session) : s.noteLists.map (·.map NoteEntry.heard) =
    s.content.page.notes :: (s.content.tracks.getD []).map (·.2.notes) := by
  have hlist (numbers : List Nat) : (numbers.map s.note).map NoteEntry.heard =
      numbers.map fun n => (s.note n).heard := List.map_map
  have htracks : (s.content.tracks.getD []).map (·.2.notes) =
      (s.page.tracks.getD []).map fun track => (s.contentOf (s.pageAt track.2)).notes := by
    rw [content]
    cases s.page.tracks with
    | none => rfl
    | some tracks => exact List.map_map
  rw [htracks, noteLists, lists, List.map_map, List.map_cons, List.map_map]
  dsimp only [Function.comp_def]
  rw [hlist]
  exact congrArg _ (List.map_congr_left fun track _ => hlist _)

/-- All notes of a song in good order have pitches. -/
theorem exists_pitch_of_regular (h : s.content.Regular P) {list : List Nat} (hl : list ∈ s.lists)
    {n : Nat} (hn : n ∈ list) : ∃ p, (s.note n).heard.pitch = .ok p ∧ P p := by
  rcases List.mem_cons.mp hl with rfl | hl
  · exact h.page.notes _ (List.mem_map_of_mem hn)
  · obtain ⟨track, ht, rfl⟩ := List.mem_map.mp hl
    exact (regular_track h ht).notes _ (List.mem_map_of_mem hn)

private theorem spelled_of_moved {made : List (Nat × Note Datum)} (h : s.Moved s' (.whole k) made)
    (hr : s.content.Regular fun p => 12 ≤ p + k) :
    ∀ list ∈ s'.noteLists, ∀ e ∈ list, e.Spelled := by
  intro list' hl e he
  obtain ⟨numbers', hnumbers', rfl⟩ := List.mem_map.mp hl
  obtain ⟨n', hn', rfl⟩ := List.mem_map.mp he
  obtain ⟨numbers, hnumbers, hall⟩ := exists_of_mem_forall₂ h.lists hnumbers'
  obtain ⟨n, hn, hmade⟩ := exists_of_mem_forall₂ hall hn'
  obtain ⟨p, hp, hb⟩ := exists_pitch_of_regular hr hnumbers hn
  exact ⟨p + k, by rw [h.note_eq hmade hp], hb⟩

/-- Songs that are spelled by their pitches and say the same have the same notes. -/
theorem noteLists_eq_of_content (hs : ∀ list ∈ s.noteLists, ∀ e ∈ list, e.Spelled)
    (hs' : ∀ list ∈ s'.noteLists, ∀ e ∈ list, e.Spelled) (h : s.content = s'.content) :
    s.noteLists = s'.noteLists := by
  have hheard : s.noteLists.map (·.map NoteEntry.heard) =
      s'.noteLists.map (·.map NoteEntry.heard) := by
    rw [heard_noteLists, heard_noteLists, h]
  refine eq_of_map_eq (fun list hl list' hl' hmap => ?_) hheard
  exact eq_of_map_eq (fun e he e' he' => (hs list hl e he).eq_of_heard (hs' list' hl' e' he')) hmap

/-! ### Two transpositions -/

private theorem transpose_zero (s : Session) : s.transpose (.whole 0) = .ok s :=
  if_pos (by rw [same_zero]; rfl)

/-- A song in good order can be transposed. What it says moves by the semitones, and unless there
are none its notes get the names of their pitches. -/
theorem transpose_content (h : s.content.Regular fun p => 12 ≤ p + k) :
    ∃ s', s.transpose (.whole k) = .ok s' ∧ s'.content = s.content.moved k ∧
      (k ≠ 0 → ∀ list ∈ s'.noteLists, ∀ e ∈ list, e.Spelled) := by
  by_cases hk : k = 0
  · subst hk
    exact ⟨s, transpose_zero s, h.moved_zero.symm, fun hne => absurd rfl hne⟩
  · obtain ⟨s', hs'⟩ := exists_transpose h k
    have h0 : (Datum.whole k).same (.whole 0) = false := by rw [same_zero, decide_eq_false hk]
    obtain ⟨k', made, hmoved, hk' | ⟨-, e, he⟩⟩ := exists_moved hs' h0
    · cases hk'
      exact ⟨s', hs', content_of_moved hmoved h, fun _ => spelled_of_moved hmoved h⟩
    · cases he

/-- Two transpositions are one by the sum of the semitones: the songs say the same, and their notes
have the same names too unless the sum is zero. -/
theorem transpose_transpose {a b : Int}
    (h : s.content.Regular fun p => 12 ≤ p + a ∧ 12 ≤ p + a + b) :
    ∃ s₁ s₂ s₃, s.transpose (.whole a) = .ok s₁ ∧ s₁.transpose (.whole b) = .ok s₂ ∧
      s.transpose (.whole (a + b)) = .ok s₃ ∧ s₂.content = s₃.content ∧
      (a + b ≠ 0 → s₂.noteLists = s₃.noteLists) := by
  obtain ⟨s₁, hs₁, hc₁, hspelled₁⟩ := transpose_content (h.mono fun _ hp => hp.1)
  have h₁ : s₁.content.Regular fun p => 12 ≤ p + b := by
    rw [hc₁]
    exact SongContent.Regular.moved (h.mono fun _ hp => hp.2)
  obtain ⟨s₂, hs₂, hc₂, hspelled₂⟩ := transpose_content h₁
  obtain ⟨s₃, hs₃, hc₃, hspelled₃⟩ := transpose_content
    (h.mono fun p hp => (Int.add_assoc p a b ▸ hp.2 : 12 ≤ p + (a + b)))
  have hcontent : s₂.content = s₃.content := by
    rw [hc₂, hc₁, h.moved_moved, hc₃]
  refine ⟨s₁, s₂, s₃, hs₁, hs₂, hs₃, hcontent, fun hne => ?_⟩
  have hspelled : ∀ list ∈ s₂.noteLists, ∀ e ∈ list, e.Spelled := by
    by_cases hb : b = 0
    · subst hb
      rw [transpose_zero] at hs₂
      cases hs₂
      exact hspelled₁ (by rwa [Int.add_zero] at hne)
    · exact hspelled₂ hb
  exact noteLists_eq_of_content hspelled (hspelled₃ hne) hcontent

private theorem regular_shared : shared.content.Regular fun p => 12 ≤ p + 3 ∧ 12 ≤ p + 3 + -5 := by
  have hnotes (numbers : List Nat) (hn : ∀ n ∈ numbers, n < 3) :
      ∀ heard ∈ numbers.map fun n => (shared.note n).heard,
        ∃ p, heard.pitch = .ok p ∧ 12 ≤ p + 3 ∧ 12 ≤ p + 3 + -5 := by
    intro heard hh
    obtain ⟨n, hm, rfl⟩ := List.mem_map.mp hh
    match n, hn n hm with
    | 0, _ => exact ⟨60, rfl, by decide⟩
    | 1, _ => exact ⟨64, rfl, by decide⟩
    | 2, _ => exact ⟨67, rfl, by decide⟩
  have hplain : ∃ fields, Datum.record [] = .record fields ∧ (fields.map Prod.fst).Nodup ∧
      ∀ count, ("keySignature", count) ∈ fields → IsCount count :=
    ⟨[], rfl, List.nodup_nil, fun _ h => absurd h List.not_mem_nil⟩
  refine ⟨⟨hnotes [0, 1] (by decide), hplain, ?_, ?_⟩, ?_⟩
  · rintro ⟨⟩ <;> exact ⟨_, rfl⟩
  · rintro _ ⟨⟩ entry he
    obtain rfl := List.mem_singleton.mp he
    exact ⟨.whole 0, .whole 0, .none, rfl, 0, rfl, by decide⟩
  · rintro _ ⟨⟩ track ht
    rcases List.mem_cons.mp ht with rfl | ht
    · refine ⟨hnotes [0, 2] (by decide), hplain, ?_, ?_⟩
      · rintro ⟨⟩ <;> exact ⟨_, rfl⟩
      · rintro _ ⟨⟩ entry he
        cases he
    · obtain rfl := List.mem_singleton.mp ht
      refine ⟨hnotes [2, 1] (by decide),
        ⟨[("keySignature", .whole 5)], rfl, by decide, fun count h => ?_⟩, ?_, ?_⟩
      · cases List.mem_singleton.mp h
        exact ⟨5, rfl, by decide⟩
      · rintro ⟨⟩ <;> exact ⟨_, rfl⟩
      · rintro _ ⟨⟩ entry he
        cases he

/-- Up three semitones and down five is down two, for the key of a track as well. -/
theorem transpose_shared_twice : ∃ s₁ s₂ s₃, shared.transpose (.whole 3) = .ok s₁ ∧
    s₁.transpose (.whole (-5)) = .ok s₂ ∧ shared.transpose (.whole (3 + -5)) = .ok s₃ ∧
    s₂.content = s₃.content ∧ s₂.noteLists = s₃.noteLists := by
  obtain ⟨s₁, s₂, s₃, h₁, h₂, h₃, hcontent, hnotes⟩ := transpose_transpose regular_shared
  exact ⟨s₁, s₂, s₃, h₁, h₂, h₃, hcontent, hnotes (by decide)⟩

end Session
end LeadSheet
