import LeadSheet.Proofs.Song.Renewal
import LeadSheet.Session.Transposition

/-!
What transposition does to a session. It adds notes, logs and pages, and leaves alone those that are
there. Each page that it adds has the notes and the keys of a transposed sheet; all else it shares
with the page that it comes from.
-/
namespace LeadSheet

private theorem Logs.get_set_of_ne {β : Type} (logs : Logs β) {kind kind' : LogKind}
    (h : kind ≠ kind')
    (b : β) : (logs.set kind' b).get kind = logs.get kind := by
  cases kind <;> cases kind' <;> first | rfl | exact absurd rfl h

namespace Session

/-! ### Sessions that grow -/

theorem getElem?_of_prefix {β : Type} {xs ys : Array β} (h : xs.toList <+: ys.toList) {i : Nat}
    {b : β} (hb : xs[i]? = some b) : ys[i]? = some b := by
  obtain ⟨added, ha⟩ := h
  rw [← Array.getElem?_toList] at hb ⊢
  rw [← ha, List.getElem?_append_left (List.getElem?_eq_some_iff.mp hb).1, hb]

private theorem prefix_push {β : Type} (xs : Array β) (b : β) :
    xs.toList <+: (xs.push b).toList := by
  rw [Array.toList_push]
  exact List.prefix_append _ _

/-- All that is in a session is in another one too, as it was. -/
structure Extends (s s' : Session) : Prop where
  notes : s.notes.toList <+: s'.notes.toList
  logs : s.logs.toList <+: s'.logs.toList
  pages : s.pages.toList <+: s'.pages.toList
  saved : s'.saved = s.saved

variable {s s' s'' : Session}

private theorem Extends.refl (s : Session) : s.Extends s :=
  ⟨List.prefix_rfl, List.prefix_rfl, List.prefix_rfl, rfl⟩

theorem Extends.trans (h : s.Extends s') (h' : s'.Extends s'') : s.Extends s'' :=
  ⟨h.notes.trans h'.notes, h.logs.trans h'.logs, h.pages.trans h'.pages, h'.saved.trans h.saved⟩

private theorem Extends.pageAt (h : s.Extends s') {number : Nat} (hn : number < s.pages.size) :
    s'.pageAt number = s.pageAt number := by
  have hp := Array.getElem?_eq_getElem hn
  rw [Session.pageAt, Session.pageAt, hp, getElem?_of_prefix h.pages hp]

private theorem Extends.size_pages (h : s.Extends s') : s.pages.size ≤ s'.pages.size := by
  have hl := h.pages.length_le
  rwa [Array.length_toList, Array.length_toList] at hl

theorem pageAt_of_getElem? {number : Nat} {page : Page} (h : s.pages[number]? = some page) :
    s.pageAt number = page := by
  rw [Session.pageAt, h]
  rfl

theorem extends_select (s : Session) (number : Nat) : s.Extends (s.select number) :=
  ⟨List.prefix_rfl, List.prefix_rfl, List.prefix_rfl, rfl⟩

theorem extends_addNotes (s : Session) (notes : List NoteEntry) :
    s.Extends (s.addNotes notes).1 := by
  refine ⟨?_, List.prefix_rfl, List.prefix_rfl, rfl⟩
  change s.notes.toList <+: (s.notes ++ notes.toArray).toList
  rw [Array.toList_append]
  exact List.prefix_append _ _

/-- New notes stand behind all others. -/
theorem getElem?_addNotes (s : Session) {notes : List NoteEntry} {i : Nat} {entry : NoteEntry}
    (h : notes[i]? = some entry) : (s.addNotes notes).1.notes[s.notes.size + i]? = some entry := by
  change (s.notes ++ notes.toArray)[s.notes.size + i]? = some entry
  rw [Array.getElem?_append_right (Nat.le_add_right ..), Nat.add_sub_cancel_left,
    List.getElem?_toArray, h]

/-! ### Keyed pages -/

/-- What is known about a piece, with another key if there is one. -/
def keyedMetadata (metadata : Datum) : Option Datum → Datum
  | some count => (metadata.withField "keySignature" count).toOption.getD metadata
  | none => metadata

/-- A page of a session that has the notes and keys of a sheet, and else what another page has. -/
structure Keyed (s : Session) (page : Page) (sheet : Sheet Datum)
    (tracks : Option (List (Datum × Nat))) (new : Page) : Prop where
  notes : new.notes = sheet.notes.map Note.id
  metadata : new.metadata = keyedMetadata page.metadata sheet.metadata.keySignature
  keys : s.logs[new.logs.keySignatures]? =
    some (.list (sheet.keySignatures.map KeyChange.toDatum))
  logs : ∀ kind, kind ≠ .keySignatures → new.logs.get kind = page.logs.get kind
  name : new.name = page.name
  tracks : new.tracks = tracks

variable {page new : Page} {sheet : Sheet Datum} {tracks : Option (List (Datum × Nat))}

theorem Keyed.mono (h : s.Keyed page sheet tracks new) (hs : s.Extends s') :
    s'.Keyed page sheet tracks new :=
  ⟨h.notes, h.metadata, getElem?_of_prefix hs.logs h.keys, h.logs, h.name, h.tracks⟩

/-- What is added is one page and its log of keys. -/
theorem addKeyed_spec (s : Session) (page : Page) (sheet : Sheet Datum)
    (tracks : Option (List (Datum × Nat))) :
    s.Extends (s.addKeyed page sheet tracks).1 ∧
      (s.addKeyed page sheet tracks).1.notes = s.notes ∧
      ∃ new, (s.addKeyed page sheet tracks).1.pages[(s.addKeyed page sheet tracks).2]? = some new ∧
        (s.addKeyed page sheet tracks).1.Keyed page sheet tracks new := by
  refine ⟨⟨List.prefix_rfl, prefix_push .., prefix_push .., rfl⟩, rfl, _, Array.getElem?_push_size,
    rfl, rfl, Array.getElem?_push_size, ?_, rfl, rfl⟩
  intro kind hk
  exact Logs.get_set_of_ne page.logs hk _

/-- A track of the new song that comes from a track of the song. -/
structure KeyedTrack (s s' : Session) (track : Datum × Nat) (sheet : Sheet Datum)
    (track' : Datum × Nat) : Prop where
  key : track'.1 = track.1
  exists_new : ∃ page new, (track.2 < s.pages.size → page = s.pageAt track.2) ∧
    s'.pages[track'.2]? = some new ∧ s'.Keyed page sheet none new

private theorem KeyedTrack.earlier {track track' : Datum × Nat}
    (h : KeyedTrack s' s'' track sheet track')
    (hs : s.Extends s') : KeyedTrack s s'' track sheet track' := by
  obtain ⟨page, new, hpage, hnew, hkeyed⟩ := h.exists_new
  refine ⟨h.key, page, new, fun hn => ?_, hnew, hkeyed⟩
  rw [hpage (Nat.lt_of_lt_of_le hn hs.size_pages), hs.pageAt hn]

theorem KeyedTrack.later {track track' : Datum × Nat} (h : KeyedTrack s s' track sheet track')
    (hs : s'.Extends s'') : KeyedTrack s s'' track sheet track' := by
  obtain ⟨page, new, hpage, hnew, hkeyed⟩ := h.exists_new
  exact ⟨h.key, page, new, hpage, getElem?_of_prefix hs.pages hnew, hkeyed.mono hs⟩

/-- Pages are added for the tracks in a row. What belongs to a track and its sheet belongs to the
track and its new page. -/
theorem addKeyedTracks_spec (s : Session) {R : Datum × Nat → Sheet Datum → Prop}
    {tracks : List (Datum × Nat)} {sheets : List (Sheet Datum)} (hR : List.Forall₂ R tracks sheets) :
    s.Extends (s.addKeyedTracks tracks sheets).1 ∧
      (s.addKeyedTracks tracks sheets).1.notes = s.notes ∧
      List.Forall₂
        (fun track track' => ∃ sheet, R track sheet ∧
          KeyedTrack s (s.addKeyedTracks tracks sheets).1 track sheet track')
        tracks (s.addKeyedTracks tracks sheets).2 := by
  induction hR generalizing s with
  | nil => exact ⟨.refl s, rfl, .nil⟩
  | @cons track sheet tracks sheets hR _ ih =>
    obtain ⟨key, number⟩ := track
    obtain ⟨hs, hnotes, new, hnew, hkeyed⟩ := s.addKeyed_spec (s.pageAt number) sheet none
    obtain ⟨hrest, hnotes', hall⟩ := ih (s.addKeyed (s.pageAt number) sheet none).1
    refine ⟨hs.trans hrest, hnotes'.trans hnotes, .cons ⟨sheet, hR, rfl, ?_⟩ ?_⟩
    · exact ⟨_, new, fun _ => rfl, getElem?_of_prefix hrest.pages hnew, hkeyed.mono hrest⟩
    · exact hall.imp fun _ _ ⟨sheet, hR, h⟩ => ⟨sheet, hR, h.earlier hs⟩

end Session
end LeadSheet
