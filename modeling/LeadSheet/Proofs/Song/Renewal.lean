import LeadSheet.Proofs.Outcome
import LeadSheet.Song.Transposition
import Mathlib.Data.List.Forall2
import Mathlib.Data.List.Nodup

/-!
New notes for the notes of a song. Whatever lists a note stands in, its new note is written down
under its number, and what is written down is never forgotten. New notes are numbered in a row, so
that two of them are the same only if they were made at once.
-/
namespace LeadSheet
variable {α : Type}

namespace Renewal
variable {P : Note α → Prop} {semitones : Number} {first : Nat} {r r' : Renewal α} {note new : Note α}

/-- What holds of the notes made for some notes: they are numbered in a row from the first one on,
and each is the note that it was made for, moved. -/
structure Sound (P : Note α → Prop) (semitones : Number) (first : Nat) (r : Renewal α) : Prop where
  fresh : r.fresh = first + r.made.length
  ids : r.made.map (fun m => m.2.id) = (List.range' first r.made.length).reverse
  moved : ∀ m ∈ r.made, ∃ note, P note ∧ note.id = m.1 ∧
    note.transposed semitones = .ok { m.2 with id := note.id }

private theorem sound_nil (first : Nat) : Sound P semitones first ⟨first, []⟩ :=
  ⟨rfl, rfl, fun _ h => (List.not_mem_nil h).elim⟩

private theorem make_eq_ok_iff {result : Renewal α × Note α} :
    r.make semitones note = .ok result ↔
      ∃ moved, note.transposed semitones = .ok moved ∧
        result = (⟨r.fresh + 1, (note.id, { moved with id := r.fresh }) :: r.made⟩,
          { moved with id := r.fresh }) := by
  rw [make, Except.bind_eq_ok_iff]
  constructor
  · rintro ⟨moved, hm, h⟩
    exact ⟨moved, hm, (Except.ok.inj h).symm⟩
  · rintro ⟨moved, hm, rfl⟩
    exact ⟨moved, hm, rfl⟩

/-! ### Steps -/

/-- A way to get a new note for a note that keeps an invariant, forgets nothing, and has the new
note written down. -/
def Steps (P : Note α → Prop) (I : Renewal α → Prop)
    (next : Renewal α → Note α → Except Failure (Renewal α × Note α)) : Prop :=
  ∀ r r' note new, I r → P note → next r note = .ok (r', new) →
    I r' ∧ r.made <:+ r'.made ∧ (note.id, new) ∈ r'.made

private theorem steps_make : Steps P (Sound P semitones first) (make · semitones ·) := by
  intro r r' note new hr hP h
  obtain ⟨moved, hm, he⟩ := make_eq_ok_iff.mp h
  cases he
  refine ⟨⟨?_, ?_, ?_⟩, List.suffix_cons .., List.mem_cons_self ..⟩
  · rw [hr.fresh]
    rfl
  · rw [List.map_cons, List.length_cons, List.range'_concat, List.reverse_append, hr.ids, hr.fresh,
      Nat.one_mul]
    rfl
  · refine List.forall_mem_cons.mpr ⟨⟨note, hP, rfl, ?_⟩, hr.moved⟩
    obtain ⟨name, -, he⟩ := Except.bind_eq_ok_iff.mp hm
    cases he
    exact hm

/-- A note that is found has been written down before. -/
theorem find_eq_ok {result : Renewal α × Note α} (h : r.find semitones note = .ok result) :
    (r.made.lookup note.id = some result.2 ∧ result.1 = r) ∨
      (r.made.lookup note.id = none ∧ r.make semitones note = .ok result) := by
  rw [find] at h
  split at h
  · next hl =>
    cases h
    exact .inl ⟨hl, rfl⟩
  · next hl => exact .inr ⟨hl, h⟩

private theorem steps_find {I : Renewal α → Prop}
    (hI : ∀ r r' note new, I r → P note → r.made.lookup note.id = none →
      r.make semitones note = .ok (r', new) → I r') : Steps P I (find · semitones ·) := by
  intro r r' note new hr hP h
  rcases find_eq_ok h with ⟨hl, rfl⟩ | ⟨hl, hm⟩
  · obtain ⟨before, behind, he, -⟩ := List.lookup_eq_some_iff.mp hl
    have hmem : (note.id, new) ∈ r'.made := by
      rw [he]
      exact List.mem_append_right _ (List.mem_cons_self ..)
    exact ⟨hr, List.suffix_refl _, hmem⟩
  · obtain ⟨moved, -, he⟩ := make_eq_ok_iff.mp hm
    have hI' := hI _ _ _ _ hr hP hl hm
    cases he
    exact ⟨hI', List.suffix_cons .., List.mem_cons_self ..⟩

/-- The numbers of the notes that have new ones. -/
def keys (r : Renewal α) : List Nat := r.made.map Prod.fst

/-- What is found anew has not been there before. -/
theorem steps_find_nodup : Steps P (fun r => r.keys.Nodup) (find · semitones ·) := by
  refine steps_find ?_
  intro r r' note new hr _ hl hm
  obtain ⟨moved, -, he⟩ := make_eq_ok_iff.mp hm
  cases he
  refine List.nodup_cons.mpr ⟨?_, hr⟩
  intro hk
  obtain ⟨m, hm, hid⟩ := List.mem_map.mp hk
  exact absurd (List.lookup_eq_none_iff.mp hl m hm) (by rw [hid]; simp)

/-- Two new notes with the same number are the same, and were made for the same note. -/
theorem Sound.eq_of_id (hr : r.Sound P semitones first) {m m' : Nat × Note α} (hm : m ∈ r.made)
    (hm' : m' ∈ r.made) (h : m.2.id = m'.2.id) : m = m' := by
  have hids : (r.made.map fun m => m.2.id).Nodup := by
    rw [hr.ids, List.nodup_reverse]
    exact List.nodup_range' 1
  exact List.inj_on_of_nodup_map hids hm hm' h

/-- The number of a new note says when it was made. -/
theorem Sound.exists_getElem? (hr : r.Sound P semitones first) {m : Nat × Note α}
    (hm : m ∈ r.made) : ∃ i, r.made.reverse[i]? = some m ∧ m.2.id = first + i := by
  obtain ⟨i, hi⟩ := List.mem_iff_getElem?.mp (List.mem_reverse.mpr hm)
  refine ⟨i, hi, ?_⟩
  have hids := congrArg (·.reverse[i]?) hr.ids
  have hl : i < r.made.length := by
    rw [← List.length_reverse]
    exact (List.getElem?_eq_some_iff.mp hi).1
  rw [List.reverse_reverse, ← List.map_reverse, List.getElem?_map, hi, List.getElem?_range' hl,
    Nat.one_mul] at hids
  exact Option.some.inj hids

/-- A note that can be moved has a new note, be it found or made. -/
theorem exists_make (hn : ∃ moved, note.transposed semitones = .ok moved) (r : Renewal α) :
    ∃ result, r.make semitones note = .ok result := by
  obtain ⟨moved, hm⟩ := hn
  exact ⟨_, make_eq_ok_iff.mpr ⟨moved, hm, rfl⟩⟩

private theorem exists_find (hn : ∃ moved, note.transposed semitones = .ok moved) (r : Renewal α) :
    ∃ result, r.find semitones note = .ok result := by
  rw [find]
  split
  · exact ⟨_, rfl⟩
  · exact exists_make hn r

/-! ### Runs -/

private theorem each_cons_eq_ok_iff
    {next : Renewal α → Note α → Except Failure (Renewal α × Note α)}
    {notes news : List (Note α)} :
    each next r (note :: notes) = .ok (r', news) ↔
      ∃ mid new others, next r note = .ok (mid, new) ∧ each next mid notes = .ok (r', others) ∧
        news = new :: others := by
  rw [each]
  constructor
  · intro h
    obtain ⟨⟨mid, new⟩, hn, h⟩ := Except.bind_eq_ok_iff.mp h
    obtain ⟨⟨last, others⟩, ho, h⟩ := Except.bind_eq_ok_iff.mp h
    cases h
    exact ⟨mid, new, others, hn, ho, rfl⟩
  · rintro ⟨mid, new, others, hn, ho, rfl⟩
    exact Except.bind_eq_ok_iff.mpr ⟨_, hn, Except.bind_eq_ok_iff.mpr ⟨_, ho, rfl⟩⟩

private theorem each_spec {I : Renewal α → Prop}
    {next : Renewal α → Note α → Except Failure (Renewal α × Note α)} (hn : Steps P I next)
    {notes news : List (Note α)} (hr : I r) (hP : ∀ note ∈ notes, P note)
    (h : each next r notes = .ok (r', news)) :
    I r' ∧ r.made <:+ r'.made ∧
      List.Forall₂ (fun note new => (note.id, new) ∈ r'.made) notes news := by
  induction notes generalizing r news with
  | nil =>
    cases h
    exact ⟨hr, List.suffix_refl _, .nil⟩
  | cons note notes ih =>
    obtain ⟨hnote, hnotes⟩ := List.forall_mem_cons.mp hP
    obtain ⟨mid, new, others, hnext, hothers, rfl⟩ := each_cons_eq_ok_iff.mp h
    obtain ⟨hmid, hbefore, hnew⟩ := hn _ _ _ _ hr hnote hnext
    obtain ⟨hlast, hbehind, hall⟩ := ih hmid hnotes hothers
    exact ⟨hlast, hbefore.trans hbehind, .cons (hbehind.mem hnew) hall⟩

private theorem exists_each {next : Renewal α → Note α → Except Failure (Renewal α × Note α)}
    {notes : List (Note α)} (hn : ∀ note ∈ notes, ∀ r, ∃ result, next r note = .ok result)
    (r : Renewal α) : ∃ result, each next r notes = .ok result := by
  induction notes generalizing r with
  | nil => exact ⟨_, rfl⟩
  | cons note notes ih =>
    obtain ⟨hnote, hnotes⟩ := List.forall_mem_cons.mp hn
    obtain ⟨⟨mid, new⟩, hnext⟩ := hnote r
    obtain ⟨⟨last, others⟩, hothers⟩ := ih hnotes mid
    exact ⟨_, each_cons_eq_ok_iff.mpr ⟨mid, new, others, hnext, hothers, rfl⟩⟩

/-- Notes that are all made anew are written down one after the other. -/
theorem keys_each_make {notes news : List (Note α)}
    (h : each (make · semitones ·) r notes = .ok (r', news)) :
    r'.keys = (notes.map Note.id).reverse ++ r.keys := by
  induction notes generalizing r news with
  | nil =>
    cases h
    rfl
  | cons note notes ih =>
    obtain ⟨mid, new, others, hnext, hothers, rfl⟩ := each_cons_eq_ok_iff.mp h
    obtain ⟨moved, -, he⟩ := make_eq_ok_iff.mp hnext
    cases he
    rw [ih hothers, List.map_cons, List.reverse_cons, List.append_assoc]
    rfl

end Renewal

/-- A sheet of the transposed song: its notes are those made for the notes of the sheet, and the
keys have moved. -/
structure Sheet.Renewed (made : List (Nat × Note α)) (semitones : Number)
    (sheet sheet' : Sheet α) : Prop where
  notes : List.Forall₂ (fun note new => (note.id, new) ∈ made) sheet.notes sheet'.notes
  metadata : sheet.metadata.transposed semitones = .ok sheet'.metadata
  keys : sheet.keySignatures.mapM (·.transposed semitones) = .ok sheet'.keySignatures

private theorem Sheet.Renewed.mono {made made' : List (Nat × Note α)} {semitones : Number}
    {sheet sheet' : Sheet α} (h : sheet.Renewed made semitones sheet') (hm : made <:+ made') :
    sheet.Renewed made' semitones sheet' :=
  ⟨h.notes.imp fun _ _ hn => hm.mem hn, h.metadata, h.keys⟩

private theorem Sheet.renewed_of_transposedWith {made : List (Nat × Note α)} {semitones : Number}
    {sheet sheet' : Sheet α} {news : List (Note α)}
    (hn : List.Forall₂ (fun note new => (note.id, new) ∈ made) sheet.notes news)
    (h : sheet.transposedWith semitones news = .ok sheet') : sheet.Renewed made semitones sheet' := by
  obtain ⟨metadata, hm, h⟩ := Except.bind_eq_ok_iff.mp h
  obtain ⟨keys, hk, h⟩ := Except.bind_eq_ok_iff.mp h
  cases h
  exact ⟨hn, hm, hk⟩

/-- The key of a sheet and the changes of it can be moved. -/
def Sheet.Movable (semitones : Number) (sheet : Sheet α) : Prop :=
  (∃ metadata, sheet.metadata.transposed semitones = .ok metadata) ∧
    ∃ keys, sheet.keySignatures.mapM (·.transposed semitones) = .ok keys

private theorem Sheet.Movable.exists_transposedWith {semitones : Number} {sheet : Sheet α}
    (h : sheet.Movable semitones) (news : List (Note α)) :
    ∃ sheet', sheet.transposedWith semitones news = .ok sheet' := by
  obtain ⟨⟨metadata, hm⟩, keys, hk⟩ := h
  exact Except.exists_bind_eq_ok hm (Except.exists_bind_eq_ok hk ⟨_, rfl⟩)

namespace Renewal
variable {P : Note α → Prop} {semitones : Number} {r r' : Renewal α}

theorem tracks_cons_eq_ok_iff {number : Int} {sheet : Sheet α}
    {tracks tracks' : List (Int × Sheet α)} :
    r.tracks semitones ((number, sheet) :: tracks) = .ok (r', tracks') ↔
      ∃ mid news sheet' others, each (find · semitones ·) r sheet.notes = .ok (mid, news) ∧
        sheet.transposedWith semitones news = .ok sheet' ∧
        mid.tracks semitones tracks = .ok (r', others) ∧ tracks' = (number, sheet') :: others := by
  rw [Renewal.tracks]
  constructor
  · intro h
    obtain ⟨⟨mid, news⟩, hn, h⟩ := Except.bind_eq_ok_iff.mp h
    obtain ⟨sheet', hs, h⟩ := Except.bind_eq_ok_iff.mp h
    obtain ⟨⟨last, others⟩, ho, h⟩ := Except.bind_eq_ok_iff.mp h
    cases h
    exact ⟨mid, news, sheet', others, hn, hs, ho, rfl⟩
  · rintro ⟨mid, news, sheet', others, hn, hs, ho, rfl⟩
    exact Except.bind_eq_ok_iff.mpr ⟨_, hn, Except.bind_eq_ok_iff.mpr
      ⟨_, hs, Except.bind_eq_ok_iff.mpr ⟨_, ho, rfl⟩⟩⟩

private theorem tracks_spec {I : Renewal α → Prop} (hn : Steps P I (find · semitones ·))
    {tracks tracks' : List (Int × Sheet α)} (hr : I r)
    (hP : ∀ track ∈ tracks, ∀ note ∈ track.2.notes, P note)
    (h : r.tracks semitones tracks = .ok (r', tracks')) :
    I r' ∧ r.made <:+ r'.made ∧
      List.Forall₂ (fun track track' => track'.1 = track.1 ∧
        track.2.Renewed r'.made semitones track'.2) tracks tracks' := by
  induction tracks generalizing r tracks' with
  | nil =>
    cases h
    exact ⟨hr, List.suffix_refl _, .nil⟩
  | cons track tracks ih =>
    obtain ⟨number, sheet⟩ := track
    obtain ⟨hsheet, htracks⟩ := List.forall_mem_cons.mp hP
    obtain ⟨mid, news, sheet', others, hnews, hs, hothers, rfl⟩ := tracks_cons_eq_ok_iff.mp h
    obtain ⟨hmid, hbefore, hall⟩ := each_spec hn hr hsheet hnews
    obtain ⟨hlast, hbehind, hrest⟩ := ih hmid htracks hothers
    have hrenewed := Sheet.renewed_of_transposedWith hall hs
    exact ⟨hlast, hbefore.trans hbehind, .cons ⟨rfl, hrenewed.mono hbehind⟩ hrest⟩

private theorem exists_tracks {tracks : List (Int × Sheet α)}
    (hn : ∀ track ∈ tracks, ∀ note ∈ track.2.notes, ∃ moved, note.transposed semitones = .ok moved)
    (hs : ∀ track ∈ tracks, track.2.Movable semitones) (r : Renewal α) :
    ∃ result, r.tracks semitones tracks = .ok result := by
  induction tracks generalizing r with
  | nil => exact ⟨_, rfl⟩
  | cons track tracks ih =>
    obtain ⟨number, sheet⟩ := track
    obtain ⟨hnotes, hn⟩ := List.forall_mem_cons.mp hn
    obtain ⟨hsheet, hs⟩ := List.forall_mem_cons.mp hs
    obtain ⟨⟨mid, news⟩, hnews⟩ := exists_each (fun note h => exists_find (hnotes note h)) r
    obtain ⟨sheet', hsheet'⟩ := hsheet.exists_transposedWith news
    obtain ⟨⟨last, others⟩, hothers⟩ := ih hn hs mid
    exact ⟨_, tracks_cons_eq_ok_iff.mpr ⟨mid, news, sheet', others, hnews, hsheet', hothers, rfl⟩⟩

end Renewal

namespace Song
variable {semitones : Number} {s s' : Song α} {r : Renewal α}

/-- A note that stands in the song or in one of its tracks. -/
def Holds (s : Song α) (note : Note α) : Prop :=
  note ∈ s.sheet.notes ∨ ∃ track ∈ s.tracks, note ∈ track.2.notes

/-- What the new notes of a song are, and where they stand. -/
theorem renewed_spec (h : s.renewed semitones = .ok (s', r)) :
    r.Sound s.Holds semitones s.fresh ∧ s.sheet.Renewed r.made semitones s'.sheet ∧
      List.Forall₂ (fun track track' => track'.1 = track.1 ∧
        track.2.Renewed r.made semitones track'.2) s.tracks s'.tracks ∧
      ((s.sheet.notes.map Note.id).Nodup → r.keys.Nodup) := by
  obtain ⟨⟨mid, news⟩, hnews, h⟩ := Except.bind_eq_ok_iff.mp h
  obtain ⟨⟨last, tracks⟩, htracks, h⟩ := Except.bind_eq_ok_iff.mp h
  obtain ⟨sheet, hsheet, h⟩ := Except.bind_eq_ok_iff.mp h
  cases h
  have hholds : ∀ track ∈ s.tracks, ∀ note ∈ track.2.notes, s.Holds note :=
    fun track ht note hn => .inr ⟨track, ht, hn⟩
  obtain ⟨hmid, -, hall⟩ := Renewal.each_spec Renewal.steps_make
    (Renewal.sound_nil s.fresh) (fun note hn => Or.inl hn : ∀ note ∈ s.sheet.notes, s.Holds note) hnews
  obtain ⟨hsound, hbehind, hrenewed⟩ := Renewal.tracks_spec
    (Renewal.steps_find fun _ _ _ _ hr hP _ hm => (Renewal.steps_make _ _ _ _ hr hP hm).1) hmid hholds htracks
  refine ⟨hsound, (Sheet.renewed_of_transposedWith hall hsheet).mono hbehind, hrenewed, ?_⟩
  intro hd
  have hnodup : mid.keys.Nodup := by
    have hkeys := Renewal.keys_each_make hnews
    change mid.keys = _ ++ [] at hkeys
    rw [hkeys, List.append_nil]
    exact List.nodup_reverse.mpr hd
  exact (Renewal.tracks_spec Renewal.steps_find_nodup hnodup hholds htracks).1

/-- A song can be moved when all its notes and keys can. -/
theorem exists_renewed {s : Song α}
    (hn : ∀ note, s.Holds note → ∃ moved, note.transposed semitones = .ok moved)
    (hs : s.sheet.Movable semitones) (ht : ∀ track ∈ s.tracks, track.2.Movable semitones) :
    ∃ result, s.renewed semitones = .ok result := by
  obtain ⟨⟨mid, news⟩, hnews⟩ := Renewal.exists_each
    (fun note h => Renewal.exists_make (hn note (.inl h))) ⟨s.fresh, []⟩
  obtain ⟨⟨last, tracks⟩, htracks⟩ := Renewal.exists_tracks
    (fun track h note hnote => hn note (.inr ⟨track, h, hnote⟩)) ht mid
  obtain ⟨sheet, hsheet⟩ := hs.exists_transposedWith news
  exact Except.exists_bind_eq_ok hnews (Except.exists_bind_eq_ok htracks
    (Except.exists_bind_eq_ok hsheet ⟨_, rfl⟩))

end Song
end LeadSheet
