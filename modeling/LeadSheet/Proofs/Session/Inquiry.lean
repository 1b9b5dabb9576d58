import LeadSheet.Proofs.Rows
import LeadSheet.Proofs.Song.Matching
import LeadSheet.Session.Inquiry

/-!
Matching in a session. With its buckets reckoned anew, the fast search and the one through all notes
find notes that are as close to the beat, wherever a note of the pitch starts within a beat of it.
-/
namespace LeadSheet.Session
open Matching (HasPitch PitchAt ClosestAt Precise bucketSize noteSpan precise_of_exact)

variable {s : Session} {notes : List (Note Number)} {name beat : Datum} {text : String}
  {target : Int} {size b : Number}

/-! ### Names -/

private theorem pitchAt_iff {α : Type} {notes : List (Note α)} {i : Nat} :
    PitchAt target notes i ↔
      ∃ name, (notes.map Note.name)[i]? = some name ∧ NoteName.pitch name = .ok target := by
  simp [PitchAt, HasPitch, List.getElem?_map]

/-- Times do not change names. -/
theorem names_timedNotes (h : s.timedNotes = .ok notes) :
    (s.notesOf s.page).map Note.name = notes.map Note.name := by
  apply map_eq_of_forall₂
  refine (Except.mapM_eq_ok_iff_forall₂.mp h).imp fun note timed hnote => ?_
  obtain ⟨start, -, hnote⟩ := Except.bind_eq_ok_iff.mp hnote
  obtain ⟨duration, -, hnote⟩ := Except.bind_eq_ok_iff.mp hnote
  rw [← Except.pure_eq_ok_iff.mp hnote]

/-- Names with pitches are texts. -/
theorem checkNames_of_pitches
    (h : ∀ name ∈ (s.notesOf s.page).map Note.name, ∃ p, NoteName.pitch name = .ok p) :
    s.checkNames = .ok () := by
  obtain ⟨texts, htexts⟩ : ∃ texts, (s.page.notes.mapM fun number =>
      (s.note number).name.toText) = .ok texts := by
    apply Except.exists_mapM_eq_ok
    intro number hnumber
    obtain ⟨p, hp⟩ := h _ (List.mem_map_of_mem (List.mem_map_of_mem hnumber))
    change NoteName.pitch ((s.note number).name.toText.toOption.getD "") = .ok p at hp
    cases htext : (s.note number).name.toText with
    | ok text => exact ⟨text, rfl⟩
    | error e =>
      rw [htext] at hp
      cases hp
  rw [checkNames, htexts]
  rfl

/-! ### Searches -/

/-- A song whose notes can be matched: all of them have pitches and sound for some time, and their
buckets are to be reckoned anew. -/
structure Matchable (s : Session) (size : Number) (notes : List (Note Number)) : Prop where
  timed : s.timedNotes = .ok notes
  bucketSize : s.page.bucketSize.toNumber = .ok size
  pos : 0 < size.exact
  uncached : s.page.spans = none
  pitch : ∀ note ∈ notes, ∃ p, NoteName.pitch note.name = .ok p
  lasts : ∀ note ∈ notes, 0 < note.duration.exact

private theorem Matchable.checkNames (h : s.Matchable size notes) : s.checkNames = .ok () := by
  apply checkNames_of_pitches
  rw [names_timedNotes h.timed]
  exact List.forall_mem_map.mpr h.pitch

/-- The notes of the pitch, with their places. -/
def rivals (s : Session) (target : Int) : Except Failure (List (Note Datum × Nat)) :=
  (s.notesOf s.page).zipIdx.filterM fun entry => do
    return (← NoteName.pitch entry.1.name) = target

private theorem mem_rivals_iff (h : s.timedNotes = .ok notes) {found : List (Note Datum × Nat)}
    (hfound : s.rivals target = .ok found) {i : Nat} :
    i ∈ found.map Prod.snd ↔ PitchAt target notes i := by
  rw [pitchAt_iff, ← names_timedNotes h, ← pitchAt_iff, List.mem_map]
  constructor
  · rintro ⟨e, he, rfl⟩
    obtain ⟨hmem, hpitch⟩ := (Except.mem_filterM hfound).mp he
    obtain ⟨p, hp, heq⟩ := Except.bind_eq_ok_iff.mp hpitch
    obtain rfl := of_decide_eq_true (Except.pure_eq_ok_iff.mp heq)
    exact ⟨e.1, List.mem_zipIdx_iff_getElem?.mp hmem, hp⟩
  · rintro ⟨note, hi, hhas⟩
    refine ⟨(note, i), (Except.mem_filterM hfound).mpr
      ⟨List.mem_zipIdx_iff_getElem?.mpr hi, ?_⟩, rfl⟩
    dsimp only
    rw [hhas]
    exact congrArg Except.ok (decide_eq_true rfl)

private theorem Matchable.exists_rivals (h : s.Matchable size notes) (target : Int) :
    ∃ found, s.rivals target = .ok found := by
  have hkeep : ∀ e ∈ (s.notesOf s.page).zipIdx,
      (do return (← NoteName.pitch e.1.name) = target : Except Failure Bool) =
        .ok ((NoteName.pitch e.1.name).toOption = some target) := by
    intro e he
    have hname := List.mem_map_of_mem (f := Note.name) (List.fst_mem_of_mem_zipIdx he)
    rw [names_timedNotes h.timed] at hname
    obtain ⟨note, hnote, hname⟩ := List.mem_map.mp hname
    obtain ⟨p, hp⟩ := h.pitch note hnote
    rw [← hname, hp]
    exact congrArg Except.ok (decide_eq_decide.mpr Option.some_inj.symm)
  exact ⟨_, Except.filterM_eq_ok hkeep⟩

/-- A note without a rival is the closest one. -/
theorem closestAt_of_unique {i : Nat} (h : ∀ j, PitchAt target notes j ↔ j = i) (q : Rat) :
    ClosestAt target q notes i := by
  obtain ⟨note, hi, hhas⟩ := (h i).mpr rfl
  refine ⟨note, hi, hhas, fun other hother hhas' => ?_⟩
  obtain ⟨j, hj⟩ := List.mem_iff_getElem?.mp hother
  obtain rfl := (h j).mp ⟨other, hj, hhas'⟩
  rw [Option.some.inj (hi.symm.trans hj)]

/-- The search through all notes finds a closest one. -/
theorem Matchable.exists_closest (h : s.Matchable size notes) (hname : name.toText = .ok text)
    (htarget : NoteName.pitch text = .ok target) (hbeat : beat.toNumber = .ok b)
    (hprecise : Precise size b notes) (hnote : ∃ note ∈ notes, HasPitch target note) :
    ∃ i, s.closest name beat = .ok (some i) ∧ ClosestAt target b.exact notes i := by
  obtain ⟨found, hfound⟩ := h.exists_rivals target
  have hclosest : s.closest name beat =
      (name.toText >>= fun text => NoteName.pitch text >>= fun target => s.checkNames >>= fun _ =>
        s.rivals target >>= fun found =>
          if found.length < 2 then .ok (found.head?.map Prod.snd)
          else s.timedNotes >>= fun notes => beat.toNumber >>= Matching.closest notes text) := rfl
  rw [hclosest, hname]
  dsimp only [bind, Except.bind]
  rw [htarget, h.checkNames]
  dsimp only
  rw [hfound]
  dsimp only
  split_ifs with hlength
  · have hplaces : ∀ i, i ∈ found.map Prod.snd ↔ PitchAt target notes i := fun i =>
      mem_rivals_iff h.timed hfound
    obtain ⟨note, hmem, hhas⟩ := hnote
    obtain ⟨k, hk⟩ := List.mem_iff_getElem?.mp hmem
    have hkey := (hplaces k).mpr ⟨note, hk, hhas⟩
    match found, hlength with
    | [], _ => cases hkey
    | [e], _ =>
      refine ⟨e.2, rfl, closestAt_of_unique (fun j => ?_) b.exact⟩
      rw [← hplaces]
      exact List.mem_singleton
  · rw [h.timed, hbeat]
    exact Matching.exists_closestAt_closest htarget ⟨h.pitch, hprecise.distance⟩ hnote

/-- The fast search finds a closest one. -/
theorem Matchable.exists_fastClosest (h : s.Matchable size notes) (hname : name.toText = .ok text)
    (htarget : NoteName.pitch text = .ok target) (hbeat : beat.toNumber = .ok b)
    (hprecise : Precise size b notes)
    (hnear : ∃ note ∈ notes, HasPitch target note ∧ b.exact - 1 ≤ note.start.exact ∧
      note.start.exact < b.exact + 1) :
    ∃ i, (s.fastClosest name beat .none .none).2 = .ok (some i) ∧
      ClosestAt target b.exact notes i := by
  have hspans : s.spans = .ok (notes.map (noteSpan size.exact)) := by
    rw [spans, h.uncached, h.bucketSize, h.timed]
    exact hprecise.bucketSpans
  have hnotes : s.namedSheet = .ok (.ofNotes notes) := by
    rw [namedSheet, h.checkNames, timedSheet, h.timed]
    rfl
  have hfast : (s.fastClosest name beat .none .none).2 =
      Matching.fastClosest size notes (notes.map (noteSpan size.exact)) text b none := by
    rw [fastClosest, hspans, hname]
    dsimp only [bind, Except.bind]
    rw [htarget, hnotes, h.bucketSize, hbeat]
    rfl
  rw [hfast]
  exact Matching.exists_closestAt_fastClosest htarget hprecise h.pos h.pitch h.lasts hnear

/-- The fast search finds notes of the pitch only, whatever is asked for and whatever buckets there
are. -/
theorem pitchAt_of_fastClosest {right left : Datum} {i : Nat}
    (h : (s.fastClosest name beat right left).2 = .ok (some i)) :
    ∃ notes text target, s.timedNotes = .ok notes ∧ name.toText = .ok text ∧
      NoteName.pitch text = .ok target ∧ PitchAt target notes i := by
  rw [fastClosest] at h
  split at h
  · cases h
  · next spans _ =>
    obtain ⟨text, htext, h⟩ := Except.bind_eq_ok_iff.mp h
    obtain ⟨-, -, h⟩ := Except.bind_eq_ok_iff.mp h
    have hsearch : ∃ loop, (do
        let notes := (← s.namedSheet).notes
        Matching.fastClosest (← s.page.bucketSize.toNumber) notes spans text (← beat.toNumber) loop) =
          Except.ok (some i) := by
      dsimp only at h
      split at h
      · obtain ⟨r, -, h⟩ := Except.bind_eq_ok_iff.mp h
        obtain ⟨l, -, h⟩ := Except.bind_eq_ok_iff.mp h
        exact ⟨some (r, l), h⟩
      · exact ⟨none, h⟩
    obtain ⟨loop, hsearch⟩ := hsearch
    obtain ⟨sheet, hsheet, h⟩ := Except.bind_eq_ok_iff.mp hsearch
    obtain ⟨size, -, h⟩ := Except.bind_eq_ok_iff.mp h
    obtain ⟨b, -, h⟩ := Except.bind_eq_ok_iff.mp h
    obtain ⟨target, htarget, hpitch⟩ := Matching.pitchAt_of_fastClosest h
    obtain ⟨-, -, hsheet⟩ := Except.bind_eq_ok_iff.mp hsheet
    obtain ⟨notes, hnotes, hsheet⟩ := Except.bind_eq_ok_iff.mp hsheet
    obtain rfl := Except.pure_eq_ok_iff.mp hsheet
    exact ⟨notes, text, target, hnotes, htext, htarget, hpitch⟩

/-- Whatever the fast search finds is a note of the pitch, in a loop and without one. Where such a note
starts within a beat of the beat, it finds one that is as close to the beat as the one that the search
through all notes finds. -/
theorem fastClosest_agrees (h : s.Matchable size notes) (hname : name.toText = .ok text)
    (htarget : NoteName.pitch text = .ok target) (hbeat : beat.toNumber = .ok b)
    (hprecise : Precise size b notes) :
    (∀ right left i, (s.fastClosest name beat right left).2 = .ok (some i) →
      PitchAt target notes i) ∧
    ((∃ note ∈ notes, HasPitch target note ∧ b.exact - 1 ≤ note.start.exact ∧
        note.start.exact < b.exact + 1) →
      ∃ i j note other, (s.fastClosest name beat .none .none).2 = .ok (some i) ∧
        s.closest name beat = .ok (some j) ∧ notes[i]? = some note ∧ notes[j]? = some other ∧
        HasPitch target note ∧ HasPitch target other ∧
        |note.start.exact - b.exact| = |other.start.exact - b.exact|) := by
  constructor
  · intro right left i hi
    obtain ⟨notes', text', target', hnotes, htext, hpitch, hat⟩ := pitchAt_of_fastClosest hi
    obtain rfl := Except.ok.inj (h.timed.symm.trans hnotes)
    obtain rfl := Except.ok.inj (hname.symm.trans htext)
    obtain rfl := Except.ok.inj (htarget.symm.trans hpitch)
    exact hat
  · intro hnear
    obtain ⟨i, hi, hfast⟩ := h.exists_fastClosest hname htarget hbeat hprecise hnear
    obtain ⟨j, hj, hall⟩ := h.exists_closest hname htarget hbeat hprecise
      (hnear.imp fun note hnote => ⟨hnote.1, hnote.2.1⟩)
    obtain ⟨note, hnote, hhas, -⟩ := id hfast
    obtain ⟨other, hother, hhas', -⟩ := id hall
    exact ⟨i, j, note, other, hi, hj, hnote, hother, hhas, hhas',
      hfast.distance_eq hall hnote hother⟩

/-- Two notes of one pitch around beat eight and a half, and a long one in front of them. Times that are
not whole are numbers of some kind. -/
def aroundBeat (timed : Rat → Number) : List (Note Number) :=
  [⟨0, "C4", .whole (-3), .whole 20, none⟩, ⟨1, "B#3", timed (15 / 2), .whole 1, none⟩,
    ⟨2, "E4", .whole 8, timed (1 / 2), none⟩, ⟨3, "C4", timed (19 / 2), .whole 1, none⟩]

/-- A song of these notes alone. -/
def songAroundBeat (timed : Rat → Number) : Session where
  notes := ((aroundBeat timed).map NoteEntry.ofNote).toArray
  logs := #[]
  pages := #[{ notes := (aroundBeat timed).map Note.id, metadata := .record [], logs := .numbered 0
               name := .none, tracks := none, bucketSize := .whole Matching.bucketSize, spans := none }]
  atHand := 0
  saved := []

/-- Both searches find notes that are as close to the beat. -/
def AgreeAroundBeat (timed : Rat → Number) : Prop :=
  ∃ i j note other,
    ((songAroundBeat timed).fastClosest (.text "C4") (.number (timed (17 / 2))) .none .none).2 =
      .ok (some i) ∧
    (songAroundBeat timed).closest (.text "C4") (.number (timed (17 / 2))) = .ok (some j) ∧
    (aroundBeat timed)[i]? = some note ∧ (aroundBeat timed)[j]? = some other ∧
    HasPitch 60 note ∧ HasPitch 60 other ∧
    |note.start.exact - 17 / 2| = |other.start.exact - 17 / 2|

private theorem matchable_aroundBeat {timed : Rat → Number} (h : ∀ q, (timed q).exact = q) :
    (songAroundBeat timed).Matchable (.whole bucketSize) (aroundBeat timed) where
  timed := rfl
  bucketSize := rfl
  pos := by decide +kernel
  uncached := rfl
  pitch := by
    have hpitch : ∀ name ∈ ["C4", "B#3", "E4"], ∃ p, NoteName.pitch name = .ok p := fun name hname =>
      Except.exists_eq_ok (by revert name; decide +kernel)
    simp [aroundBeat, hpitch]
  lasts := by
    have hwhole (n : Int) : (Number.whole n).exact = n := rfl
    simp [aroundBeat, h, hwhole]

private theorem exists_near {timed : Rat → Number} (h : ∀ q, (timed q).exact = q) :
    ∃ note ∈ aroundBeat timed, HasPitch 60 note ∧ (timed (17 / 2)).exact - 1 ≤ note.start.exact ∧
      note.start.exact < (timed (17 / 2)).exact + 1 := by
  refine ⟨⟨1, "B#3", timed (15 / 2), .whole 1, none⟩, by simp [aroundBeat],
    show NoteName.pitch "B#3" = .ok 60 by decide +kernel, ?_, ?_⟩
  · rw [h, h]
    norm_num
  · rw [h, h]
    norm_num

/-- One of the notes starts a whole beat in front of the beat, the other one a whole beat behind it,
be it in ratios or in binary fractions. -/
theorem fastClosest_agrees_apart :
    AgreeAroundBeat .ratio ∧ AgreeAroundBeat fun q => .approx (.finite q) := by
  constructor
  · have hexact : ∀ note ∈ aroundBeat .ratio, note.start.Exact ∧ note.duration.Exact ∧
        |note.start.exact| + |note.duration.exact| ≤ 2 ^ 53 := by
      simp only [aroundBeat, List.forall_mem_cons, List.not_mem_nil, false_imp_iff, implies_true,
        and_true]
      exact ⟨⟨.whole _, .whole _, by decide +kernel⟩, ⟨.ratio _, .whole _, by decide +kernel⟩,
        ⟨.whole _, .ratio _, by decide +kernel⟩, .ratio _, .whole _, by decide +kernel⟩
    have hprecise := precise_of_exact (.ratio (17 / 2)) (by decide +kernel) hexact
    have hexact (q : Rat) : (Number.ratio q).exact = q := rfl
    exact (fastClosest_agrees (matchable_aroundBeat hexact) rfl (by decide +kernel) rfl hprecise).2
      (exists_near hexact)
  · have hprecise : Precise (.whole bucketSize) (.approx (.finite (17 / 2)))
        (aroundBeat fun q => .approx (.finite q)) :=
      ⟨by decide +kernel, by decide +kernel, by decide +kernel, by decide +kernel,
        by decide +kernel⟩
    have hexact (q : Rat) : (Number.approx (.finite q)).exact = q := rfl
    exact (fastClosest_agrees (matchable_aroundBeat hexact) rfl (by decide +kernel) rfl hprecise).2
      (exists_near hexact)

end LeadSheet.Session
