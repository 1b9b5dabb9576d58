import LeadSheet.Proofs.Number.Unrounded
import LeadSheet.Song.Matching

/-!
What matching finds. Of the notes it looks at, a search finds one of the pitch that starts closest to
the beat. A note that starts within a beat of the beat is in a bucket that the fast search looks at,
and no note outside of these buckets starts closer: there both searches find notes that are as close.
-/
namespace LeadSheet.Matching
open Number (StandsFor Unrounded)

section Timebase
variable {α : Type} {target : Int} {notes : List (Note α)} {entries : List (Note α × Nat)}

/-- A note of a pitch. -/
def HasPitch (target : Int) (note : Note α) : Prop := NoteName.pitch note.name = .ok target

/-- There is a note of a pitch at a place. -/
def PitchAt (target : Int) (notes : List (Note α)) (i : Nat) : Prop :=
  ∃ note, notes[i]? = some note ∧ HasPitch target note

/-- What touches a bucket are notes with their places. -/
theorem mem_zipIdx_of_mem_inBucket {spans : List (Int × Int)} {i : Int} {e : Note α × Nat}
    (h : e ∈ inBucket notes spans i) : e ∈ notes.zipIdx := by
  obtain ⟨⟨entry, first, last⟩, hmem, h⟩ := List.mem_filterMap.mp h
  dsimp only at h
  split at h
  · obtain rfl := Option.some.inj h
    exact (List.of_mem_zip hmem).1
  · cases h

variable [Timebase α]

/-! ### Only notes of the pitch are found -/

private theorem closer_eq_ok {beat : α} {found found' : Option (Found α)} {entry : Note α × Nat}
    (h : closer target beat found entry = .ok found') :
    found' = found ∨ found' = some ⟨entry.2, entry.1.start⟩ ∧ HasPitch target entry.1 := by
  unfold closer at h
  dsimp only at h
  split at h
  · exact .inl (Except.pure_eq_ok_iff.mp h).symm
  · obtain ⟨pitch, hpitch, h⟩ := Except.bind_eq_ok_iff.mp h
    split at h
    · exact .inl (Except.pure_eq_ok_iff.mp h).symm
    · next hne =>
      have hhas : HasPitch target entry.1 := by rw [HasPitch, hpitch, not_not.mp hne]
      split at h
      · exact .inr ⟨(Except.pure_eq_ok_iff.mp h).symm, hhas⟩
      · obtain ⟨d, -, h⟩ := Except.bind_eq_ok_iff.mp h
        obtain ⟨d', -, h⟩ := Except.bind_eq_ok_iff.mp h
        obtain rfl := Except.pure_eq_ok_iff.mp h
        split
        · exact .inr ⟨rfl, hhas⟩
        · exact .inl rfl

/-- Whatever is found in a row of entries is a note of the pitch. -/
theorem pitchAt_of_foldlM {beat : α} {found : Option (Found α)}
    (hentries : ∀ e ∈ entries, e ∈ notes.zipIdx)
    (hfound : ∀ f ∈ found, PitchAt target notes f.index) {found' : Option (Found α)}
    (h : entries.foldlM (closer target beat) found = .ok found') :
    ∀ f ∈ found', PitchAt target notes f.index := by
  induction entries generalizing found with
  | nil =>
    obtain rfl := Except.pure_eq_ok_iff.mp h
    exact hfound
  | cons entry entries ih =>
    obtain ⟨hentry, hentries⟩ := List.forall_mem_cons.mp hentries
    rw [List.foldlM_cons] at h
    obtain ⟨next, hnext, h⟩ := Except.bind_eq_ok_iff.mp h
    refine ih hentries ?_ h
    rcases closer_eq_ok hnext with rfl | ⟨rfl, hhas⟩
    · exact hfound
    · rintro f ⟨⟩
      exact ⟨entry.1, List.mem_zipIdx_iff_getElem?.mp hentry, hhas⟩

private theorem pitchAt_of_closestAround {size beat : α} {spans : List (Int × Int)}
    {found : Option (Found α)} (h : closestAround size notes spans target beat = .ok found) :
    ∀ f ∈ found, PitchAt target notes f.index := by
  obtain ⟨left, -, h⟩ := Except.bind_eq_ok_iff.mp h
  obtain ⟨right, -, h⟩ := Except.bind_eq_ok_iff.mp h
  obtain ⟨⟨first, last⟩, -, h⟩ := Except.bind_eq_ok_iff.mp h
  refine pitchAt_of_foldlM ?_ (fun f hf => by cases hf) h
  intro e he
  obtain ⟨i, -, he⟩ := List.mem_flatMap.mp he
  exact mem_zipIdx_of_mem_inBucket he

private theorem pitchAt_of_closestInLoop {size beat right left : α} {spans : List (Int × Int)}
    {found : Option (Found α)}
    (h : closestInLoop size notes spans target beat right left = .ok found) :
    ∀ f ∈ found, PitchAt target notes f.index := by
  obtain ⟨near, hnear, h⟩ := Except.bind_eq_ok_iff.mp h
  have hnear := pitchAt_of_closestAround hnear
  obtain ⟨delta, -, h⟩ := Except.bind_eq_ok_iff.mp h
  split at h
  · obtain rfl := Except.pure_eq_ok_iff.mp h
    exact hnear
  · obtain ⟨wrapBeat, -, h⟩ := Except.bind_eq_ok_iff.mp h
    obtain ⟨wrapped, hwrapped, h⟩ := Except.bind_eq_ok_iff.mp h
    have hwrapped := pitchAt_of_closestAround hwrapped
    split at h
    · obtain rfl := Except.pure_eq_ok_iff.mp h
      exact hnear
    · obtain rfl := Except.pure_eq_ok_iff.mp h
      exact hwrapped
    · obtain ⟨d, -, h⟩ := Except.bind_eq_ok_iff.mp h
      obtain ⟨d', -, h⟩ := Except.bind_eq_ok_iff.mp h
      obtain rfl := Except.pure_eq_ok_iff.mp h
      split
      · exact hwrapped
      · exact hnear

/-- The fast search finds notes of the pitch only, in a loop and without one. -/
theorem pitchAt_of_fastClosest {size beat : α} {spans : List (Int × Int)} {name : String}
    {loop : Option (α × α)} {i : Nat}
    (h : fastClosest size notes spans name beat loop = .ok (some i)) :
    ∃ target, NoteName.pitch name = .ok target ∧ PitchAt target notes i := by
  obtain ⟨target, htarget, h⟩ := Except.bind_eq_ok_iff.mp h
  refine ⟨target, htarget, ?_⟩
  cases loop with
  | none =>
    obtain ⟨found, hfound, h⟩ := Except.bind_eq_ok_iff.mp h
    obtain ⟨f, rfl, rfl⟩ := Option.map_eq_some_iff.mp (Except.pure_eq_ok_iff.mp h)
    exact pitchAt_of_closestAround hfound f rfl
  | some ends =>
    obtain ⟨found, hfound, h⟩ := Except.bind_eq_ok_iff.mp h
    obtain ⟨f, rfl, rfl⟩ := Option.map_eq_some_iff.mp (Except.pure_eq_ok_iff.mp h)
    exact pitchAt_of_closestInLoop hfound f rfl

end Timebase

/-! ### The closest note -/

variable {target : Int} {notes : List (Note Number)} {seen entries : List (Note Number × Nat)}

/-- What is found among entries: a note of the pitch that starts as close to a beat as any of them, or
nothing where none has the pitch. -/
def Nearest (target : Int) (beat : Rat) (entries : List (Note Number × Nat)) :
    Option (Found Number) → Prop
  | none => ∀ e ∈ entries, ¬ HasPitch target e.1
  | some f =>
    (∃ note, (note, f.index) ∈ entries ∧ note.start = f.start ∧ HasPitch target note) ∧
      ∀ e ∈ entries, HasPitch target e.1 → |f.start.exact - beat| ≤ |e.1.start.exact - beat|

namespace Nearest
variable {beat : Rat} {found : Option (Found Number)} {f : Found Number}

/-- Nothing but notes of the pitch matters. -/
theorem skip {e : Note Number × Nat} (h : Nearest target beat seen found)
    (he : ¬ HasPitch target e.1) : Nearest target beat (seen ++ [e]) found := by
  cases found with
  | none => exact List.forall_mem_append.mpr ⟨h, List.forall_mem_singleton.mpr he⟩
  | some f =>
    obtain ⟨⟨note, hmem, hfound⟩, hle⟩ := h
    exact ⟨⟨note, List.mem_append_left _ hmem, hfound⟩,
      List.forall_mem_append.mpr ⟨hle, List.forall_mem_singleton.mpr fun hhas => absurd hhas he⟩⟩

/-- An entry that is no closer is left. -/
theorem stay {e : Note Number × Nat} (h : Nearest target beat seen (some f))
    (hle : |f.start.exact - beat| ≤ |e.1.start.exact - beat|) :
    Nearest target beat (seen ++ [e]) (some f) := by
  obtain ⟨⟨note, hmem, hfound⟩, hseen⟩ := h
  exact ⟨⟨note, List.mem_append_left _ hmem, hfound⟩,
    List.forall_mem_append.mpr ⟨hseen, List.forall_mem_singleton.mpr fun _ => hle⟩⟩

/-- An entry that is as close as what has been found may replace it. -/
theorem replace {note : Note Number} {i : Nat} (h : Nearest target beat seen found)
    (hhas : HasPitch target note)
    (hle : ∀ f ∈ found, |note.start.exact - beat| ≤ |f.start.exact - beat|) :
    Nearest target beat (seen ++ [(note, i)]) (some ⟨i, note.start⟩) := by
  refine ⟨⟨note, List.mem_append_right _ (List.mem_singleton_self _), rfl, hhas⟩, ?_⟩
  refine List.forall_mem_append.mpr ⟨fun e he hpitch => ?_,
    List.forall_mem_singleton.mpr fun _ => le_refl _⟩
  cases found with
  | none => exact absurd hpitch (h e he)
  | some f => exact (hle f rfl).trans (h.2 e he hpitch)

end Nearest

/-- Notes that can be compared: all of them have pitches, and distances from a beat are not rounded. -/
structure Comparable (beat : Number) (notes : List (Note Number)) : Prop where
  pitch : ∀ note ∈ notes, ∃ p, NoteName.pitch note.name = .ok p
  distance : ∀ note ∈ notes,
    Unrounded (Timebase.distance note.start beat) |note.start.exact - beat.exact|

/-- One more entry is compared with what has been found. -/
theorem Nearest.closer {beat : Number} {found : Option (Found Number)} {e : Note Number × Nat}
    (h : Nearest target beat.exact seen found) (hcomparable : Comparable beat notes)
    (hentries : ∀ e' ∈ seen ++ [e], e' ∈ notes.zipIdx) :
    ∃ found', Matching.closer target beat found e = .ok found' ∧
      Nearest target beat.exact (seen ++ [e]) found' := by
  obtain ⟨note, i⟩ := e
  obtain ⟨hseen, hi⟩ := List.forall_mem_append.mp hentries
  have hi := List.mem_zipIdx_iff_getElem?.mp (List.forall_mem_singleton.mp hi)
  have hnote : note ∈ notes := List.mem_of_getElem? hi
  obtain ⟨p, hp⟩ := hcomparable.pitch note hnote
  unfold Matching.closer
  dsimp only
  by_cases hindex : found.map Found.index = some i
  · -- the note itself has been found before
    rw [if_pos hindex]
    refine ⟨found, rfl, ?_⟩
    obtain ⟨f, rfl, rfl⟩ := Option.map_eq_some_iff.mp hindex
    obtain ⟨note', hmem, hstart, -⟩ := h.1
    have hsame := (List.mem_zipIdx_iff_getElem?.mp (hseen _ hmem)).symm.trans hi
    obtain rfl : note' = note := Option.some.inj hsame
    exact h.stay (by rw [← hstart])
  rw [if_neg hindex, hp]
  dsimp only [bind, Except.bind]
  by_cases hpitch : p = target
  · subst hpitch
    rw [if_neg (not_not.mpr rfl)]
    cases found with
    | none => exact ⟨_, rfl, h.replace hp (fun f hf => by cases hf)⟩
    | some f =>
      obtain ⟨note', hmem, hstart, -⟩ := h.1
      have hnote' : note' ∈ notes := List.fst_mem_of_mem_zipIdx (hseen _ hmem)
      obtain ⟨d, hd, hold⟩ := hcomparable.distance note' hnote'
      obtain ⟨d', hd', hnew⟩ := hcomparable.distance note hnote
      rw [hstart] at hd hold
      dsimp only [Found.distance]
      rw [hd, hd']
      refine ⟨_, rfl, ?_⟩
      split_ifs with hlt
      · refine h.replace hp fun _ hf => ?_
        obtain rfl := Option.some.inj hf
        exact ((hnew.lt_iff hold).mp hlt).le
      · exact h.stay (not_lt.mp fun hcloser => hlt ((hnew.lt_iff hold).mpr hcloser))
  · rw [if_pos hpitch]
    exact ⟨found, rfl, h.skip fun hhas => hpitch (Except.ok.inj (hp.symm.trans hhas))⟩

/-- Among entries in a row, the nearest one is found. -/
theorem Nearest.foldlM {beat : Number} {found : Option (Found Number)}
    (h : Nearest target beat.exact seen found) (hcomparable : Comparable beat notes)
    (hentries : ∀ e ∈ seen ++ entries, e ∈ notes.zipIdx) :
    ∃ found', entries.foldlM (Matching.closer target beat) found = .ok found' ∧
      Nearest target beat.exact (seen ++ entries) found' := by
  induction entries generalizing seen found with
  | nil =>
    rw [List.append_nil]
    exact ⟨found, rfl, h⟩
  | cons e entries ih =>
    rw [List.append_cons] at hentries ⊢
    obtain ⟨next, hnext, h⟩ := h.closer hcomparable (List.forall_mem_append.mp hentries).1
    obtain ⟨found', hfound, h⟩ := ih h hentries
    exact ⟨found', by rw [List.foldlM_cons, hnext]; exact hfound, h⟩

private theorem exists_nearest (target : Int) {beat : Number} (hcomparable : Comparable beat notes)
    (hentries : ∀ e ∈ entries, e ∈ notes.zipIdx) :
    ∃ found, entries.foldlM (closer target beat) none = .ok found ∧
      Nearest target beat.exact entries found :=
  have h : Nearest target beat.exact [] none := fun _ he => (List.not_mem_nil he).elim
  h.foldlM hcomparable hentries

/-- The note at a place has a pitch, and no note of this pitch starts closer to a beat. -/
def ClosestAt (target : Int) (beat : Rat) (notes : List (Note Number)) (i : Nat) : Prop :=
  ∃ note, notes[i]? = some note ∧ HasPitch target note ∧
    ∀ other ∈ notes, HasPitch target other →
      |note.start.exact - beat| ≤ |other.start.exact - beat|

/-- Where there is a note of the pitch, the nearest of all notes is the closest one. -/
theorem Nearest.exists_closestAt {beat : Rat} {found : Option (Found Number)}
    (h : Nearest target beat notes.zipIdx found) (hnote : ∃ note ∈ notes, HasPitch target note) :
    ∃ i, found.map Found.index = some i ∧ ClosestAt target beat notes i := by
  obtain ⟨note, hmem, hhas⟩ := hnote
  have hall {p : Note Number → Prop} (hp : ∀ e ∈ notes.zipIdx, p e.1) : ∀ n ∈ notes, p n := by
    intro n hn
    obtain ⟨i, hi⟩ := List.mem_iff_getElem?.mp hn
    exact hp (n, i) (List.mem_zipIdx_iff_getElem?.mpr hi)
  cases found with
  | none => exact absurd hhas (hall (p := fun n => ¬ HasPitch target n) h note hmem)
  | some f =>
    obtain ⟨⟨note', hmem', hstart, hhas'⟩, hle⟩ := h
    refine ⟨f.index, rfl, note', List.mem_zipIdx_iff_getElem?.mp hmem', hhas', hall ?_⟩
    rw [hstart]
    exact hle

/-- All closest notes are as far from the beat. -/
theorem ClosestAt.distance_eq {beat : Rat} {i j : Nat} {note other : Note Number}
    (hi : ClosestAt target beat notes i) (hj : ClosestAt target beat notes j)
    (hnote : notes[i]? = some note) (hother : notes[j]? = some other) :
    |note.start.exact - beat| = |other.start.exact - beat| := by
  obtain ⟨n, hn, hhas, hle⟩ := hi
  obtain ⟨m, hm, hhas', hle'⟩ := hj
  obtain rfl := Option.some.inj (hn.symm.trans hnote)
  obtain rfl := Option.some.inj (hm.symm.trans hother)
  exact le_antisymm (hle m (List.mem_of_getElem? hm) hhas') (hle' n (List.mem_of_getElem? hn) hhas)

/-- The search through all notes finds the closest one. -/
theorem exists_closestAt_closest {name : String} {beat : Number}
    (hname : NoteName.pitch name = .ok target) (hcomparable : Comparable beat notes)
    (hnote : ∃ note ∈ notes, HasPitch target note) :
    ∃ i, closest notes name beat = .ok (some i) ∧ ClosestAt target beat.exact notes i := by
  have hall : ∀ e ∈ notes.zipIdx, e ∈ notes.zipIdx := fun _ he => he
  obtain ⟨found, hfound, hnearest⟩ := exists_nearest target hcomparable hall
  obtain ⟨i, hi, hclosest⟩ := hnearest.exists_closestAt hnote
  refine ⟨i, ?_, hclosest⟩
  rw [closest, hname]
  dsimp only [bind, Except.bind]
  rw [hfound, ← hi]
  rfl

/-! ### Buckets -/

/-- The buckets that a stretch of time touches, in exact time. -/
def spanOf (size start stop : Rat) : Int × Int := ((start / size).floor, (stop / size).ceil)

/-- Something that lasts touches the bucket that it starts in. -/
theorem floor_lt_ceil {size start stop : Rat} (hsize : 0 < size) (h : start < stop) :
    (start / size).floor < (stop / size).ceil := by
  rw [Rat.lt_ceil_iff]
  exact (Rat.floor_le _).trans_lt ((div_lt_div_iff_of_pos_right hsize).mpr h)

private theorem bucketSpan_eq {size start stop : Number} {p q : Rat}
    (hstart : Unrounded (start.div size) p) (hstop : Unrounded (stop.div size) q) :
    bucketSpan size start stop = .ok (p.floor, q.ceil) := by
  obtain ⟨first, hfirst, hp⟩ := hstart
  obtain ⟨last, hlast, hq⟩ := hstop
  have hspan : bucketSpan size start stop =
      (start.div size >>= fun first => first.toInt Rat.floor >>= fun i =>
        stop.div size >>= fun last => last.toInt Rat.ceil >>= fun j => .ok (i, j)) := rfl
  rw [hspan, hfirst, hlast]
  dsimp only [bind, Except.bind]
  rw [hp.toInt_eq, hq.toInt_eq]

/-- The buckets of a note, in exact time. -/
def noteSpan (size : Rat) (note : Note Number) : Int × Int :=
  spanOf size note.start.exact (note.start.exact + note.duration.exact)

/-- Nothing is rounded of what matching around a beat reckons with. -/
structure Precise (size beat : Number) (notes : List (Note Number)) : Prop where
  left : Unrounded (beat.sub 1 >>= (·.div size)) ((beat.exact - 1) / size.exact)
  right : Unrounded (beat.add 1 >>= (·.div size)) ((beat.exact + 1) / size.exact)
  start : ∀ note ∈ notes, Unrounded (note.start.div size) (note.start.exact / size.exact)
  stop : ∀ note ∈ notes, Unrounded (note.stop >>= (·.div size))
    ((note.start.exact + note.duration.exact) / size.exact)
  distance : ∀ note ∈ notes,
    Unrounded (Timebase.distance note.start beat) |note.start.exact - beat.exact|

variable {size beat : Number}

theorem Precise.bucketSpans (h : Precise size beat notes) :
    bucketSpans size notes = .ok (notes.map (noteSpan size.exact)) := by
  rw [Matching.bucketSpans, Except.mapM_eq_ok_iff_forall₂, List.forall₂_map_right_iff,
    List.forall₂_same]
  intro note hnote
  obtain ⟨stop, hstop, hdiv⟩ := (h.stop note hnote).of_bind
  rw [hstop]
  exact bucketSpan_eq (h.start note hnote) hdiv

/-- With the usual buckets, nothing is rounded where times are whole numbers or ratios and not too
large. -/
theorem precise_of_exact (hbeat : beat.Exact) (hlimit : |beat.exact| + 1 ≤ 2 ^ 53)
    (hnotes : ∀ note ∈ notes, note.start.Exact ∧ note.duration.Exact ∧
      |note.start.exact| + |note.duration.exact| ≤ 2 ^ 53) :
    Precise (.whole bucketSize) beat notes := by
  have hsize : (Number.whole bucketSize).exact = 2 ^ 3 := by
    rw [Number.exact, bucketSize]
    norm_num
  have hdiv {x : Except Failure Number} {q : Rat} (hx : ∃ a, x = .ok a ∧ a.Exact ∧ a.exact = q)
      (hq : |q| ≤ 2 ^ 53) :
      Unrounded (x >>= (·.div (.whole bucketSize))) (q / (Number.whole bucketSize).exact) := by
    obtain ⟨a, rfl, ha, rfl⟩ := hx
    have hk : 3 ≤ 1074 := by decide
    rw [hsize]
    exact ha.div_twoPow hk hq
  have hone : (Number.whole 1).exact = 1 := Int.cast_one
  constructor
  · have hsub := hbeat.sub (Number.Exact.whole 1)
    rw [hone] at hsub
    refine hdiv hsub ((abs_sub _ _).trans ?_)
    rwa [abs_one]
  · have hadd := hbeat.add (Number.Exact.whole 1)
    rw [hone] at hadd
    refine hdiv hadd ((abs_add_le _ _).trans ?_)
    rwa [abs_one]
  · intro note hnote
    obtain ⟨hstart, -, hle⟩ := hnotes note hnote
    exact hdiv ⟨_, rfl, hstart, rfl⟩ ((le_add_of_nonneg_right (abs_nonneg _)).trans hle)
  · intro note hnote
    obtain ⟨hstart, hduration, hle⟩ := hnotes note hnote
    exact hdiv (hstart.add hduration) ((abs_add_le _ _).trans hle)
  · intro note hnote
    exact (hnotes note hnote).1.distance hbeat

/-- A note is in the buckets that it touches. -/
theorem mem_inBucket_iff {f : Note Number → Int × Int} {i : Int} {e : Note Number × Nat} :
    e ∈ inBucket notes (notes.map f) i ↔
      e ∈ notes.zipIdx ∧ (f e.1).1 ≤ i ∧ i < (f e.1).2 := by
  have hzip : notes.zipIdx.zip (notes.map f) = notes.zipIdx.map fun e => (e, f e.1) := by
    rw [List.map_prod_left_eq_zip, ← Function.comp_def f, ← List.map_map, List.zipIdx_map_fst]
  rw [inBucket, hzip, List.filterMap_map, List.mem_filterMap]
  simp

/-- The buckets from a first one up to a last one. -/
def bucketsOf (span : Int × Int) : List Int :=
  (List.range (span.2 - span.1).toNat).map fun (i : Nat) => span.1 + i

private theorem mem_bucketsOf_iff {span : Int × Int} {i : Int} :
    i ∈ bucketsOf span ↔ span.1 ≤ i ∧ i < span.2 := by
  rw [bucketsOf, List.mem_map]
  constructor
  · rintro ⟨k, hk, rfl⟩
    have := List.mem_range.mp hk
    omega
  · rintro ⟨hfirst, hlast⟩
    exact ⟨(i - span.1).toNat, List.mem_range.mpr (by omega), by omega⟩

/-- What the fast search looks at: the notes in the buckets from a beat in front of the beat to one
behind it. -/
def entriesAround (size beat : Rat) (notes : List (Note Number)) : List (Note Number × Nat) :=
  (bucketsOf (spanOf size (beat - 1) (beat + 1))).flatMap
    (inBucket notes (notes.map (noteSpan size)))

private theorem mem_zipIdx_of_mem_entriesAround {size beat : Rat} {e : Note Number × Nat}
    (h : e ∈ entriesAround size beat notes) : e ∈ notes.zipIdx := by
  obtain ⟨i, -, h⟩ := List.mem_flatMap.mp h
  exact mem_zipIdx_of_mem_inBucket h

/-- A note that starts within a beat of the beat is looked at, because of the bucket it starts in. -/
theorem mem_entriesAround {size beat : Rat} (hsize : 0 < size) {e : Note Number × Nat}
    (he : e ∈ notes.zipIdx) (hlasts : 0 < e.1.duration.exact) (hleft : beat - 1 ≤ e.1.start.exact)
    (hright : e.1.start.exact < beat + 1) : e ∈ entriesAround size beat notes := by
  refine List.mem_flatMap.mpr ⟨(e.1.start.exact / size).floor, ?_, ?_⟩
  · refine mem_bucketsOf_iff.mpr ⟨?_, floor_lt_ceil hsize hright⟩
    exact Rat.floor_monotone (div_le_div_of_nonneg_right hleft hsize.le)
  · exact mem_inBucket_iff.mpr ⟨he, le_refl _, floor_lt_ceil hsize (lt_add_of_pos_right _ hlasts)⟩

/-- No note that is left out starts closer than one within a beat. -/
theorem Nearest.all {size beat : Rat} {found : Option (Found Number)}
    (h : Nearest target beat (entriesAround size beat notes) found) (hsize : 0 < size)
    (hlasts : ∀ note ∈ notes, 0 < note.duration.exact)
    (hnear : ∃ note ∈ notes, HasPitch target note ∧ beat - 1 ≤ note.start.exact ∧
      note.start.exact < beat + 1) :
    Nearest target beat notes.zipIdx found := by
  have haround {e : Note Number × Nat} (he : e ∈ notes.zipIdx) (hleft : beat - 1 ≤ e.1.start.exact)
      (hright : e.1.start.exact < beat + 1) : e ∈ entriesAround size beat notes :=
    mem_entriesAround hsize he (hlasts e.1 (List.fst_mem_of_mem_zipIdx he)) hleft hright
  obtain ⟨note, hnote, hhas, hleft, hright⟩ := hnear
  obtain ⟨k, hk⟩ := List.mem_iff_getElem?.mp hnote
  have hmem := haround (e := (note, k)) (List.mem_zipIdx_iff_getElem?.mpr hk) hleft hright
  cases found with
  | none =>
    have hlacks : ¬ HasPitch target note := h (note, k) hmem
    exact absurd hhas hlacks
  | some f =>
    obtain ⟨⟨note', hmem', hfound⟩, hle⟩ := h
    refine ⟨⟨note', mem_zipIdx_of_mem_entriesAround hmem', hfound⟩, fun e he hpitch => ?_⟩
    by_cases hin : beat - 1 ≤ e.1.start.exact ∧ e.1.start.exact < beat + 1
    · exact hle e (haround he hin.1 hin.2) hpitch
    · have hwithin : |note.start.exact - beat| ≤ 1 := abs_le.mpr ⟨by linarith, by linarith⟩
      have hbeyond : 1 ≤ |e.1.start.exact - beat| := by
        rw [le_abs]
        by_cases hfront : beat - 1 ≤ e.1.start.exact
        · left
          have := not_lt.mp fun hlt => hin ⟨hfront, hlt⟩
          linarith
        · right
          linarith
      exact (hle _ hmem hhas).trans (hwithin.trans hbeyond)

private theorem Precise.closestAround (h : Precise size beat notes) :
    closestAround size notes (notes.map (noteSpan size.exact)) target beat =
      (entriesAround size.exact beat.exact notes).foldlM (closer target beat) none := by
  obtain ⟨left, hleft, hfirst⟩ := h.left.of_bind
  obtain ⟨right, hright, hlast⟩ := h.right.of_bind
  have haround : Matching.closestAround size notes (notes.map (noteSpan size.exact)) target beat =
      (beat.sub 1 >>= fun left => beat.add 1 >>= fun right => bucketSpan size left right >>=
        fun span => ((bucketsOf span).flatMap (inBucket notes (notes.map (noteSpan size.exact)))).foldlM
          (Matching.closer target beat) none) := rfl
  rw [haround, hleft, hright]
  dsimp only [bind, Except.bind]
  rw [bucketSpan_eq hfirst hlast]
  rfl

/-- The fast search finds the closest note too, if one starts within a beat. -/
theorem exists_closestAt_fastClosest {name : String} (hname : NoteName.pitch name = .ok target)
    (h : Precise size beat notes) (hsize : 0 < size.exact)
    (hpitch : ∀ note ∈ notes, ∃ p, NoteName.pitch note.name = .ok p)
    (hlasts : ∀ note ∈ notes, 0 < note.duration.exact)
    (hnear : ∃ note ∈ notes, HasPitch target note ∧ beat.exact - 1 ≤ note.start.exact ∧
      note.start.exact < beat.exact + 1) :
    ∃ i, fastClosest size notes (notes.map (noteSpan size.exact)) name beat none = .ok (some i) ∧
      ClosestAt target beat.exact notes i := by
  have hcomparable : Comparable beat notes := ⟨hpitch, h.distance⟩
  have hentries : ∀ e ∈ entriesAround size.exact beat.exact notes, e ∈ notes.zipIdx :=
    fun e => mem_zipIdx_of_mem_entriesAround
  obtain ⟨found, hfound, hnearest⟩ := exists_nearest target hcomparable hentries
  obtain ⟨i, hi, hclosest⟩ := (hnearest.all hsize hlasts hnear).exists_closestAt
    (hnear.imp fun note hnote => ⟨hnote.1, hnote.2.1⟩)
  refine ⟨i, ?_, hclosest⟩
  rw [fastClosest, hname]
  dsimp only [bind, Except.bind]
  rw [h.closestAround, hfound, ← hi]
  rfl

end LeadSheet.Matching
