import LeadSheet.Arrangement
import Mathlib.Algebra.BigOperators.Group.List.Basic
import Mathlib.Algebra.GroupWithZero.Nat
import Mathlib.Data.List.Induction
import Mathlib.Data.List.Nodup

/-!
Songs and their tracks. Notes are pushed to a song one after the other, each to a track; a track is
made when something is first put into it. However they come about, the tracks together hold every
note of the song once.
-/
namespace LeadSheet.Song
variable {α : Type}

private theorem isSome_lookup_iff {tracks : List (Int × Sheet α)} {number : Int} :
    (tracks.lookup number).isSome = true ↔ number ∈ tracks.map Prod.fst := by
  rw [List.lookup_isSome_iff, List.mem_map]
  constructor
  · rintro ⟨t, ht, he⟩
    exact ⟨t, ht, (eq_of_beq he).symm⟩
  · rintro ⟨t, ht, rfl⟩
    exact ⟨t, ht, beq_self_eq_true _⟩

private theorem modifyTrack_of_mem {s : Song α} {number : Int} (h : number ∈ s.tracks.map Prod.fst)
    (f : Sheet α → Sheet α) :
    s.modifyTrack number f =
      { s with tracks := s.tracks.map fun t => if t.1 = number then (t.1, f t.2) else t } := by
  rw [modifyTrack, if_pos (isSome_lookup_iff.mpr h)]

private theorem modifyTrack_of_not_mem {s : Song α} {number : Int}
    (h : number ∉ s.tracks.map Prod.fst)
    (f : Sheet α → Sheet α) :
    s.modifyTrack number f = { s with tracks := s.tracks ++ [(number, f .empty)] } := by
  rw [modifyTrack, if_neg fun hs => h (isSome_lookup_iff.mp hs)]

/-! ### What was pushed where -/

/-- Tracks hold what was pushed to them: each its own notes, in the order of the pushes. -/
structure Houses (tracks : List (Int × Sheet α)) (pushes : List (Int × Note α)) : Prop where
  numbers : (tracks.map Prod.fst).Nodup
  housed : ∀ p ∈ pushes, p.1 ∈ tracks.map Prod.fst
  notes : ∀ t ∈ tracks, t.2.notes = (pushes.filter fun p => p.1 = t.1).map Prod.snd

private theorem houses_nil : Houses ([] : List (Int × Sheet α)) [] :=
  ⟨List.nodup_nil, fun _ h => (List.not_mem_nil h).elim, fun _ h => (List.not_mem_nil h).elim⟩

private theorem map_filter_pushes (number k : Int) (added : List (Note α)) :
    ((added.map fun n => (number, n)).filter fun p => p.1 = k).map Prod.snd =
      if number = k then added else [] := by
  induction added with
  | nil => simp
  | cons n added ih =>
    by_cases hk : number = k
    · subst hk
      simpa using ih
    · simp [hk]

/-- Notes put at the end of one track are pushed to it. The track may be a new one. -/
theorem Houses.modifyTrack {s : Song α} {pushes : List (Int × Note α)} (h : Houses s.tracks pushes)
    {f : Sheet α → Sheet α} {added : List (Note α)} (hf : ∀ t, (f t).notes = t.notes ++ added)
    (number : Int) :
    Houses (s.modifyTrack number f).tracks (pushes ++ added.map fun n => (number, n)) := by
  by_cases hn : number ∈ s.tracks.map Prod.fst
  · rw [modifyTrack_of_mem hn]
    have hfst : (s.tracks.map fun t => if t.1 = number then (t.1, f t.2) else t).map Prod.fst =
        s.tracks.map Prod.fst := by
      rw [List.map_map]
      refine List.map_congr_left fun t _ => ?_
      dsimp only [Function.comp]
      split <;> rfl
    refine ⟨hfst ▸ h.numbers, ?_, ?_⟩
    · intro p hp
      rw [hfst]
      rcases List.mem_append.mp hp with hp | hp
      · exact h.housed p hp
      · obtain ⟨n, -, rfl⟩ := List.mem_map.mp hp
        exact hn
    · intro t' ht'
      obtain ⟨t, ht, rfl⟩ := List.mem_map.mp ht'
      rw [List.filter_append, List.map_append, map_filter_pushes]
      by_cases hk : t.1 = number
      · rw [if_pos hk, if_pos hk.symm, hf, h.notes t ht]
      · rw [if_neg hk, if_neg (Ne.symm hk), List.append_nil, h.notes t ht]
  · rw [modifyTrack_of_not_mem hn]
    have hfst : (s.tracks ++ [(number, f .empty)]).map Prod.fst =
        s.tracks.map Prod.fst ++ [number] := by
      rw [List.map_append, List.map_singleton]
    refine ⟨?_, ?_, ?_⟩
    · rw [hfst]
      exact List.Nodup.append h.numbers (List.nodup_singleton _)
        (List.disjoint_singleton.mpr hn)
    · intro p hp
      rw [hfst, List.mem_append, List.mem_singleton]
      rcases List.mem_append.mp hp with hp | hp
      · exact .inl (h.housed p hp)
      · obtain ⟨n, -, rfl⟩ := List.mem_map.mp hp
        exact .inr rfl
    · intro t ht
      rw [List.filter_append, List.map_append, map_filter_pushes]
      rcases List.mem_append.mp ht with ht | ht
      · have hk : number ≠ t.1 := fun he => hn (he ▸ List.mem_map_of_mem ht)
        rw [if_neg hk, List.append_nil, h.notes t ht]
      · obtain rfl := List.mem_singleton.mp ht
        -- nothing was pushed to a track that was not there
        have hnew : (pushes.filter fun p => p.1 = number) = [] :=
          List.filter_eq_nil_iff.mpr fun p hp => by
            simpa using fun he : p.1 = number => hn (he ▸ h.housed p hp)
        rw [hnew, if_pos rfl, hf]
        rfl

/-- A note that was pushed once stands in one track. -/
theorem Houses.existsUnique {tracks : List (Int × Sheet α)} {pushes : List (Int × Note α)}
    (h : Houses tracks pushes) (hd : ((pushes.map Prod.snd).map Note.id).Nodup) {note : Note α}
    (hn : note ∈ pushes.map Prod.snd) : ∃! track, track ∈ tracks ∧ note ∈ track.2.notes := by
  obtain ⟨p, hp, rfl⟩ := List.mem_map.mp hn
  obtain ⟨t, ht, hpt⟩ := List.mem_map.mp (h.housed p hp)
  refine ⟨t, ⟨ht, ?_⟩, ?_⟩
  · rw [h.notes t ht]
    exact List.mem_map_of_mem (List.mem_filter.mpr ⟨hp, decide_eq_true hpt.symm⟩)
  · rintro t' ⟨ht', hnote⟩
    rw [h.notes t' ht'] at hnote
    obtain ⟨q, hq, hqp⟩ := List.mem_map.mp hnote
    obtain ⟨hq, hqt⟩ := List.mem_filter.mp hq
    have hpq : q = p := List.inj_on_of_nodup_map (List.Nodup.of_map _ hd) hq hp hqp
    have hnumber : t'.1 = t.1 := by
      rw [hpt, ← hpq]
      exact (of_decide_eq_true hqt).symm
    exact List.inj_on_of_nodup_map h.numbers ht' ht hnumber

private theorem sum_eq_count (numbers : List Int) (number : Int) :
    (numbers.map fun k => if k = number then 1 else 0).sum = numbers.count number := by
  induction numbers with
  | nil => rfl
  | cons k numbers ih => simp [List.count_cons, ih, Nat.add_comm]

private theorem sum_length_filter {numbers : List Int} (hd : numbers.Nodup)
    {pushes : List (Int × Note α)}
    (h : ∀ p ∈ pushes, p.1 ∈ numbers) :
    (numbers.map fun k => (pushes.filter fun p => p.1 = k).length).sum = pushes.length := by
  induction pushes with
  | nil => simp
  | cons p pushes ih =>
    obtain ⟨hp, h⟩ := List.forall_mem_cons.mp h
    have hone : (numbers.map fun k => if k = p.1 then 1 else 0).sum = 1 := by
      rw [sum_eq_count, List.count_eq_one_of_mem hd hp]
    have hcons (k : Int) : ((p :: pushes).filter fun p => p.1 = k).length =
        (pushes.filter fun p => p.1 = k).length + if k = p.1 then 1 else 0 := by
      by_cases hk : k = p.1
      · simp [hk]
      · simp [hk, Ne.symm hk]
    rw [funext hcons, List.sum_map_add, ih h, hone, List.length_cons]

/-- The tracks together have as many notes as were pushed. -/
theorem Houses.sum_length {tracks : List (Int × Sheet α)} {pushes : List (Int × Note α)}
    (h : Houses tracks pushes) :
    (tracks.map fun track => track.2.notes.length).sum = pushes.length := by
  rw [← sum_length_filter h.numbers h.housed, List.map_map]
  congr 1
  refine List.map_congr_left fun t ht => ?_
  rw [h.notes t ht, List.length_map]
  rfl

/-! ### Songs of events -/

/-- Records an event behind those recorded before. A note gets the next number. -/
def record (s : Song α) : Event α → Song α
  | .note track name start duration location =>
    { s.push ⟨s.fresh, name, start, duration, location⟩ track with fresh := s.fresh + 1 }
  | .clef track beat sign => s.modifyTrack track fun t => { t with clefs := t.clefs ++ [(beat, sign)] }
  | .keySignature beat count location =>
    { s with sheet :=
      { s.sheet with keySignatures := s.sheet.keySignatures ++ [⟨beat, count, location⟩] } }
  | .timeSignature beat beats =>
    { s with sheet := { s.sheet with timeSignatures := s.sheet.timeSignatures ++ [(beat, beats)] } }
  | .chord beat symbol =>
    { s with sheet := { s.sheet with chords := s.sheet.chords ++ [(beat, symbol)] } }
  | .remark beat text =>
    { s with sheet := { s.sheet with remarks := s.sheet.remarks ++ [(beat, text)] } }
  | .unknown _ => s

private theorem filterMap_concat {β : Type} (f : Event α → Option β) (events : List (Event α))
    (e : Event α) : (events ++ [e]).filterMap f = events.filterMap f ++ (f e).toList := by
  cases h : f e <;> simp [h]

private theorem length_notesOf (events : List (Event α)) :
    (notesOf events).length = (events.filterMap Event.note?).length := by
  rw [notesOf, List.length_mapIdx]

private theorem notesOf_concat (events : List (Event α)) (e : Event α) :
    notesOf (events ++ [e]) = notesOf events ++
      (e.note?.map fun p => (p.1, p.2 (notesOf events).length)).toList := by
  rw [length_notesOf, notesOf, notesOf, filterMap_concat, List.mapIdx_append]
  cases e.note? <;> simp

private theorem trackOf_eq_empty {events : List (Event α)} {number : Int}
    (h : number ∉ events.filterMap Event.track?) :
    trackOf events (notesOf events) number = .empty := by
  have hnotes : ((notesOf events).filter fun p => p.1 = number) = [] := by
    refine List.filter_eq_nil_iff.mpr fun p hp hk => h ?_
    obtain ⟨i, hi, rfl⟩ := List.mem_mapIdx.mp hp
    obtain ⟨e, he, hn⟩ := List.mem_filterMap.mp (List.getElem_mem hi)
    refine List.mem_filterMap.mpr ⟨e, he, ?_⟩
    cases e with
    | note track name start duration location =>
      rw [← of_decide_eq_true hk, ← Option.some.inj hn]
      rfl
    | _ => cases hn
  have hclefs : events.filterMap (Event.clef? number) = [] := by
    refine List.filterMap_eq_nil_iff.mpr fun e he => ?_
    cases e with
    | clef track beat sign =>
      have hk : track ≠ number := by
        rintro rfl
        exact h (List.mem_filterMap.mpr ⟨_, he, rfl⟩)
      exact if_neg hk
    | _ => rfl
  rw [trackOf, hnotes, hclefs]
  rfl

/-- An event that puts something into a track changes this track, or makes it. -/
theorem tracks_ofEvents_concat {events : List (Event α)} {e : Event α} {number : Int}
    (he : e.track? = some number) (f : Sheet α → Sheet α)
    (hf : ∀ k, trackOf (events ++ [e]) (notesOf (events ++ [e])) k =
      if k = number then f (trackOf events (notesOf events) k)
      else trackOf events (notesOf events) k) :
    (ofEvents (events ++ [e])).tracks = ((ofEvents events).modifyTrack number f).tracks := by
  have hfst : (ofEvents events).tracks.map Prod.fst =
      (events.filterMap Event.track?).eraseDups := by
    rw [ofEvents, List.map_map]
    exact List.map_id' _
  have hmem : number ∈ (ofEvents events).tracks.map Prod.fst ↔
      number ∈ events.filterMap Event.track? := by
    rw [hfst, List.mem_eraseDups]
  rw [ofEvents]
  dsimp only
  rw [funext hf, List.filterMap_append, List.filterMap_cons_some he, List.filterMap_nil,
    List.eraseDups_append]
  have hr : [number].removeAll (events.filterMap Event.track?) =
      if number ∈ events.filterMap Event.track? then [] else [number] := by
    rw [List.removeAll, List.filter_singleton]
    simp
  by_cases hn : number ∈ events.filterMap Event.track?
  · rw [modifyTrack_of_mem (hmem.mpr hn), hr, if_pos hn, List.eraseDups_nil, List.append_nil,
      ofEvents]
    dsimp only
    rw [List.map_map]
    refine List.map_congr_left fun k _ => ?_
    dsimp only [Function.comp]
    split <;> rfl
  · rw [modifyTrack_of_not_mem fun h => hn (hmem.mp h), hr, if_neg hn, ofEvents]
    dsimp only
    rw [List.map_append]
    congr 1
    · refine List.map_congr_left fun k hk => ?_
      rw [if_neg]
      rintro rfl
      exact hn (List.mem_eraseDups.mp hk)
    · rw [List.eraseDups_cons, List.map_cons, if_pos rfl, trackOf_eq_empty hn]
      rfl

private theorem trackOf_concat (events : List (Event α)) (e : Event α) (number : Int) :
    trackOf (events ++ [e]) (notesOf (events ++ [e])) number =
      { trackOf events (notesOf events) number with
        notes := (trackOf events (notesOf events) number).notes ++
          ((e.note?.map fun p => (p.1, p.2 (notesOf events).length)).toList.filter
            fun p => p.1 = number).map Prod.snd
        clefs := (trackOf events (notesOf events) number).clefs ++ (e.clef? number).toList } := by
  rw [trackOf, trackOf, notesOf_concat, filterMap_concat, List.filter_append, List.map_append]
  rfl

private theorem tracks_ofEvents_concat_of_none {events : List (Event α)} {e : Event α}
    (he : e.track? = none) : (ofEvents (events ++ [e])).tracks = (ofEvents events).tracks := by
  have hn : e.note? = none := by
    cases e with
    | note => cases he
    | _ => rfl
  have hc (k : Int) : e.clef? k = none := by
    cases e with
    | clef => cases he
    | _ => rfl
  have hf (k : Int) : trackOf (events ++ [e]) (notesOf (events ++ [e])) k =
      trackOf events (notesOf events) k := by
    rw [trackOf_concat, hn, hc]
    simp only [Option.map_none, Option.toList_none, List.filter_nil, List.map_nil, List.append_nil]
  rw [ofEvents, ofEvents]
  dsimp only
  rw [funext hf, filterMap_concat, he, Option.toList_none, List.append_nil]

@[simp] theorem sheet_modifyTrack (s : Song α) (number : Int) (f : Sheet α → Sheet α) :
    (s.modifyTrack number f).sheet = s.sheet := by
  rw [modifyTrack]
  split <;> rfl

@[simp] theorem fresh_modifyTrack (s : Song α) (number : Int) (f : Sheet α → Sheet α) :
    (s.modifyTrack number f).fresh = s.fresh := by
  rw [modifyTrack]
  split <;> rfl

private theorem tracks_push (s : Song α) (note : Note α) (number : Int) :
    (s.push note number).tracks = (s.modifyTrack number (·.push note)).tracks := by
  rw [push, modifyTrack, modifyTrack]
  split <;> rfl

private theorem tracks_ofEvents_record (events : List (Event α)) (e : Event α) :
    (ofEvents (events ++ [e])).tracks = ((ofEvents events).record e).tracks := by
  cases e with
  | note track name start duration location =>
    refine Eq.trans ?_ (tracks_push _ _ _).symm
    refine tracks_ofEvents_concat rfl _ fun k => ?_
    rw [trackOf_concat]
    by_cases hk : k = track
    · simp [Event.note?, Event.clef?, Sheet.push, ofEvents, hk]
    · simp [Event.note?, Event.clef?, hk, Ne.symm hk]
  | clef track beat sign =>
    refine tracks_ofEvents_concat rfl _ fun k => ?_
    rw [trackOf_concat]
    by_cases hk : k = track
    · simp [Event.note?, Event.clef?, hk]
    · simp [Event.note?, Event.clef?, hk, Ne.symm hk]
  | _ => exact tracks_ofEvents_concat_of_none rfl

private theorem sheet_ofEvents_record (events : List (Event α)) (e : Event α) :
    (ofEvents (events ++ [e])).sheet = ((ofEvents events).record e).sheet := by
  cases e <;>
    simp [ofEvents, record, push, Sheet.push, Sheet.ofNotes, notesOf_concat, Event.note?,
      Event.chord?, Event.remark?, Event.timeSignature?, Event.keyChange?]

/-- The song of events is made by recording them one after the other. -/
theorem ofEvents_concat (events : List (Event α)) (e : Event α) :
    ofEvents (events ++ [e]) = (ofEvents events).record e := by
  have hsheet := sheet_ofEvents_record events e
  have htracks := tracks_ofEvents_record events e
  have hfresh : (ofEvents (events ++ [e])).fresh = ((ofEvents events).record e).fresh := by
    cases e <;> simp [ofEvents, record, notesOf_concat, Event.note?]
  cases h : ofEvents (events ++ [e])
  cases h' : (ofEvents events).record e
  simp_all

/-- A song keeps what was pushed to it: among all notes, numbered in their order, and in tracks. -/
structure Keeps (s : Song α) (pushes : List (Int × Note α)) : Prop where
  notes : s.sheet.notes = pushes.map Prod.snd
  ids : s.sheet.notes.map Note.id = List.range s.fresh
  tracks : Houses s.tracks pushes

private theorem keeps_empty : Keeps (.empty : Song α) [] := ⟨rfl, rfl, houses_nil⟩

theorem Keeps.nodup {s : Song α} {pushes : List (Int × Note α)} (h : s.Keeps pushes) :
    (s.sheet.notes.map Note.id).Nodup := h.ids ▸ List.nodup_range

/-- Recording an event pushes its note, if it is one, and nothing else. -/
theorem Keeps.record {s : Song α} {pushes : List (Int × Note α)} (h : s.Keeps pushes)
    (e : Event α) :
    (s.record e).Keeps (pushes ++ (e.note?.map fun p => (p.1, p.2 s.fresh)).toList) := by
  cases e with
  | note track name start duration location =>
    refine ⟨?_, ?_, ?_⟩
    · simp [Song.record, push, Sheet.push, Event.note?, h.notes]
    · simp [Song.record, push, Sheet.push, h.ids, List.range_succ]
    · have ht := h.tracks.modifyTrack (f := fun t =>
        t.push ⟨s.fresh, name, start, duration, location⟩) (fun t => rfl) track
      rwa [← tracks_push] at ht
  | clef track beat sign =>
    have ht := h.tracks.modifyTrack (f := fun t => { t with clefs := t.clefs ++ [(beat, sign)] })
      (fun t => (List.append_nil t.notes).symm) track
    exact ⟨by simpa [Song.record, Event.note?] using h.notes, by simpa [Song.record] using h.ids, ht⟩
  | _ =>
    simp only [Event.note?, Option.map_none, Option.toList_none, List.append_nil]
    exact ⟨h.notes, h.ids, h.tracks⟩

/-- The song of events keeps their notes. -/
theorem keeps_ofEvents (events : List (Event α)) : (ofEvents events).Keeps (notesOf events) := by
  induction events using List.reverseRecOn with
  | nil => exact keeps_empty
  | append_singleton events e ih =>
    rw [ofEvents_concat, notesOf_concat]
    exact ih.record e

theorem lt_nextTrack {s : Song α} {number : Int} (h : number ∈ s.tracks.map Prod.fst) :
    number < s.nextTrack := by
  rw [nextTrack]
  cases hs : s.tracks.map Prod.fst with
  | nil =>
    rw [hs] at h
    cases h
  | cons n rest =>
    rw [hs] at h
    have hmax : (n :: rest).max? = some (rest.foldl max n) := List.max?_cons'
    have hle := (List.max?_eq_some_iff.mp hmax).2 number h
    dsimp only
    omega

/-- Notes added in a new track are pushed to it, one after the other. -/
theorem Keeps.addTrack {s : Song α} {pushes : List (Int × Note α)} (h : s.Keeps pushes)
    {notes : List (Note α)}
    (hids : notes.map Note.id = (List.range notes.length).map (s.fresh + ·)) :
    (Accompaniment.addTrack s notes).Keeps (pushes ++ notes.map fun n => (s.nextTrack, n)) := by
  have hn : s.nextTrack ∉ s.tracks.map Prod.fst := fun hn => absurd (lt_nextTrack hn) (by omega)
  refine ⟨?_, ?_, ?_⟩
  · simp [Accompaniment.addTrack, h.notes, Function.comp_def]
  · simp [Accompaniment.addTrack, h.ids, hids, List.range_add]
  · have ht := h.tracks.modifyTrack (f := fun t =>
      { t with notes := t.notes ++ notes, name := some Accompaniment.trackName }) (fun t => rfl)
      s.nextTrack
    rw [modifyTrack_of_not_mem hn] at ht
    exact ht

end LeadSheet.Song
