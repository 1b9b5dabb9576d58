import LeadSheet.Proofs.Arrangement.Tracks
import LeadSheet.Proofs.Markup.Span
import LeadSheet.Song.Extent

/-!
Notes in a selection of the text. The notes of a song that has no accompaniment stand in the text one
behind the other, so that those which touch a selection follow each other.
-/
namespace LeadSheet
variable {α : Type}

/-! ### What touches a selection -/

private theorem Span.touches_iff {span : Span} {start stop : Int} :
    span.touches (.whole start) (.whole stop) = true ↔ start ≤ span.stop ∧ span.start ≤ stop := by
  simp [touches, Number.le, Number.place, Number.exact]

/-- If the members of a list that a condition holds for come first, they have the first places. -/
theorem exists_range'_of_first {β : Type} {p : β → Bool} {xs : List β}
    (h : xs.Pairwise fun x y => p y = true → p x = true) (k : Nat) :
    ∃ count, ((xs.zipIdx k).filter fun entry => p entry.1).map Prod.snd = List.range' k count := by
  induction xs generalizing k with
  | nil => exact ⟨0, rfl⟩
  | cons x xs ih =>
    obtain ⟨hx, hxs⟩ := List.pairwise_cons.mp h
    rw [List.zipIdx_cons]
    cases hp : p x with
    | true =>
      obtain ⟨count, hc⟩ := ih hxs (k + 1)
      refine ⟨count + 1, ?_⟩
      rw [List.filter_cons_of_pos (by exact hp), List.map_cons, hc, List.range'_succ]
    | false =>
      refine ⟨0, ?_⟩
      rw [List.filter_eq_nil_iff.mpr]
      · rfl
      · intro entry he
        rcases List.mem_cons.mp he with rfl | he
        · simp [hp]
        · intro hentry
          rw [hx _ (List.fst_mem_of_mem_zipIdx he) hentry] at hp
          cases hp

/-- Spans one behind the other that touch a selection have places that follow each other. -/
theorem exists_range'_of_touches {spans : List Span} (hs : ∀ span ∈ spans, span.start < span.stop)
    (hp : spans.Pairwise fun a b => a.stop < b.start) (start stop : Int) (k : Nat) :
    ∃ first count, ((spans.zipIdx k).filter fun entry =>
      entry.1.touches (.whole start) (.whole stop)).map Prod.snd = List.range' first count := by
  induction spans generalizing k with
  | nil => exact ⟨k, 0, rfl⟩
  | cons span spans ih =>
    obtain ⟨hspan, htail⟩ := List.forall_mem_cons.mp hs
    by_cases h : start ≤ span.stop
    · -- from here on all spans end behind the start of the selection
      have hends : ∀ other ∈ span :: spans, start ≤ other.stop := by
        refine List.forall_mem_cons.mpr ⟨h, fun other ho => ?_⟩
        have hb := (List.pairwise_cons.mp hp).1 other ho
        have ho := htail other ho
        omega
      have hfirst : (span :: spans).Pairwise fun a b =>
          b.touches (.whole start) (.whole stop) = true →
            a.touches (.whole start) (.whole stop) = true := by
        refine hp.imp_of_mem fun {a b} ha hb hab htouches => ?_
        have hstart := hs a ha
        have hstop := (Span.touches_iff.mp htouches).2
        exact Span.touches_iff.mpr ⟨hends a ha, by omega⟩
      obtain ⟨count, hc⟩ := exists_range'_of_first hfirst k
      exact ⟨k, count, hc⟩
    · obtain ⟨first, count, hc⟩ := ih htail hp.of_cons (k + 1)
      refine ⟨first, count, ?_⟩
      rw [List.zipIdx_cons, List.filter_cons_of_neg, hc]
      exact fun ht => h (Span.touches_iff.mp ht).1

namespace Sheet

private theorem locations_of_spans {s : Sheet α} {spans : List Span}
    (h : s.notes.map Note.location = spans.map fun span => some (.span span)) :
    s.locations = spans.zipIdx.map fun entry => (.span entry.1, entry.2) := by
  have hl : s.locations = (s.notes.map Note.location).zipIdx.filterMap fun entry =>
      (entry.1.filter fun location => location.toDatum.holds).map fun location =>
        (location, entry.2) := by
    rw [List.zipIdx_map, List.filterMap_map]
    rfl
  rw [hl, h, List.zipIdx_map, List.filterMap_map]
  exact List.filterMap_eq_map_iff_forall_eq_some.mpr fun _ _ => rfl

/-- Notes that stand one behind the other are selected without gaps. -/
theorem notesForSelection_of_spans {s : Sheet α} {spans : List Span}
    (h : s.notes.map Note.location = spans.map fun span => some (.span span))
    (hs : ∀ span ∈ spans, span.start < span.stop)
    (hp : spans.Pairwise fun a b => a.stop < b.start) (start stop : Int) :
    ∃ first count,
      s.notesForSelection (.whole start) (.whole stop) = .ok (List.range' first count) := by
  obtain ⟨first, count, hc⟩ := exists_range'_of_touches hs hp start stop 0
  have htouched : s.locations.filterM
      (fun entry => entry.1.touches (.whole start) (.whole stop)) = .ok
        ((spans.zipIdx.filter fun entry => entry.1.touches (.whole start) (.whole stop)).map
          fun entry => (.span entry.1, entry.2)) := by
    have hspans : spans.zipIdx.filterM (m := Except Failure)
        (fun entry => .ok (entry.1.touches (.whole start) (.whole stop))) =
          .ok (spans.zipIdx.filter fun entry => entry.1.touches (.whole start) (.whole stop)) :=
      Except.filterM_eq_ok fun _ _ => rfl
    have hmap : (spans.zipIdx.map fun entry => (Location.span entry.1, entry.2)).filterM
        (fun entry => entry.1.touches (.whole start) (.whole stop)) = _ :=
      Except.filterM_map (fun _ => rfl) spans.zipIdx
    rw [locations_of_spans h, hmap]
    exact congrArg (Except.map _) hspans
  refine ⟨first, count, ?_⟩
  rw [← hc, notesForSelection]
  exact Except.bind_eq_ok_iff.mpr ⟨_, htouched, congrArg Except.ok List.map_map⟩

end Sheet

/-! ### Songs without an accompaniment -/

namespace Arrangement
open Command (leavesIn isNote RereadAt)

private theorem location_of_comesFrom {text : String} {command : Command} {span : Span}
    {note : Note α}
    (hr : RereadAt text command span) (hn : note.ComesFrom command) :
    note.location = some (.span span) := by
  obtain ⟨name, mark, timing, other, rfl, hl⟩ := hn
  cases hr
  exact hl

private theorem locations_of_comesFrom {text : String} {commands : List Command} {spans : List Span}
    {notes : List (Note α)} (hr : List.Forall₂ (RereadAt text) commands spans)
    (hn : List.Forall₂ (fun command note => note.ComesFrom command) commands notes) :
    notes.map Note.location = spans.map fun span => some (.span span) := by
  induction hr generalizing notes with
  | nil =>
    cases hn
    rfl
  | cons hread _ ih =>
    cases hn with
    | cons hfrom hn => rw [List.map_cons, List.map_cons, location_of_comesFrom hread hfrom, ih hn]

variable [Timebase α]

/-- The notes of a text have spans that lie one behind the other, from which they are read again. A
song that has no accompaniment has a note for each of them with its span for a location, and the
notes that touch a selection of the text follow each other. -/
theorem ofText_selection {text : String} {commands : List Command}
    (h : parse text = .ok commands) :
    ∃ spans : List Span, List.Forall₂ (RereadAt text) ((leavesIn commands).filter isNote) spans ∧
      (∀ span ∈ spans, 0 ≤ span.start ∧ span.start < span.stop ∧ span.stop ≤ text.length) ∧
      (spans.Pairwise fun a b => a.stop < b.start) ∧
      ∀ (options : ArrangementOptions) (song : Song α), options.accompaniment = .off →
        (ofText text options : Arrangement α).result = .ok song →
        (song.sheet.notes.map Note.location = spans.map fun span => some (.span span)) ∧
        ∀ start stop : Int, ∃ first count,
          song.sheet.notesForSelection (.whole start) (.whole stop) =
            .ok (List.range' first count) := by
  obtain ⟨spans, hread, hspans, hpairwise⟩ := exists_spans_of_parse h
  refine ⟨spans, hread, hspans, hpairwise, fun options song hoff hsong => ?_⟩
  have hl : song.sheet.notes.map Note.location = spans.map fun span => some (.span span) :=
    locations_of_comesFrom hread (comesFrom_of_off h hoff hsong)
  exact ⟨hl, Sheet.notesForSelection_of_spans hl (fun span hs => (hspans span hs).2.1) hpairwise⟩

theorem ofText_selection_voices :
    ∃ (commands : List Command) (spans : List Span) (song : Song Number),
      parse "c4 \x7bt2 d+4/2@0 | e5.\x7d" = .ok commands ∧
      spans.Pairwise (fun a b => a.stop < b.start) ∧
      (ofText "c4 \x7bt2 d+4/2@0 | e5.\x7d" ⟨.whole 4, .off, .none⟩ : Arrangement Number).result =
        .ok song ∧
      (song.sheet.notes.map Note.location = spans.map fun span => some (.span span)) ∧
      ∃ first count, song.sheet.notesForSelection (.whole 9) (.whole 19) =
        .ok (List.range' first count) := by
  obtain ⟨commands, h⟩ : ∃ commands, parse "c4 \x7bt2 d+4/2@0 | e5.\x7d" = .ok commands :=
    Except.exists_eq_ok (by decide +kernel)
  obtain ⟨song, hsong⟩ : ∃ song, (ofText "c4 \x7bt2 d+4/2@0 | e5.\x7d" ⟨.whole 4, .off, .none⟩ :
      Arrangement Number).result = .ok song := Except.exists_eq_ok (by decide +kernel)
  obtain ⟨spans, -, -, hpairwise, hsongs⟩ := ofText_selection (α := Number) h
  obtain ⟨hl, hselection⟩ := hsongs ⟨.whole 4, .off, .none⟩ song rfl hsong
  exact ⟨commands, spans, song, h, hpairwise, hsong, hl, hselection 9 19⟩

end Arrangement
end LeadSheet
