import LeadSheet.Proofs.Arrangement.Stages
import LeadSheet.Proofs.Song.Tracks
import Mathlib.Data.List.Forall2

/-!
The notes of an arrangement and their tracks. What is written comes first, in the order of the text,
and belongs to the track that was set where it stands; what is generated follows, in a track of its
own.
-/
namespace LeadSheet
variable {α : Type}

/-- The note that is made at a stop. It belongs to the track of the cursor. -/
def Stop.Makes (s : Stop α) (n : Note α) : Prop :=
  s.events = [.note s.front.track n.name n.start n.duration n.location]

/-- A note that stands where a note command of the text does. -/
def Note.ComesFrom (n : Note α) (command : Command) : Prop :=
  ∃ name mark timing span, command = .note name mark timing (some (.span span)) ∧
    n.location = some (.span span)

private theorem forall₂_mapIdx {β γ δ : Type} {R : β → γ → Prop} {S : β → δ → Prop}
    {f : Nat → γ → δ}
    (hf : ∀ i b c, R b c → S b (f i c)) {bs : List β} {cs : List γ} (h : List.Forall₂ R bs cs) :
    List.Forall₂ S bs (cs.mapIdx f) := by
  induction h generalizing f with
  | nil => exact .nil
  | cons hbc _ ih =>
    rw [List.mapIdx_cons]
    exact .cons (hf 0 _ _ hbc) (ih fun i b c => hf (i + 1) b c)

namespace Cursor.Run
variable [Timebase α] {c e : Cursor} {commands : List Command} {stops : List (Stop α)}

private theorem filterMap_note?_of_step {s : Stop α}
    (h : s.front.step s.command = .ok (s.behind, s.events)) :
    (s.command.isNote = false ∧ s.events.filterMap Event.note? = []) ∨
      s.command.isNote = true ∧ ∃ note : Nat → Note α,
        s.events.filterMap Event.note? = [(s.front.track, note)] ∧ ∀ i, s.Makes (note i) := by
  have ht := tells_of_step h
  cases hc : s.command with
  | note name mark timing location =>
    rw [hc] at ht
    obtain ⟨name, start, duration, location, he⟩ := ht
    refine .inr ⟨rfl, fun i => ⟨i, name, start, duration, location⟩, ?_, fun i => he⟩
    rw [he]
    rfl
  | chord name =>
    rw [hc] at ht
    rcases ht with he | ⟨b, symbol, -, he⟩
    · exact .inl ⟨rfl, he ▸ rfl⟩
    · exact .inl ⟨rfl, he ▸ rfl⟩
  | clef | keySignature | timeSignature | remark =>
    rw [hc] at ht
    obtain ⟨b, -, he⟩ := ht
    exact .inl ⟨rfl, he ▸ rfl⟩
  | _ =>
    rw [hc] at ht
    have he : s.events = _ := ht
    exact .inl ⟨rfl, he ▸ rfl⟩

/-- The notes of a run are made where it stops at notes, one at each and in this order. -/
theorem forall₂_notesOf (h : Run c commands stops e) :
    List.Forall₂ (fun stop push => push.1 = stop.front.track ∧ stop.Makes push.2)
      (stops.filter fun stop => stop.command.isNote) (Song.notesOf (stops.flatMap Stop.events)) := by
  have hmade : List.Forall₂ (fun stop made => made.1 = stop.front.track ∧ ∀ i, stop.Makes (made.2 i))
      (stops.filter fun stop => stop.command.isNote)
      ((stops.flatMap Stop.events).filterMap Event.note?) := by
    have hstep : ∀ stop ∈ stops, stop.front.step stop.command = .ok (stop.behind, stop.events) :=
      fun _ => h.step_of_mem
    clear h
    induction stops with
    | nil => exact .nil
    | cons stop stops ih =>
      obtain ⟨hs, hstep⟩ := List.forall_mem_cons.mp hstep
      rw [List.flatMap_cons, List.filterMap_append]
      rcases filterMap_note?_of_step hs with ⟨hn, he⟩ | ⟨hn, note, he, hm⟩
      · rw [List.filter_cons_of_neg (by simp [hn]), he]
        exact ih hstep
      · rw [List.filter_cons_of_pos (by simpa using hn), he]
        exact .cons ⟨rfl, hm⟩ (ih hstep)
  exact forall₂_mapIdx (fun i stop made hm => ⟨hm.1, hm.2 i⟩) hmade

theorem map_command_notes (h : Run c commands stops e) :
    (stops.filter fun stop => stop.command.isNote).map Stop.command =
      (Command.leavesIn commands).filter Command.isNote := by
  rw [← h.map_command, List.filter_map]
  rfl

end Cursor.Run

private theorem Stop.comesFrom_of_makes [Timebase α] {s : Stop α}
    (h : s.front.step s.command = .ok (s.behind, s.events)) (hw : s.command.Written)
    (hn : s.command.isNote = true) {note : Note α} (hm : s.Makes note) :
    note.ComesFrom s.command := by
  cases hc : s.command with
  | note name mark timing location =>
    rw [hc] at h hw
    cases hw with
    | note _ _ span _ =>
    obtain ⟨_, _, _, _, _, _, _, place, -, -, -, -, -, -, hp, -, he⟩ := Cursor.note_eq_ok h
    obtain rfl : some (Location.span span) = place := Except.ok.inj hp
    refine ⟨name, mark, timing, span, rfl, ?_⟩
    rw [Stop.Makes, he] at hm
    exact (Event.note.inj (List.head_eq_of_cons_eq hm)).2.2.2.2.symm
  | _ =>
    rw [hc] at hn
    cases hn

/-- The notes that the walk through a text makes come from its note commands, one from each. -/
theorem Cursor.Run.forall₂_comesFrom [Timebase α] {c e : Cursor} {commands : List Command}
    {stops : List (Stop α)} (h : Run c commands stops e)
    (hw : ∀ leaf ∈ Command.leavesIn commands, leaf.Written) :
    List.Forall₂ (fun command push => push.2.ComesFrom command)
      ((Command.leavesIn commands).filter Command.isNote)
      (Song.notesOf (stops.flatMap Stop.events)) := by
  have hmem : ∀ stop ∈ stops.filter fun stop => stop.command.isNote,
      stop ∈ stops ∧ stop.command.isNote = true := fun _ => List.mem_filter.mp
  rw [← h.map_command_notes, List.forall₂_map_left_iff]
  refine ((List.forall₂_and_left _ _).mpr ⟨hmem, h.forall₂_notesOf⟩).imp ?_
  rintro stop push ⟨⟨hs, hn⟩, -, hm⟩
  exact Stop.comesFrom_of_makes (h.step_of_mem hs) (hw _ (h.leaf_of_mem hs)) hn hm

private theorem Accompaniment.ids_notes [Timebase α] {song : Song α} {strategy : Strategy}
    {settings : Settings} {blocks : List (ChordBlock α ChordSymbol)} {new : List (Note α)}
    (h : notes song strategy settings blocks = .ok new) :
    new.map Note.id = (List.range new.length).map (song.fresh + ·) := by
  obtain ⟨played, -, h⟩ := Except.bind_eq_ok_iff.mp h
  obtain rfl := Except.pure_eq_ok_iff.mp h
  apply List.ext_getElem
  · simp
  · intro i _ _
    simp

namespace Arrangement
variable [Timebase α]

/-- Without an accompaniment, the notes of a song come from the note commands of its text, one from
each. -/
theorem comesFrom_of_off {text : String} {commands : List Command} (h : parse text = .ok commands)
    {options : ArrangementOptions} (hoff : options.accompaniment = .off) {song : Song α}
    (hsong : (ofText text options : Arrangement α).result = .ok song) :
    List.Forall₂ (fun command note => note.ComesFrom command)
      ((Command.leavesIn commands).filter Command.isNote) song.sheet.notes := by
  obtain ⟨commands', octave, plain, hp, -, hplain, hsong⟩ := result_ofText hsong
  obtain rfl : commands' = commands := Except.ok.inj (hp.symm.trans h)
  obtain ⟨stops, last, metadata, timeSignatures, hrun, -, -, rfl⟩ := plainSong_eq_ok hplain
  rcases accompanied_eq_ok hsong with rfl | ⟨hother, -⟩
  · exact List.forall₂_map_right_iff.mpr (hrun.forall₂_comesFrom (Command.written_of_parse h))
  · exact absurd hoff hother

/-- The song of a text is kept in tracks: the notes that are written in the tracks that are set
where they stand, generated ones in a further track. Every note stands in one track, in the order of
the pushes. Without an accompaniment there is one note for each note command, at any depth. -/
theorem ofText_tracks {text : String} {options : ArrangementOptions} {song : Song α}
    (h : (ofText text options : Arrangement α).result = .ok song) :
    ∃ (commands : List Command) (octave : Int) (stops : List (Stop α)) (last : Cursor)
      (written generated : List (Int × Note α)),
      parse text = .ok commands ∧ options.defaultOctave.toInt = .ok octave ∧
      Cursor.Run (.initial octave) commands stops last ∧
      song.sheet.notes = (written ++ generated).map Prod.snd ∧
      List.Forall₂ (fun stop push => push.1 = stop.front.track ∧ stop.Makes push.2)
        (stops.filter fun stop => stop.command.isNote) written ∧
      (∃ number, (∀ push ∈ generated, push.1 = number) ∧ ∀ push ∈ written, push.1 < number) ∧
      (song.sheet.notes.map Note.id).Nodup ∧
      (∀ note ∈ song.sheet.notes, ∃! track, track ∈ song.tracks ∧ note ∈ track.2.notes) ∧
      (∀ track ∈ song.tracks, track.2.notes =
        ((written ++ generated).filter fun push => push.1 = track.1).map Prod.snd) ∧
      (song.tracks.map fun track => track.2.notes.length).sum = song.sheet.notes.length ∧
      (options.accompaniment = .off →
        song.sheet.notes.length = ((Command.leavesIn commands).filter Command.isNote).length ∧
        List.Forall₂ (fun command note => note.ComesFrom command)
          ((Command.leavesIn commands).filter Command.isNote) song.sheet.notes) := by
  obtain ⟨commands, octave, plain, hp, ho, hplain, hsong⟩ := result_ofText h
  obtain ⟨stops, last, metadata, timeSignatures, hrun, -, -, hplain⟩ := plainSong_eq_ok hplain
  have hnotes := hrun.forall₂_notesOf
  have hkeeps := Song.keeps_ofEvents (stops.flatMap Stop.events)
  generalize Song.notesOf (stops.flatMap Stop.events) = written at hnotes hkeeps
  have hplainkeeps : plain.Keeps written := by
    rw [hplain]
    exact ⟨hkeeps.notes, hkeeps.ids, hkeeps.tracks⟩
  -- what the accompaniment adds is pushed as well
  have hall : ∃ generated, song.Keeps (written ++ generated) ∧
      ∃ number, (∀ push ∈ generated, push.1 = number) ∧ ∀ push ∈ written, push.1 < number := by
    have hlt : ∀ push ∈ written, push.1 < plain.nextTrack := fun push hpush =>
      Song.lt_nextTrack (hplainkeeps.tracks.housed push hpush)
    rcases accompanied_eq_ok hsong with rfl | ⟨-, strategy, settings, new, hnew, rfl⟩
    · refine ⟨[], (List.append_nil written).symm ▸ hplainkeeps, _, ?_, hlt⟩
      exact fun push hpush => (List.not_mem_nil hpush).elim
    · refine ⟨_, hplainkeeps.addTrack (Accompaniment.ids_notes hnew), _, ?_, hlt⟩
      intro push hpush
      obtain ⟨note, -, rfl⟩ := List.mem_map.mp hpush
      rfl
  obtain ⟨generated, hk, hnumber⟩ := hall
  refine ⟨commands, octave, stops, last, written, generated, hp, ho, hrun, hk.notes, hnotes, hnumber,
    hk.nodup, ?_, hk.tracks.notes, ?_, ?_⟩
  · intro note hnote
    exact hk.tracks.existsUnique (hk.notes ▸ hk.nodup) (hk.notes ▸ hnote)
  · rw [hk.tracks.sum_length, hk.notes, List.length_map]
  · intro hoff
    have hfrom := comesFrom_of_off hp hoff h
    exact ⟨hfrom.length_eq.symm, hfrom⟩

theorem ofText_tracks_voices :
    ∃ song, (ofText "c4 \x7bt2 /f d4\x7d e4" ⟨.whole 4, .off, .none⟩ : Arrangement Number).result =
        .ok song ∧
      (song.tracks.map fun track => track.2.notes.length).sum = song.sheet.notes.length := by
  obtain ⟨song, h⟩ : ∃ song, (ofText "c4 \x7bt2 /f d4\x7d e4" ⟨.whole 4, .off, .none⟩ :
      Arrangement Number).result = .ok song := Except.exists_eq_ok (by decide +kernel)
  obtain ⟨_, _, _, _, _, _, -, -, -, -, -, -, -, -, -, hsum, -⟩ := ofText_tracks h
  exact ⟨song, h, hsum⟩

end Arrangement
end LeadSheet
