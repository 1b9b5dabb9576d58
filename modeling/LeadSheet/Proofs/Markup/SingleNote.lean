import LeadSheet.Proofs.Markup.Span
import LeadSheet.Proofs.Pitch.Spelling

/-!
Texts of a single note. A note is one run of word characters, and has the form of no other word. So
the reader of single notes and the reader of whole texts find the same note in such a text.
-/
namespace LeadSheet

/-! ### The characters of a note -/

namespace WrittenTiming

private theorem isTail_of_readScaling {cs rest : List Char} {scaling : Option (Scaling × Nat)}
    (h : readScaling cs = some (scaling, rest)) (hrest : ∀ c ∈ rest, Word.isTail c = true) :
    ∀ c ∈ cs, Word.isTail c = true := by
  cases cs with
  | nil => exact fun _ hc => (List.not_mem_nil hc).elim
  | cons c cs =>
    rw [readScaling] at h
    split at h
    · cases h
      exact hrest
    · next s hs =>
      have hsign : Word.isTail c = true := by
        unfold Scaling.ofChar? at hs
        split at hs
        · decide
        · decide
        · cases hs
      dsimp only at h
      split at h
      · cases h
        have hspan : (spanDigits cs).1 ++ (spanDigits cs).2 = cs := by
          rw [spanDigits, List.span_eq_takeWhile_dropWhile]
          exact List.takeWhile_append_dropWhile
        rw [← hspan]
        refine List.forall_mem_cons.mpr ⟨hsign, List.forall_mem_append.mpr ⟨fun c hc => ?_, hrest⟩⟩
        rw [Word.isTail, mem_spanDigits hc, Bool.true_or]
      · cases h

private theorem isTail_of_readStart {cs : List Char} {start : Option Nat}
    (h : readStart cs = some start) : ∀ c ∈ cs, Word.isTail c = true := by
  rw [readStart.eq_def] at h
  split at h
  · exact fun _ hc => (List.not_mem_nil hc).elim
  · split at h
    · next digits hd =>
      refine List.forall_mem_cons.mpr ⟨by decide, fun c hc => ?_⟩
      rw [Word.isTail, List.all_eq_true.mp ((Bool.and_eq_true ..).mp hd).2 c hc, Bool.true_or]
    · cases h
  · cases h

private theorem isTail_of_read? {cs : List Char} {t : WrittenTiming} (h : read? cs = some t) :
    ∀ c ∈ cs, Word.isTail c = true := by
  obtain ⟨⟨scaling, rest⟩, hs, h⟩ := Option.bind_eq_some_iff.mp h
  obtain ⟨start, hstart, -⟩ := Option.bind_eq_some_iff.mp h
  have hbehind : readStart (rest.span (· = '.')).2 = some start := hstart
  rw [List.span_eq_takeWhile_dropWhile] at hbehind
  refine isTail_of_readScaling hs ?_
  rw [← List.takeWhile_append_dropWhile (p := (· = '.')) (l := rest)]
  refine List.forall_mem_append.mpr ⟨fun c hc => ?_, isTail_of_readStart hbehind⟩
  have hdot := List.mem_takeWhile_imp hc
  rw [of_decide_eq_true hdot]
  decide

end WrittenTiming

namespace WrittenNote

private theorem isTail_of_readOctave {cs : List Char} (hrest : ∀ c ∈ (readOctave cs).2, Word.isTail c = true) :
    ∀ c ∈ cs, Word.isTail c = true := by
  cases cs with
  | nil => exact fun _ hc => (List.not_mem_nil hc).elim
  | cons c cs =>
    rw [readOctave] at hrest
    split at hrest
    · next hc => exact List.forall_mem_cons.mpr ⟨by rw [Word.isTail, hc, Bool.true_or], hrest⟩
    · exact hrest

private theorem isTail_of_readMark {cs : List Char}
    (hrest : ∀ c ∈ (readMark cs).2, Word.isTail c = true) :
    ∀ c ∈ cs, Word.isTail c = true := by
  cases cs with
  | nil => exact fun _ hc => (List.not_mem_nil hc).elim
  | cons c cs =>
    rw [readMark] at hrest
    split at hrest
    · next mark hmark =>
      have hsign : Word.isTail c = true := by
        unfold Mark.ofChar? at hmark
        split at hmark
        · decide
        · decide
        · decide
        · cases hmark
      exact List.forall_mem_cons.mpr ⟨hsign, hrest⟩
    · exact hrest

/-- The letter of a note is small or capital. -/
theorem eq_of_ofChar?_toUpper {c : Char} {letter : Letter}
    (h : Letter.ofChar? c.toUpper = some letter) :
    c = letter.toChar ∨ c = letter.toChar.toLower := by
  have hsmall : ∀ i : Fin 26, Letter.ofChar? (Char.ofNat (97 + i)).toUpper = some letter →
      Char.ofNat (97 + i) = letter.toChar.toLower := by
    cases letter <;> decide
  by_cases hc : 97 ≤ c.toNat ∧ c.toNat ≤ 122
  · have hi := hsmall ⟨c.toNat - 97, by omega⟩
    have hcode : Char.ofNat (97 + (c.toNat - 97)) = c := by
      rw [Nat.add_sub_cancel' hc.1, Char.ofNat_toNat]
    dsimp only at hi
    rw [hcode] at hi
    exact .inr (hi h)
  · have hupper : c.toUpper = c := dif_neg hc
    rw [hupper] at h
    exact .inl (NoteName.toChar_of_ofChar? h).symm

/-- What is written as a note is one run of word characters. -/
theorem endsWord_of_read? {cs : List Char} {n : WrittenNote} (h : read? cs = some n) :
    ∀ c ∈ cs, Reading.endsWord c = false := by
  cases cs with
  | nil => cases h
  | cons c cs =>
    have hletter : Reading.endsWord c = false := by
      obtain rfl | rfl := eq_of_ofChar?_toUpper (ofChar?_of_read? h)
      · cases n.letter <;> decide
      · cases n.letter <;> decide
    obtain ⟨letter, -, h⟩ := Option.bind_eq_some_iff.mp h
    obtain ⟨timing, ht, -⟩ := Option.bind_eq_some_iff.mp h
    exact List.forall_mem_cons.mpr ⟨hletter, fun c hc => Word.endsWord_of_isTail
      (isTail_of_readMark (isTail_of_readOctave (WrittenTiming.isTail_of_read? ht)) c hc)⟩

end WrittenNote

/-! ### Texts of one word -/

theorem SingleNote.eq_or_eq_append (cs : List Char) :
    cs = dropFinalNewline cs ∨ cs = dropFinalNewline cs ++ ['\n'] := by
  rw [dropFinalNewline]
  split
  · next h => exact .inr (List.dropLast_append_getLast? '\n' h).symm
  · exact .inl rfl

namespace Reading

/-- A text of one word, and of the line feed that may end it, has this word as its only lexeme. -/
theorem read_word {cs : List Char} {word : Word} (hw : Word.read? cs = some word) (hn : cs ≠ [])
    (h : ∀ c ∈ cs, endsWord c = false) {text : String}
    (ht : text.toList = cs ∨ text.toList = cs ++ ['\n']) :
    (Document.read text).fields = [] ∧ (Document.read text).lexemes = [⟨0, cs, .word word⟩] := by
  have hreaches : (cs.foldl Reader.feed (Reader.behind 0 0 [])).Reaches (0 + cs.length) 0
      [⟨0, cs, .word word⟩] := Reader.reaches_word hn h hw
  have hfields : fields text.toList = ([], text.toList) := by
    obtain ⟨c, tail, rfl⟩ := List.exists_cons_of_ne_nil hn
    obtain ⟨tail, ht⟩ : ∃ tail, text.toList = c :: tail := by
      obtain ht | ht := ht
      · exact ⟨_, ht⟩
      · exact ⟨_, ht⟩
    have hc := h c (List.mem_cons_self ..)
    rw [endsWord, Bool.or_eq_false_iff] at hc
    have hsign : c ≠ '#' := by
      rintro rfl
      exact absurd hc.2 (by decide)
    rw [ht]
    refine fields_cons_of_not_blank (field?_eq_none fun d hd => ?_) hc.1
    rwa [← Option.mem_some_iff.mp hd]
  have hfinish : (text.toList.foldl Reader.feed (Reader.behind 0 0 [])).finish.found =
      [⟨0, cs, .word word⟩] := by
    obtain ht | ht := ht
    · rw [ht, hreaches.finish_eq]
      rfl
    · rw [ht, List.foldl_append, List.foldl_cons, List.foldl_nil,
        hreaches.feed_eq (by decide), Reader.feed_blank (by decide)]
      rfl
  rw [Document.read, hfields]
  refine ⟨rfl, ?_⟩
  dsimp only
  rw [Nat.sub_self, lexemes]
  exact congrArg List.reverse hfinish

end Reading

/-! ### Single notes -/

namespace SingleNote

/-- What a text that is read as a single note is written with. -/
theorem exists_written_of_ofText? {text : String} {note : SingleNote} (h : ofText? text = some note) :
    ∃ (n : WrittenNote) (timing : Timing),
      WrittenNote.read? (dropFinalNewline text.toList) = some n ∧
      Timing.ofWritten? n.timing = some timing ∧
      note = ⟨String.ofList [n.letter.toChar], n.mark.map fun mark => String.ofList [mark.toChar],
        n.octave.map fun octave => .text (toString octave), timing⟩ := by
  obtain ⟨n, hn, h⟩ := Option.bind_eq_some_iff.mp h
  obtain ⟨timing, ht, h⟩ := Option.bind_eq_some_iff.mp h
  exact ⟨n, timing, hn, ht, (Option.some.inj h).symm⟩

/-- The command of a text of a single note. -/
theorem parse_of_written {text : String} {n : WrittenNote} {timing : Timing}
    (hn : WrittenNote.read? (dropFinalNewline text.toList) = some n)
    (ht : Timing.ofWritten? n.timing = some timing) :
    parse text = .ok
      [.note (String.ofList (n.letter.toChar :: (n.octave.map (Nat.toDigits 10)).getD [])) n.mark timing
        (some (.span ⟨0, (dropFinalNewline text.toList).length⟩))] := by
  have hne : dropFinalNewline text.toList ≠ [] := by
    intro hnil
    rw [hnil] at hn
    cases hn
  obtain ⟨hfields, hlexemes⟩ := Reading.read_word (Word.read?_of_writtenNote hn) hne
    (WrittenNote.endsWord_of_read? hn) (eq_or_eq_append text.toList)
  have houtline := Outline.take_of_command (o := .empty)
    (l := ⟨0, dropFinalNewline text.toList, .word (.note n)⟩) rfl (Command.ofWord_note ht _ _ _)
  refine parse_eq_ok_iff.mpr ?_
  rw [hfields, hlexemes, List.foldl_cons, List.foldl_nil, houtline]
  refine ⟨⟨rfl, rfl⟩, rfl, ?_⟩
  rw [Located.stop, Nat.zero_add]
  rfl

/-- A note that a text consists of is read from the text. -/
theorem ofText?_of_parse {text : String} {name : String} {mark : Option Mark} {timing : Timing}
    (h : parse text = .ok [.note name mark timing (some (.span ⟨0, text.length⟩))]) :
    ∃ (letter : Letter) (octave : Option Nat),
      name = String.ofList (letter.toChar :: (octave.map (Nat.toDigits 10)).getD []) ∧
      ofText? text = some ⟨String.ofList [letter.toChar], mark.map fun mark => String.ofList [mark.toChar],
        octave.map fun octave => .text (toString octave), timing⟩ := by
  obtain ⟨spans, hspans, -⟩ := exists_spans_of_parse h
  have hnotes : (Command.leavesIn [.note name mark timing (some (.span ⟨0, text.length⟩))]).filter
      Command.isNote = [.note name mark timing (some (.span ⟨0, text.length⟩))] := rfl
  rw [hnotes] at hspans
  obtain ⟨span, rest, hread, -, rfl⟩ := List.forall₂_cons_left_iff.mp hspans
  have hslice : (Span.slice ⟨0, text.length⟩ text) = text := by
    rw [Span.slice]
    dsimp only
    rw [Int.toNat_natCast, ← String.length_toList, List.take_length]
    exact String.ofList_toList
  obtain ⟨hread⟩ := hread
  rw [hslice] at hread
  exact ⟨_, _, rfl, hread⟩

/-- A text without a line feed at its end is read as a single note exactly if it consists of one
note, from the first character to the last; and then both readers find the same note. -/
theorem ofText_iff_parse {text : String} (h : text.toList.getLast? ≠ some '\n') :
    ((ofText? text).isSome = true ↔ ∃ name mark timing,
      parse text = .ok [.note name mark timing (some (.span ⟨0, text.length⟩))]) ∧
    ∀ note name mark timing, ofText? text = some note →
      parse text = .ok [.note name mark timing (some (.span ⟨0, text.length⟩))] →
        name = note.name ++ (note.octave.map Datum.display).getD "" ∧
        note.accidental = mark.map (fun mark => String.ofList [mark.toChar]) ∧
        timing = note.timing := by
  refine ⟨⟨fun hsome => ?_, ?_⟩, ?_⟩
  · obtain ⟨note, hnote⟩ := Option.isSome_iff_exists.mp hsome
    obtain ⟨n, timing, hn, ht, -⟩ := exists_written_of_ofText? hnote
    have hparse := parse_of_written hn ht
    rw [dropFinalNewline, if_neg h, String.length_toList] at hparse
    exact ⟨_, _, _, hparse⟩
  · rintro ⟨name, mark, timing, hparse⟩
    obtain ⟨letter, octave, -, hnote⟩ := ofText?_of_parse hparse
    rw [hnote]
    rfl
  · intro note name mark timing hnote hparse
    obtain ⟨letter, octave, rfl, hread⟩ := ofText?_of_parse hparse
    cases hnote.symm.trans hread
    refine ⟨?_, rfl, rfl⟩
    cases octave with
    | none => exact (String.append_empty).symm
    | some octave =>
      change String.ofList (letter.toChar :: Nat.toDigits 10 octave) =
        String.ofList [letter.toChar] ++ toString octave
      rw [← String.toList_inj, String.toList_append, String.toList_ofList, String.toList_ofList,
        Nat.toString_eq_repr, Nat.toList_repr]
      rfl

theorem ofText_iff_parse_all_parts :
    "F+5/04..@12".toList.getLast? ≠ some '\n' ∧ (ofText? "F+5/04..@12").isSome = true ∧
      ∃ name mark timing, parse "F+5/04..@12" = .ok [.note name mark timing (some (.span ⟨0, 11⟩))] ∧
        name = "F5" ∧ timing = ⟨some (.ratio (1 / 4)), some 2, some (.whole 12)⟩ := by
  have hread : ofText? "F+5/04..@12" = some ⟨"F", some "+", some (.text "5"),
      some (.ratio (1 / 4)), some 2, some (.whole 12)⟩ := by rfl
  have hnewline : "F+5/04..@12".toList.getLast? ≠ some '\n' := by decide
  obtain ⟨hiff, hparts⟩ := ofText_iff_parse hnewline
  have hsome : (ofText? "F+5/04..@12").isSome = true := by rw [hread]; rfl
  obtain ⟨name, mark, timing, hparse⟩ := hiff.mp hsome
  obtain ⟨hname, -, htiming⟩ := hparts _ name mark timing hread hparse
  exact ⟨hnewline, hsome, name, mark, timing, hparse, hname, htiming⟩

end SingleNote
end LeadSheet
