import LeadSheet.Markup.SingleNote
import LeadSheet.Proofs.Markup.Leaf
import LeadSheet.Proofs.Markup.Place

/-!
The commands of a text and the lexemes they are made of. Every lexeme adds at most one command that
is no block, so that these commands stand in the order of the text. A note can be read again from the
characters that its location spans.
-/
namespace LeadSheet
open Command

/-- The characters of a text from the start of a span up to its end. -/
def Span.slice (span : Span) (text : String) : String :=
  String.ofList ((text.toList.take span.stop.toNat).drop span.start.toNat)

namespace Located

/-- The stretch of the text where a lexeme stands. -/
def span (l : Located) : Span := ⟨l.start, l.stop⟩

/-- The command that a lexeme adds, if it adds one that is no block. -/
def leaf? (l : Located) : Option Command :=
  match l.lexeme with
  | .word word => (ofWord l.start l.stop (String.ofList l.written) word).toOption
  | .chord name => some (.chord name)
  | .bar => some .backToStart
  | .quoted text _ _ => some (.remark (.text text))
  | .opening | .closing | .skipped => none

end Located

/-! ### From lexemes to commands -/

namespace Command

private theorem leavesIn_append (commands commands' : List Command) :
    leavesIn (commands ++ commands') = leavesIn commands ++ leavesIn commands' := by
  induction commands with
  | nil => rfl
  | cons command commands ih => rw [List.cons_append, leavesIn, leavesIn, ih, List.append_assoc]

private theorem leavesIn_concat (commands : List Command) (command : Command) :
    leavesIn (commands ++ [command]) = leavesIn commands ++ command.leaves := by
  rw [leavesIn_append, leavesIn, leavesIn, List.append_nil]

end Command

namespace Outline

/-- The commands in an outline that are no blocks, in the order of the text. -/
def leaves (o : Outline) : List Command :=
  o.enclosing.reverse.flatMap (fun commands => leavesIn commands.reverse) ++
    leavesIn o.commands.reverse

private theorem leaves_empty : Outline.empty.leaves = [] := rfl

private theorem leaves_add (o : Outline) (command : Command) :
    (o.add command).leaves = o.leaves ++ command.leaves := by
  rw [leaves, leaves, add, List.reverse_cons, leavesIn_concat, List.append_assoc]

private theorem leaves_openBlock (o : Outline) : o.openBlock.leaves = o.leaves := by
  rw [leaves, leaves, openBlock, List.reverse_cons, List.flatMap_append, List.flatMap_singleton]
  exact List.append_nil _

private theorem leaves_closeBlock (o : Outline) : o.closeBlock.leaves = o.leaves := by
  obtain ⟨commands, enclosing, fault, openQuote⟩ := o
  cases enclosing with
  | nil => rfl
  | cons outer enclosing =>
    rw [closeBlock, leaves, leaves]
    dsimp only
    rw [List.reverse_cons, List.reverse_cons, leavesIn_concat, List.flatMap_append,
      List.flatMap_singleton, List.append_assoc]
    rfl

private theorem leaves_take (o : Outline) (l : Located) :
    (o.take l).leaves = o.leaves ++ l.leaf?.toList := by
  rw [take, Located.leaf?]
  cases l.lexeme with
  | word word =>
    dsimp only
    cases hw : ofWord l.start l.stop (String.ofList l.written) word with
    | ok command =>
      rw [leaves_add, leaves_of_written (written_of_ofWord hw)]
      rfl
    | error fault => exact (List.append_nil _).symm
  | chord | bar => exact leaves_add o _
  | quoted text q closed =>
    cases closed
    · exact leaves_add o _
    · exact leaves_add o _
  | opening => exact (leaves_openBlock o).trans (List.append_nil _).symm
  | closing => exact (leaves_closeBlock o).trans (List.append_nil _).symm
  | skipped => exact (List.append_nil _).symm

private theorem leaves_foldl (o : Outline) (ls : List Located) :
    (ls.foldl take o).leaves = o.leaves ++ ls.filterMap Located.leaf? := by
  induction ls generalizing o with
  | nil => exact (List.append_nil _).symm
  | cons l ls ih =>
    rw [List.foldl_cons, ih, leaves_take, List.append_assoc]
    cases hl : l.leaf? with
    | none => rw [List.filterMap_cons_none hl]; rfl
    | some command => rw [List.filterMap_cons_some hl]; rfl

end Outline

/-- The commands of a text that are no blocks are its fields and what its lexemes add. -/
theorem leavesIn_of_parse {text : String} {commands : List Command}
    (h : parse text = .ok commands) :
    leavesIn commands =
      ((Document.read text).fields.map fun (key, value) => field (.text key) (.text value)) ++
        (Document.read text).lexemes.filterMap Located.leaf? := by
  obtain ⟨-, he, rfl⟩ := parse_eq_ok_iff.mp h
  have hl := Outline.leaves_foldl .empty (Document.read text).lexemes
  rw [Outline.leaves, he, Outline.leaves_empty, List.nil_append, List.reverse_nil, List.flatMap_nil,
    List.nil_append] at hl
  rw [leavesIn_append, hl]
  refine congrArg (· ++ _) ?_
  induction (Document.read text).fields with
  | nil => rfl
  | cons field fields ih => rw [List.map_cons, leavesIn, ih]; rfl

/-! ### Notes -/

/-- A note of a text with the span where it stands: the text there is that of a single note with the
same letter, accidental, octave and timing. -/
inductive Command.RereadAt (text : String) : Command → Span → Prop
  | note {span : Span} {letter : Letter} {mark : Option Mark} {octave : Option Nat} {timing : Timing}
      (h : SingleNote.ofText? (span.slice text) =
        some ⟨String.ofList [letter.toChar], mark.map fun mark => String.ofList [mark.toChar],
          octave.map fun octave => .text (toString octave), timing⟩) :
      RereadAt text
        (.note (String.ofList (letter.toChar :: (octave.map (Nat.toDigits 10)).getD [])) mark timing
          (some (.span span))) span

/-- No other word has the form of a note. -/
theorem Word.writtenNote_of_read? {cs : List Char} {n : WrittenNote}
    (h : read? cs = some (note n)) : WrittenNote.read? cs = some n := by
  rw [read?.eq_def] at h
  split at h
  case h_3 =>
    split at h
    · obtain ⟨_, -, h⟩ := Option.bind_eq_some_iff.mp h
      obtain ⟨_, -, h⟩ := Option.bind_eq_some_iff.mp h
      cases h
    · cases h
  case h_9 =>
    split at h
    · cases h
    · cases h
  case h_13 =>
    obtain ⟨_, hn, he⟩ := Option.map_eq_some_iff.mp h
    cases he
    exact hn
  all_goals
    obtain ⟨_, -, he⟩ := Option.map_eq_some_iff.mp h
    cases he

/-- The command of a note that divides nothing by zero. -/
theorem Command.ofWord_note {n : WrittenNote} {timing : Timing}
    (ht : Timing.ofWritten? n.timing = some timing) (start stop : Nat) (written : String) :
    ofWord start stop written (.note n) = .ok
      (.note (String.ofList (n.letter.toChar :: (n.octave.map (Nat.toDigits 10)).getD [])) n.mark timing
        (some (.span ⟨start, stop⟩))) := by
  rw [ofWord, ht]
  cases n.octave <;> rfl

/-- Only a word that is a note makes a note. -/
theorem Command.note_of_ofWord {start stop : Nat} {written : String} {word : Word}
    {command : Command} (h : ofWord start stop written word = .ok command)
    (hn : command.isNote = true) :
    ∃ n timing, word = .note n ∧ Timing.ofWritten? n.timing = some timing ∧
      command = .note (String.ofList (n.letter.toChar :: (n.octave.map (Nat.toDigits 10)).getD []))
        n.mark timing (some (.span ⟨start, stop⟩)) := by
  cases word with
  | note n =>
    rw [ofWord] at h
    cases ht : Timing.ofWritten? n.timing with
    | none =>
      rw [ht] at h
      cases h
    | some timing =>
      rw [← ofWord, ofWord_note ht] at h
      cases h
      exact ⟨n, timing, rfl, ht, rfl⟩
  | rest timing =>
    rw [ofWord] at h
    split at h
    · cases h
    · cases h
      cases hn
  | timeSignature beats unit =>
    rw [ofWord] at h
    split at h
    · cases h
    · cases h
      cases hn
  | _ =>
    cases h
    cases hn

namespace SingleNote

theorem dropFinalNewline_of_word {cs : List Char} (h : ∀ c ∈ cs, Reading.endsWord c = false) :
    dropFinalNewline cs = cs := by
  refine if_neg fun hc => ?_
  have hn := h '\n' (List.mem_of_getLast? hc)
  cases hn

/-- The single note that a text is written as. -/
theorem ofText?_of_written {text : String} {n : WrittenNote} {timing : Timing}
    (hn : WrittenNote.read? (dropFinalNewline text.toList) = some n)
    (ht : Timing.ofWritten? n.timing = some timing) :
    ofText? text = some ⟨String.ofList [n.letter.toChar],
      n.mark.map fun mark => String.ofList [mark.toChar],
      n.octave.map fun octave => .text (toString octave), timing⟩ := by
  rw [ofText?, hn, Option.bind_eq_bind, Option.bind_some, ofWritten?, ht]
  rfl

end SingleNote

namespace Located.StandsIn
variable {l : Located} {text : String}

private theorem slice_span (h : l.StandsIn text.toList) :
    l.span.slice text = String.ofList l.written := by
  rw [Span.slice, span]
  dsimp only
  rw [Int.toNat_natCast, Int.toNat_natCast, h.drop_take]

/-- A note is read again where it stands. -/
theorem rereadAt (h : l.StandsIn text.toList) (hs : l.Sound) {command : Command}
    (hl : l.leaf? = some command) (hn : command.isNote = true) :
    command.RereadAt text l.span ∧ l.lexeme.isWord = true := by
  rw [leaf?] at hl
  split at hl
  · next word hword =>
    cases hw : ofWord l.start l.stop (String.ofList l.written) word with
    | error fault =>
      rw [hw] at hl
      cases hl
    | ok made =>
      rw [hw] at hl
      cases hl
      obtain ⟨n, timing, rfl, ht, rfl⟩ := note_of_ofWord hw hn
      have hisWord : l.lexeme.isWord = true := by
        rw [hword]
        rfl
      rw [Located.Sound, hword] at hs
      refine ⟨.note ((congrArg SingleNote.ofText? h.slice_span).trans ?_), hisWord⟩
      refine SingleNote.ofText?_of_written ?_ ht
      rw [String.toList_ofList, SingleNote.dropFinalNewline_of_word (h.run hisWord)]
      exact Word.writtenNote_of_read? hs
  all_goals
    cases hl
    try cases hn

end Located.StandsIn

/-- The notes that lexemes of a text add stand where they can be read again, one behind the other
with something between them. -/
theorem exists_spans_of_lexemes {text : String} {ls : List Located}
    (hs : ∀ l ∈ ls, l.Sound ∧ l.StandsIn text.toList)
    (hp : ls.Pairwise fun a b => a.stop ≤ b.start) :
    ∃ words : List Located, words.Sublist ls ∧ (∀ l ∈ words, l.lexeme.isWord = true) ∧
      List.Forall₂ (RereadAt text) ((ls.filterMap Located.leaf?).filter isNote)
        (words.map Located.span) := by
  induction ls with
  | nil => exact ⟨[], .slnil, fun _ h => (List.not_mem_nil h).elim, .nil⟩
  | cons l ls ih =>
    obtain ⟨⟨hl, hin⟩, hs⟩ := List.forall_mem_cons.mp hs
    obtain ⟨words, hsub, hwords, hnotes⟩ := ih hs hp.of_cons
    cases hleaf : l.leaf? with
    | none =>
      rw [List.filterMap_cons_none hleaf]
      exact ⟨words, hsub.cons l, hwords, hnotes⟩
    | some command =>
      rw [List.filterMap_cons_some hleaf]
      cases hn : command.isNote with
      | false =>
        rw [List.filter_cons_of_neg (by simp [hn])]
        exact ⟨words, hsub.cons l, hwords, hnotes⟩
      | true =>
        obtain ⟨hread, hword⟩ := hin.rereadAt hl hleaf hn
        rw [List.filter_cons_of_pos hn]
        exact ⟨l :: words, hsub.cons_cons l, List.forall_mem_cons.mpr ⟨hword, hwords⟩,
          .cons hread hnotes⟩

/-- The notes of a text stand where they can be read again, one behind the other with something
between them. -/
theorem exists_spans_of_parse {text : String} {commands : List Command}
    (h : parse text = .ok commands) :
    ∃ spans : List Span, List.Forall₂ (RereadAt text) ((leavesIn commands).filter isNote) spans ∧
      (∀ span ∈ spans, 0 ≤ span.start ∧ span.start < span.stop ∧ span.stop ≤ text.length) ∧
      spans.Pairwise fun a b => a.stop < b.start := by
  have hstands : ∀ l ∈ (Document.read text).lexemes, l.Sound ∧ l.StandsIn text.toList := fun l hl =>
    ⟨Reading.sound_of_mem_lexemes hl, Reading.standsIn_of_mem_lexemes hl⟩
  have hpairwise := Reading.pairwise_lexemes text
  obtain ⟨words, hsub, hwords, hnotes⟩ := exists_spans_of_lexemes hstands hpairwise
  refine ⟨words.map Located.span, ?_, ?_, ?_⟩
  · rw [leavesIn_of_parse h, List.filter_append, List.filter_eq_nil_iff.mpr, List.nil_append]
    · exact hnotes
    · intro command hc
      obtain ⟨field, -, rfl⟩ := List.mem_map.mp hc
      exact Bool.false_ne_true
  · intro span hspan
    obtain ⟨l, hl, rfl⟩ := List.mem_map.mp hspan
    have hin := (hstands l (hsub.subset hl)).2
    refine ⟨Int.natCast_nonneg _, Int.ofNat_lt.mpr hin.start_lt_stop, ?_⟩
    rw [← String.length_toList]
    exact Int.ofNat_le.mpr hin.stop_le
  · refine List.pairwise_map.mpr ((hpairwise.sublist hsub).imp_of_mem ?_)
    intro a b ha hb hle
    exact Int.ofNat_lt.mpr ((hstands a (hsub.subset ha)).2.stop_lt_start
      (hstands b (hsub.subset hb)).2 (hwords a ha) (hwords b hb) hle)

end LeadSheet
