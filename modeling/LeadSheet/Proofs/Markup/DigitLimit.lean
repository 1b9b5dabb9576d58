import LeadSheet.Arrangement
import LeadSheet.Markup.SingleNote
import LeadSheet.Proofs.Markup.Fault
import LeadSheet.Proofs.Markup.SingleNote

/-!
What becomes of a text whose numbers may be of any length. A number with too many digits is reported
wherever it stands, and every other text has commands or a fault as if there were no limit. Blocks
decide no more than which of several such numbers is the one reported. No number that is read is too
long for the limit.
-/
namespace LeadSheet

/-! ### The numbers of a word -/

namespace Word

/-- The numbers of a word that may have any number of digits. -/
def longNumbers : Word → List Nat
  | note n => n.timing.start.toList
  | rest timing => timing.start.toList
  | keySignature count => [count.natAbs]
  | timeSignature beats unit => [beats, unit]
  | tempo _ count => count.toList
  | measure number => number.toList
  | track number => [number]
  | clef _ => []

/-- The letters and signs of words with a number are no digits. -/
private theorem digitsIn_cons (cs : List Char) :
    ∀ c ∈ ['k', 's', '-', 't', 'h', 'd', 'm', '/', '@'], digitsIn (c :: cs) = digitsIn cs := by
  simp [digitsIn, Text.isAsciiDigit]

private theorem lt_of_number? {cs : List Char} {n : Nat} (h : number? cs = some n) :
    n < 10 ^ digitsIn cs := by
  rw [number?] at h
  split at h
  · next hc =>
    cases h
    have hd := List.all_eq_true.mp ((Bool.and_eq_true ..).mp hc).2
    rw [digitsIn, List.countP_eq_length.mpr hd]
    exact Text.numberOfDigits_lt hd
  · cases h

private theorem lt_of_optionalNumber? {cs : List Char} {number : Option Nat}
    (h : optionalNumber? cs = some number) : ∀ n ∈ number.toList, n < 10 ^ digitsIn cs := by
  rw [optionalNumber?] at h
  split at h
  · cases h
    simp
  · obtain ⟨n, hn, rfl⟩ := Option.map_eq_some_iff.mp h
    simpa using lt_of_number? hn

end Word

namespace WrittenTiming

private theorem dropWhile_of_ne {c : Char} (h : c ≠ '@') (cs : List Char) :
    (c :: cs).dropWhile (· ≠ '@') = cs.dropWhile (· ≠ '@') :=
  List.dropWhile_cons_of_pos (by simpa using h)

private theorem dropWhile_append_of_ne {front : List Char} (h : ∀ c ∈ front, c ≠ '@')
    (cs : List Char) : (front ++ cs).dropWhile (· ≠ '@') = cs.dropWhile (· ≠ '@') :=
  List.dropWhile_append_of_pos (by simpa using h)

private theorem ne_of_isAsciiDigit {c : Char} (h : Text.isAsciiDigit c = true) : c ≠ '@' := by
  rintro rfl
  cases h

private theorem dropWhile_of_readScaling {cs rest : List Char} {scaling : Option (Scaling × Nat)}
    (h : readScaling cs = some (scaling, rest)) :
    cs.dropWhile (· ≠ '@') = rest.dropWhile (· ≠ '@') := by
  cases cs with
  | nil =>
    cases h
    rfl
  | cons c cs =>
    rw [readScaling] at h
    split at h
    · cases h
      rfl
    · next s hs =>
      have hc : c ≠ '@' := by
        rintro rfl
        cases hs
      dsimp only at h
      split at h
      · cases h
        have hspan : (spanDigits cs).1 ++ (spanDigits cs).2 = cs := by
          rw [spanDigits, List.span_eq_takeWhile_dropWhile]
          exact List.takeWhile_append_dropWhile
        rw [dropWhile_of_ne hc]
        conv_lhs => rw [← hspan]
        exact dropWhile_append_of_ne (fun d hd => ne_of_isAsciiDigit (mem_spanDigits hd)) _
      · cases h

private theorem lt_of_readStart {cs : List Char} {start : Option Nat}
    (h : readStart cs = some start) :
    ∀ n ∈ start.toList, n < 10 ^ Word.digitsIn (cs.dropWhile (· ≠ '@')) := by
  rw [readStart.eq_def] at h
  split at h
  · cases h
    simp
  · split at h
    · next digits hc =>
      cases h
      have hd := List.all_eq_true.mp ((Bool.and_eq_true ..).mp hc).2
      have hcount : Word.digitsIn ('@' :: digits) = digits.length :=
        (Word.digitsIn_cons digits _ (by decide)).trans (List.countP_eq_length.mpr hd)
      rw [List.dropWhile_cons_of_neg (by simp), hcount]
      simpa using Text.numberOfDigits_lt hd
    · cases h
  · cases h

private theorem lt_of_read? {cs : List Char} {t : WrittenTiming} (h : read? cs = some t) :
    ∀ n ∈ t.start.toList, n < 10 ^ Word.digitsIn (cs.dropWhile (· ≠ '@')) := by
  obtain ⟨⟨scaling, rest⟩, hs, h⟩ := Option.bind_eq_some_iff.mp h
  obtain ⟨start, hstart, h⟩ := Option.bind_eq_some_iff.mp h
  cases h
  have hspan : rest.takeWhile (· = '.') ++ rest.dropWhile (· = '.') = rest :=
    List.takeWhile_append_dropWhile
  have hdots : ∀ c ∈ rest.takeWhile (· = '.'), c ≠ '@' := by
    intro c hc
    obtain rfl : c = '.' := by simpa using List.mem_takeWhile_imp hc
    decide
  have hbehind : readStart (rest.span (· = '.')).2 = some start := hstart
  rw [List.span_eq_takeWhile_dropWhile] at hbehind
  rw [dropWhile_of_readScaling hs, ← hspan, dropWhile_append_of_ne hdots]
  exact lt_of_readStart hbehind

end WrittenTiming

namespace WrittenNote

private theorem dropWhile_of_readMark (cs : List Char) :
    cs.dropWhile (· ≠ '@') = (readMark cs).2.dropWhile (· ≠ '@') := by
  cases cs with
  | nil => rfl
  | cons c cs =>
    rw [readMark]
    split
    · next mark hm =>
      refine WrittenTiming.dropWhile_of_ne ?_ cs
      rintro rfl
      cases hm
    · rfl

private theorem dropWhile_of_readOctave (cs : List Char) :
    cs.dropWhile (· ≠ '@') = (readOctave cs).2.dropWhile (· ≠ '@') := by
  cases cs with
  | nil => rfl
  | cons c cs =>
    rw [readOctave]
    split
    · next hd => exact WrittenTiming.dropWhile_of_ne (WrittenTiming.ne_of_isAsciiDigit hd) cs
    · rfl

private theorem lt_of_read? {cs : List Char} {n : WrittenNote} (h : read? cs = some n) :
    ∀ k ∈ n.timing.start.toList, k < 10 ^ Word.digitsIn (cs.dropWhile (· ≠ '@')) := by
  cases cs with
  | nil => cases h
  | cons c cs =>
    obtain ⟨letter, hletter, h⟩ := Option.bind_eq_some_iff.mp h
    obtain ⟨timing, ht, h⟩ := Option.bind_eq_some_iff.mp h
    cases h
    have hc : c ≠ '@' := by
      rintro rfl
      cases hletter
    rw [WrittenTiming.dropWhile_of_ne hc, dropWhile_of_readMark, dropWhile_of_readOctave]
    exact WrittenTiming.lt_of_read? ht

end WrittenNote

namespace Word

/-- No number of a word has more digits than are counted for it. -/
theorem exists_digitCount {cs : List Char} {w : Word} (h : read? cs = some w) :
    ∀ n ∈ w.longNumbers, ∃ count ∈ w.digitCounts cs, n < 10 ^ count := by
  rw [read?.eq_def] at h
  split at h
  · obtain ⟨n, hn, rfl⟩ := Option.map_eq_some_iff.mp h
    obtain ⟨count, hcount, hcast⟩ := Option.bind_eq_some_iff.mp hn
    cases hcast
    simpa [longNumbers, digitCounts, digitsIn_cons] using lt_of_number? hcount
  · obtain ⟨n, hn, rfl⟩ := Option.map_eq_some_iff.mp h
    obtain ⟨count, hcount, hcast⟩ := Option.bind_eq_some_iff.mp hn
    cases hcast
    simpa [longNumbers, digitCounts, digitsIn_cons] using lt_of_number? hcount
  · split at h
    · next tail _ beats unit hspan =>
      obtain ⟨b, hb, h⟩ := Option.bind_eq_some_iff.mp h
      obtain ⟨u, hu, h⟩ := Option.bind_eq_some_iff.mp h
      cases h
      rw [List.span_eq_takeWhile_dropWhile, Prod.mk.injEq] at hspan
      obtain ⟨hbeats, hunit⟩ := hspan
      have htail : tail = beats ++ '/' :: unit := by
        rw [← hbeats, ← hunit, List.takeWhile_append_dropWhile]
      have hslash : ∀ c ∈ 't' :: 's' :: beats, decide (c ≠ '/') = true := by
        have hdigits : ∀ c ∈ beats, c ≠ '/' := by
          rintro c hc rfl
          rw [← hbeats] at hc
          cases List.mem_takeWhile_imp hc
        simpa using hdigits
      rw [digitCounts, htail, ← List.cons_append, ← List.cons_append,
        List.takeWhile_append_of_pos hslash, List.dropWhile_append_of_pos hslash]
      simpa [longNumbers, digitsIn_cons] using
        And.intro (Or.inl (lt_of_number? hb)) (Or.inr (lt_of_number? hu))
    · cases h
  · obtain ⟨number, hnumber, rfl⟩ := Option.map_eq_some_iff.mp h
    simpa [longNumbers, digitCounts, digitsIn_cons] using lt_of_optionalNumber? hnumber
  · obtain ⟨number, hnumber, rfl⟩ := Option.map_eq_some_iff.mp h
    simpa [longNumbers, digitCounts, digitsIn_cons] using lt_of_optionalNumber? hnumber
  · obtain ⟨number, hnumber, rfl⟩ := Option.map_eq_some_iff.mp h
    simpa [longNumbers, digitCounts, digitsIn_cons] using lt_of_optionalNumber? hnumber
  · obtain ⟨number, hnumber, rfl⟩ := Option.map_eq_some_iff.mp h
    simpa [longNumbers, digitCounts, digitsIn_cons] using lt_of_optionalNumber? hnumber
  · obtain ⟨n, hn, rfl⟩ := Option.map_eq_some_iff.mp h
    simpa [longNumbers, digitCounts, digitsIn_cons] using lt_of_number? hn
  · split at h
    · cases h
      simp [longNumbers]
    · cases h
  · obtain ⟨timing, ht, rfl⟩ := Option.map_eq_some_iff.mp h
    simpa [longNumbers, digitCounts] using WrittenTiming.lt_of_read? ht
  · obtain ⟨timing, ht, rfl⟩ := Option.map_eq_some_iff.mp h
    simpa [longNumbers, digitCounts] using WrittenTiming.lt_of_read? ht
  · obtain ⟨timing, ht, rfl⟩ := Option.map_eq_some_iff.mp h
    simpa [longNumbers, digitCounts] using WrittenTiming.lt_of_read? ht
  · obtain ⟨n, hn, rfl⟩ := Option.map_eq_some_iff.mp h
    simpa [longNumbers, digitCounts] using WrittenNote.lt_of_read? hn

end Word
/-! ### The number that is reported -/

namespace Located

/-- Only words have numbers. -/
private theorem commandExcess?_of_not_word {l : Located}
    (h : ∀ word, l.lexeme ≠ .word word) : l.commandExcess? = none := by
  rw [commandExcess?]
  split
  · next word hw => exact absurd hw (h word)
  · rfl

/-- Without too many digits the numbers of a lexeme are below a power of ten. -/
theorem lt_of_excess? {l : Located} (hs : l.Sound) (h : l.excess? = none) {word : Word}
    (hw : l.lexeme = .word word) : ∀ n ∈ word.longNumbers, n < 10 ^ Text.digitLimit := by
  rw [Located.Sound, hw] at hs
  rw [excess?, hw] at h
  intro n hn
  obtain ⟨count, hcount, hlt⟩ := Word.exists_digitCount hs n hn
  have hle : count ≤ Text.digitLimit := by
    simpa using List.find?_eq_none.mp h count hcount
  exact hlt.trans_le (Nat.pow_le_pow_right (by decide) hle)

end Located

namespace Excess

/-- A lexeme adds its own count to those before, and no count gets lost. -/
private theorem mem_counts_take {e : Excess} {l : Located} {count : Nat} :
    count ∈ (e.take l).counts ↔ count ∈ e.counts ∨ l.commandExcess? = some count := by
  rw [take.eq_def]
  split
  · next hl =>
    rw [Located.commandExcess?_of_not_word (by simp [hl])]
    simp [counts]
  · next hl =>
    rw [Located.commandExcess?_of_not_word (by simp [hl])]
    split
    · simp
    · next he => simp [counts, he]
  · simp only [counts, List.mem_append, Option.mem_toList]
    tauto

private theorem mem_counts_foldl {e : Excess} {ls : List Located} {count : Nat} :
    count ∈ (ls.foldl take e).counts ↔
      count ∈ e.counts ∨ ∃ l ∈ ls, l.commandExcess? = some count := by
  induction ls generalizing e with
  | nil => simp
  | cons l ls ih => simp [ih, mem_counts_take, or_assoc]

end Excess

namespace Document

private theorem mem_counts_iff {d : Document} {count : Nat} :
    count ∈ (d.lexemes.foldl Excess.take .empty).counts ↔
      ∃ l ∈ d.lexemes, l.commandExcess? = some count := by
  rw [Excess.mem_counts_foldl]
  simp [Excess.empty, Excess.counts]

/-- The number that the commands of a document fail at stands in one of its lexemes. -/
theorem exists_of_commandExcess? {d : Document} {count : Nat} (h : d.commandExcess? = some count) :
    ∃ l ∈ d.lexemes, l.commandExcess? = some count :=
  mem_counts_iff.mp (List.mem_of_mem_head? (Option.mem_def.mpr h))

/-- The commands of a document fail at no number if those of no lexeme do. -/
theorem commandExcess?_eq_none_iff {d : Document} :
    d.commandExcess? = none ↔ ∀ l ∈ d.lexemes, l.commandExcess? = none := by
  rw [commandExcess?, List.head?_eq_none_iff, List.eq_nil_iff_forall_not_mem]
  simp only [mem_counts_iff, Option.eq_none_iff_forall_ne_some]
  constructor
  · intro h l hl count hc
    exact h count ⟨l, hl, hc⟩
  · rintro h count ⟨l, hl, hc⟩
    exact h l hl count hc

/-- A word that is the only lexeme of a document decides for it. -/
private theorem commandExcess?_of_word {d : Document} {start : Nat} {written : List Char}
    {word : Word} (h : d.lexemes = [⟨start, written, .word word⟩]) (hz : word.dividesByZero = false) :
    d.commandExcess? = Located.excess? ⟨start, written, .word word⟩ := by
  rw [commandExcess?, h]
  simp [Excess.take, Excess.counts, Excess.empty, Located.commandExcess?, hz]

theorem tokenExcess?_eq_none_iff {d : Document} :
    d.tokenExcess? = none ↔ ∀ l ∈ d.lexemes, l.excess? = none :=
  List.findSome?_eq_none_iff

end Document

/-! ### The commands of a text -/

/-- A text that goes wrong: it ends inside a string or a block, it closes a block that is not open,
or one of its lexemes is faulty. -/
def Flawed (text : String) : Prop :=
  (Nesting.atEnd text).InString ∨ 0 < (Nesting.atEnd text).blocks ∨
    (Nesting.atEnd text).stray = true ∨ ∃ l ∈ (Document.read text).lexemes, l.lexeme.Faulty

section
variable {text : String}

private theorem Word.faulty_of_dividesByZero {word : Word} (h : word.dividesByZero = true) :
    (Lexeme.word word).Faulty := by
  cases word with
  | note n => exact Timing.ofWritten?_eq_none_iff.mp (Option.isNone_iff_eq_none.mp h)
  | rest timing => exact Timing.ofWritten?_eq_none_iff.mp (Option.isNone_iff_eq_none.mp h)
  | _ => cases h

/-- A text without a number that has too many digits is read as if there were no limit. -/
theorem checkedParse_eq (h : ∀ l ∈ (Document.read text).lexemes, l.commandExcess? = none) :
    checkedParse text = (parse text).mapError .malformed := by
  rw [checkedParse, Document.commandExcess?_eq_none_iff.mpr h]

private theorem checkedParse_eq_tooManyDigits_iff {count : Nat} :
    checkedParse text = .error (.tooManyDigits count) ↔
      (Document.read text).commandExcess? = some count := by
  rw [checkedParse]
  cases (Document.read text).commandExcess? with
  | some count' => simp
  | none => cases parse text <;> simp [Except.mapError]

/-- What becomes of a text. It fails at a number with too many digits if there is one. If there is
none it either has commands, or a fault: the first one of the text, which stands where it says. A
text has a fault if it goes wrong, and only then. -/
theorem checkedParse_outcome (text : String) :
    match checkedParse text with
    | .ok _ => (∀ l ∈ (Document.read text).lexemes, l.commandExcess? = none) ∧ ¬ Flawed text
    | .error (.malformed fault) =>
      (∀ l ∈ (Document.read text).lexemes, l.commandExcess? = none) ∧
        fault.IsFirstIn text ∧ Flawed text
    | .error (.tooManyDigits count) =>
      ∃ l ∈ (Document.read text).lexemes, l.commandExcess? = some count
    | .error _ => False := by
  cases hd : (Document.read text).commandExcess? with
  | some count =>
    rw [checkedParse_eq_tooManyDigits_iff.mpr hd]
    exact Document.exists_of_commandExcess? hd
  | none =>
    have hfit := Document.commandExcess?_eq_none_iff.mp hd
    obtain ⟨hfirst, hflawed⟩ := parse_faults text
    rw [checkedParse_eq hfit]
    cases hp : parse text with
    | ok commands =>
      refine ⟨hfit, fun hf => ?_⟩
      obtain ⟨fault, hfault⟩ := hflawed.mpr hf
      rw [hp] at hfault
      cases hfault
    | error fault => exact ⟨hfit, hfirst fault hp, hflawed.mp ⟨fault, hp⟩⟩

/-- Every number of a text that has commands is below the power of ten that the limit says. -/
theorem lt_of_checkedParse {commands : List Command} (h : checkedParse text = .ok commands)
    {l : Located} (hl : l ∈ (Document.read text).lexemes) {word : Word} (hw : l.lexeme = .word word) :
    ∀ n ∈ word.longNumbers, n < 10 ^ Text.digitLimit := by
  have hd : (Document.read text).commandExcess? = none := by
    cases hd : (Document.read text).commandExcess? with
    | none => rfl
    | some count =>
      rw [checkedParse_eq_tooManyDigits_iff.mpr hd] at h
      cases h
  have hparse : ∃ commands, parse text = .ok commands := by
    rw [checkedParse, hd] at h
    cases hp : parse text with
    | ok commands => exact ⟨commands, rfl⟩
    | error fault =>
      rw [hp] at h
      cases h
  have hsound : word.dividesByZero = false := by
    have hfaulty := ((exists_parse_eq_ok_iff text).mp hparse).1 l hl
    rw [hw] at hfaulty
    exact Bool.eq_false_iff.mpr fun hz => hfaulty (Word.faulty_of_dividesByZero hz)
  have hexcess := Document.commandExcess?_eq_none_iff.mp hd l hl
  simp only [Located.commandExcess?, hw, hsound, Bool.false_eq_true, if_false] at hexcess
  exact Located.lt_of_excess? (Reading.sound_of_mem_lexemes hl) hexcess hw

/-- Such a text is arranged as if there were no limit, too. -/
theorem Arrangement.ofCheckedText_eq {α : Type} [Timebase α]
    (h : ∀ l ∈ (Document.read text).lexemes, l.commandExcess? = none) (options : ArrangementOptions) :
    (ofCheckedText text options : Arrangement α) = ofText text options := by
  rw [ofCheckedText, checkedParse_eq h, ofText]
  cases parse text <;> rfl

end

/-- The reader of single notes has the limit of the reader of texts: on a text of one note, they fail
together. -/
theorem SingleNote.ofCheckedText?_eq_error_iff {text : String} {count : Nat} :
    ofCheckedText? text = .error (.tooManyDigits count) ↔
      (∃ note, ofText? text = some note) ∧ checkedParse text = .error (.tooManyDigits count) := by
  rw [checkedParse_eq_tooManyDigits_iff, ofCheckedText?]
  cases hnote : ofText? text with
  | none => simp
  | some note =>
    obtain ⟨n, timing, hn, ht, -⟩ := exists_written_of_ofText? hnote
    have hne : dropFinalNewline text.toList ≠ [] := by
      intro hnil
      rw [hnil] at hn
      cases hn
    have hlexemes := (Reading.read_word (Word.read?_of_writtenNote hn) hne
      (WrittenNote.endsWord_of_read? hn) (eq_or_eq_append text.toList)).2
    have hz : (Word.note n).dividesByZero = false := by rw [Word.dividesByZero, ht]; rfl
    rw [Document.commandExcess?_of_word hlexemes hz]
    simp only [Located.excess?, Word.digitCounts, List.find?_singleton, decide_eq_true_eq]
    split <;> simp

/-! ### The limit itself -/

section
variable {digits : List Char} (hn : digits ≠ []) (hd : ∀ c ∈ digits, Text.isAsciiDigit c = true)
include hn hd

/-- A text that is a measure with a number. -/
theorem Reading.read_measure :
    (Document.read (String.ofList ('m' :: digits))).fields = [] ∧
      (Document.read (String.ofList ('m' :: digits))).lexemes =
        [⟨0, 'm' :: digits, .word (.measure (some (Text.numberOfDigits digits)))⟩] := by
  have hword : Word.read? ('m' :: digits) =
      some (.measure (some (Text.numberOfDigits digits))) := by
    simp [Word.read?, Word.optionalNumber?, Word.number?, hn, List.all_eq_true.mpr hd]
  have hrun : ∀ c ∈ 'm' :: digits, endsWord c = false := by
    refine List.forall_mem_cons.mpr ⟨by decide, fun c hc => ?_⟩
    exact Word.endsWord_of_isTail (by rw [Word.isTail, hd c hc, Bool.true_or])
  exact read_word hword (List.cons_ne_nil _ _) hrun (.inl String.toList_ofList)

omit hn in
theorem Located.excess?_measure (number : Option Nat) :
    Located.excess? ⟨0, 'm' :: digits, .word (.measure number)⟩ =
      if Text.digitLimit < digits.length then some digits.length else none := by
  have hcount : Word.digitsIn ('m' :: digits) = digits.length := by
    rw [Word.digitsIn, List.countP_cons_of_neg (by decide), List.countP_eq_length.mpr hd]
  simp [excess?, Word.digitCounts, hcount]

/-- The number of a measure is read as long as it has no more digits than the limit. -/
theorem checkedParse_measure :
    checkedParse (String.ofList ('m' :: digits)) =
      if Text.digitLimit < digits.length then .error (.tooManyDigits digits.length)
      else .ok [.measure (some (Text.numberOfDigits digits))] := by
  obtain ⟨hfields, hlexemes⟩ := Reading.read_measure hn hd
  have hcommands : parse (String.ofList ('m' :: digits)) =
      .ok [.measure (some (Text.numberOfDigits digits))] := by
    refine parse_eq_ok_iff.mpr ?_
    rw [hfields, hlexemes]
    exact ⟨⟨rfl, rfl⟩, rfl, rfl⟩
  rw [checkedParse, Document.commandExcess?_of_word hlexemes rfl, Located.excess?_measure hd,
    hcommands]
  by_cases h : Text.digitLimit < digits.length
  · rw [if_pos h, if_pos h]
  · rw [if_neg h, if_neg h]
    rfl

end

/-- One digit more than the limit. -/
theorem Text.overlong_ones :
    List.replicate 4301 '1' ≠ [] ∧ (∀ c ∈ List.replicate 4301 '1', isAsciiDigit c = true) ∧
      digitLimit < (List.replicate 4301 '1').length := by
  rw [List.length_replicate]
  refine ⟨List.cons_ne_nil _ _, fun c hc => ?_, by decide⟩
  rw [List.eq_of_mem_replicate hc]
  decide

/-- A measure whose number has one digit more than the limit has neither commands nor a fault. -/
theorem not_checkedParse_measure_4301 :
    ¬ ((∃ commands, checkedParse (String.ofList ('m' :: List.replicate 4301 '1')) = .ok commands) ∨
      ∃ fault, checkedParse (String.ofList ('m' :: List.replicate 4301 '1')) =
        .error (.malformed fault)) := by
  obtain ⟨hn, hd, hlong⟩ := Text.overlong_ones
  rw [checkedParse_measure hn hd, if_pos hlong]
  rintro (⟨commands, h⟩ | ⟨fault, h⟩) <;> cases h

end LeadSheet
