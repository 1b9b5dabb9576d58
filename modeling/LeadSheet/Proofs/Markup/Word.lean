import LeadSheet.Packed.Token
import LeadSheet.Proofs.Text.Digits
import Mathlib.Data.Bool.AllAny
import Mathlib.Tactic.IntervalCases

/-!
Words in their shortest form. Whatever word a run of characters writes, its numbers are in bounds;
and a word with its numbers in bounds is read from the shortest form that it has.
-/
namespace LeadSheet

namespace WrittenTiming

/-- A scaling has at most three digits. -/
def Valid (t : WrittenTiming) : Prop := ∀ scaling n, t.scaling = some (scaling, n) → n < 1000

theorem mem_spanDigits {cs : List Char} {c : Char} (h : c ∈ (spanDigits cs).1) :
    Text.isAsciiDigit c = true := by
  rw [spanDigits, List.span_eq_takeWhile_dropWhile] at h
  exact List.mem_takeWhile_imp h

private theorem lt_of_readScaling {cs rest : List Char} {scaling : Scaling} {n : Nat}
    (h : readScaling cs = some (some (scaling, n), rest)) : n < 1000 := by
  cases cs with
  | nil => cases h
  | cons c cs =>
    rw [readScaling] at h
    split at h
    · cases h
    · dsimp only at h
      split at h
      · next hc =>
        cases h
        rw [Bool.and_eq_true, decide_eq_true_eq, decide_eq_true_eq] at hc
        exact Nat.lt_of_lt_of_le (Text.numberOfDigits_lt fun _ => mem_spanDigits)
          (Nat.pow_le_pow_right (by decide) hc.2)
      · cases h

private theorem valid_of_read? {cs : List Char} {t : WrittenTiming} (h : read? cs = some t) :
    t.Valid := by
  obtain ⟨⟨scaling, rest⟩, hs, h⟩ := Option.bind_eq_some_iff.mp h
  obtain ⟨start, -, h⟩ := Option.bind_eq_some_iff.mp h
  cases h
  rintro s n rfl
  exact lt_of_readScaling hs

end WrittenTiming

namespace WrittenNote

/-- The octave is one digit. -/
def Valid (n : WrittenNote) : Prop := (∀ octave ∈ n.octave, octave < 10) ∧ n.timing.Valid

private theorem lt_of_readOctave {cs rest : List Char} {octave : Nat}
    (h : readOctave cs = (some octave, rest)) : octave < 10 := by
  cases cs with
  | nil => cases h
  | cons c cs =>
    rw [readOctave] at h
    split at h
    · next hc =>
      cases h
      have hd : ∀ d ∈ [c], Text.isAsciiDigit d = true := by simpa using hc
      exact Text.numberOfDigits_lt hd
    · cases h

theorem valid_of_read? {cs : List Char} {n : WrittenNote} (h : read? cs = some n) : n.Valid := by
  cases cs with
  | nil => cases h
  | cons c cs =>
    obtain ⟨letter, -, h⟩ := Option.bind_eq_some_iff.mp h
    obtain ⟨timing, ht, h⟩ := Option.bind_eq_some_iff.mp h
    cases h
    exact ⟨fun octave ho => lt_of_readOctave (Prod.ext ho rfl), WrittenTiming.valid_of_read? ht⟩

end WrittenNote

namespace Word

/-- The numbers of a word are in bounds, and a clef has one of the three letters in its small
form. -/
def Valid : Word → Prop
  | note n => n.Valid
  | rest timing => timing.Valid
  | clef letter => letter ∈ ['g', 'c', 'f']
  | _ => True

private theorem clef_valid {c : Char} (h : "gcfGCF".toList.contains c = true) :
    (clef c.toLower).Valid := by
  have ha : ∀ c ∈ "gcfGCF".toList, c.toLower ∈ ['g', 'c', 'f'] :=
    List.all_iff_forall_prop.mp (by decide)
  exact ha c (List.contains_iff_mem.mp h)

/-- Every word that is read has its numbers in bounds. -/
theorem valid_of_read? {cs : List Char} {w : Word} (h : read? cs = some w) : w.Valid := by
  rw [read?.eq_def] at h
  split at h
  · obtain ⟨n, -, rfl⟩ := Option.map_eq_some_iff.mp h
    exact trivial
  · obtain ⟨n, -, rfl⟩ := Option.map_eq_some_iff.mp h
    exact trivial
  · split at h
    · obtain ⟨beats, -, h⟩ := Option.bind_eq_some_iff.mp h
      obtain ⟨unit, -, h⟩ := Option.bind_eq_some_iff.mp h
      cases h
      exact trivial
    · cases h
  · obtain ⟨n, -, rfl⟩ := Option.map_eq_some_iff.mp h
    exact trivial
  · obtain ⟨n, -, rfl⟩ := Option.map_eq_some_iff.mp h
    exact trivial
  · obtain ⟨n, -, rfl⟩ := Option.map_eq_some_iff.mp h
    exact trivial
  · obtain ⟨n, -, rfl⟩ := Option.map_eq_some_iff.mp h
    exact trivial
  · obtain ⟨n, -, rfl⟩ := Option.map_eq_some_iff.mp h
    exact trivial
  · split at h
    · next hc =>
      cases h
      exact clef_valid hc
    · cases h
  · obtain ⟨timing, ht, rfl⟩ := Option.map_eq_some_iff.mp h
    exact WrittenTiming.valid_of_read? ht
  · obtain ⟨timing, ht, rfl⟩ := Option.map_eq_some_iff.mp h
    exact WrittenTiming.valid_of_read? ht
  · obtain ⟨timing, ht, rfl⟩ := Option.map_eq_some_iff.mp h
    exact WrittenTiming.valid_of_read? ht
  · obtain ⟨n, hn, rfl⟩ := Option.map_eq_some_iff.mp h
    exact WrittenNote.valid_of_read? hn

end Word

namespace WrittenTiming

/-- The characters of a timing with its numbers in their shortest form. -/
def shortest (t : WrittenTiming) : List Char := (TokenTiming.ofWritten t).text.toList

/-- The characters of a start. -/
def startChars (start : Option Nat) : List Char :=
  (start.map fun n => '@' :: (toString n).toList).getD []

/-- No dots count as none. -/
theorem getD_dots (dots : Nat) :
    ((if dots = 0 then none else some (dots : Int)).getD 0).toNat = dots := by
  by_cases h : dots = 0
  · rw [if_pos h, h]
    rfl
  · rw [if_neg h]
    rfl

theorem shortest_eq (t : WrittenTiming) :
    t.shortest =
      (t.scaling.map fun (scaling, n) => scaling.toChar :: (toString n).toList).getD [] ++
        (List.replicate t.dots '.' ++ startChars t.start) := by
  obtain ⟨scaling, dots, start⟩ := t
  have hd : ((TokenTiming.ofWritten ⟨scaling, dots, start⟩).dots.getD 0).toNat = dots :=
    getD_dots dots
  rw [shortest, TokenTiming.text, hd, String.toList_append, String.toList_append,
    String.toList_ofList, List.append_assoc]
  congr 1
  · rcases scaling with - | ⟨scaling, n⟩
    · rfl
    · exact String.toList_ofList
  · congr 1
    cases start with
    | none => rfl
    | some n => exact String.toList_append

private theorem ofChar?_toChar (scaling : Scaling) :
    Scaling.ofChar? scaling.toChar = some scaling := by
  cases scaling <;> rfl

private theorem readStart_startChars (start : Option Nat) :
    readStart (startChars start) = some start := by
  cases start with
  | none => rfl
  | some n =>
    have hn : ((toString n).toList ≠ [] && (toString n).toList.all Text.isAsciiDigit) = true := by
      rw [Bool.and_eq_true, decide_eq_true_eq]
      exact ⟨Text.toList_toString_ne_nil n, Text.all_isAsciiDigit_toString n⟩
    rw [startChars, Option.map_some, Option.getD_some, readStart, if_pos hn,
      Text.numberOfDigits_toString]

/-- Neither dots nor a start begin with a character of a scaling or its number. -/
theorem head_dots (dots : Nat) (start : Option Nat) :
    ∀ c ∈ (List.replicate dots '.' ++ startChars start).head?, c = '.' ∨ c = '@' := by
  intro c h
  cases dots with
  | succ dots => exact .inl (Option.mem_some_iff.mp h).symm
  | zero =>
    cases start with
    | none => cases h
    | some n => exact .inr (Option.mem_some_iff.mp h).symm

private theorem span_dots (dots : Nat) (start : Option Nat) :
    (List.replicate dots '.' ++ startChars start).span (· = '.') =
      (List.replicate dots '.', startChars start) := by
  apply Text.span_append (fun c h => decide_eq_true (List.eq_of_mem_replicate h))
  intro c h
  cases start with
  | none => cases h
  | some n =>
    cases h
    decide

private theorem readScaling_of_head {cs : List Char} (h : ∀ c ∈ cs.head?, c = '.' ∨ c = '@') :
    readScaling cs = some (none, cs) := by
  cases cs with
  | nil => rfl
  | cons c cs => rcases h c rfl with rfl | rfl <;> rfl

private theorem readScaling_cons (scaling : Scaling) {n : Nat} (hn : n < 1000) {cs : List Char}
    (h : ∀ c ∈ cs.head?, c = '.' ∨ c = '@') :
    readScaling (scaling.toChar :: ((toString n).toList ++ cs)) = some (some (scaling, n), cs) := by
  have hs : spanDigits ((toString n).toList ++ cs) = ((toString n).toList, cs) :=
    Text.span_toString n fun c hc => by rcases h c hc with rfl | rfl <;> decide
  have hl : ((toString n).toList ≠ [] && (toString n).toList.length ≤ 3) = true := by
    rw [Bool.and_eq_true, decide_eq_true_eq, decide_eq_true_eq]
    exact ⟨Text.toList_toString_ne_nil n, (Text.length_toString_le_iff (by decide)).mpr hn⟩
  rw [readScaling, ofChar?_toChar]
  dsimp only
  rw [hs]
  dsimp only
  rw [if_pos hl, Text.numberOfDigits_toString]

/-- A timing is read from its shortest form. -/
theorem read?_shortest {t : WrittenTiming} (ht : t.Valid) : read? t.shortest = some t := by
  obtain ⟨scaling, dots, start⟩ := t
  have hs : readScaling (shortest ⟨scaling, dots, start⟩) =
      some (scaling, List.replicate dots '.' ++ startChars start) := by
    rw [shortest_eq]
    rcases scaling with - | ⟨scaling, n⟩
    · exact readScaling_of_head (head_dots dots start)
    · exact readScaling_cons scaling (ht scaling n rfl) (head_dots dots start)
  rw [read?, hs, Option.bind_eq_bind, Option.bind_some]
  dsimp only
  rw [span_dots]
  dsimp only
  rw [readStart_startChars, Option.bind_eq_bind, Option.bind_some, List.length_replicate]
  rfl

end WrittenTiming

namespace WrittenNote

/-- What stands behind the letter of a note in its shortest form. -/
def behindLetter (n : WrittenNote) : List Char :=
  (n.mark.map fun mark => [mark.toChar]).getD [] ++
    ((n.octave.map fun octave => (toString octave).toList).getD [] ++ n.timing.shortest)

/-- What a shortest timing may begin with. -/
theorem head_shortest (t : WrittenTiming) :
    ∀ c ∈ t.shortest.head?, c = '*' ∨ c = '/' ∨ c = '.' ∨ c = '@' := by
  intro c h
  rw [WrittenTiming.shortest_eq] at h
  obtain ⟨scaling, dots, start⟩ := t
  rcases scaling with - | ⟨scaling, n⟩
  · exact .inr (.inr (WrittenTiming.head_dots dots start c h))
  · cases scaling
    · exact .inl (Option.mem_some_iff.mp h).symm
    · exact .inr (.inl (Option.mem_some_iff.mp h).symm)

private theorem ofChar?_toChar (mark : Mark) : Mark.ofChar? mark.toChar = some mark := by
  cases mark <;> rfl

private theorem readOctave_shortest {octave : Option Nat} (h : ∀ n ∈ octave, n < 10)
    (t : WrittenTiming) :
    readOctave ((octave.map fun octave => (toString octave).toList).getD [] ++ t.shortest) =
      (octave, t.shortest) := by
  cases octave with
  | some n =>
    have hn := h n rfl
    interval_cases n <;> rfl
  | none =>
    rw [Option.map_none, Option.getD_none, List.nil_append]
    cases hs : t.shortest with
    | nil => rfl
    | cons c cs =>
      have hc := head_shortest t c (by rw [hs]; rfl)
      rw [readOctave, if_neg]
      rcases hc with rfl | rfl | rfl | rfl <;> decide

private theorem readMark_behindLetter {n : WrittenNote} (h : ∀ octave ∈ n.octave, octave < 10) :
    readMark n.behindLetter = (n.mark,
      (n.octave.map fun octave => (toString octave).toList).getD [] ++ n.timing.shortest) := by
  obtain ⟨letter, mark, octave, timing⟩ := n
  cases mark with
  | some mark =>
    rw [behindLetter, Option.map_some, Option.getD_some, List.singleton_append, readMark,
      ofChar?_toChar]
  | none =>
    rw [behindLetter, Option.map_none, Option.getD_none, List.nil_append]
    cases octave with
    | some n =>
      have hn := h n rfl
      interval_cases n <;> rfl
    | none =>
      rw [Option.map_none, Option.getD_none, List.nil_append]
      cases hs : timing.shortest with
      | nil => rfl
      | cons c cs =>
        have hc := head_shortest timing c (by rw [hs]; rfl)
        rcases hc with rfl | rfl | rfl | rfl <;> rfl

/-- A note is read from its letter, small or capital, and what stands behind it. -/
theorem read?_behindLetter {n : WrittenNote} (hn : n.Valid) {c : Char}
    (hc : Letter.ofChar? c.toUpper = some n.letter) : read? (c :: n.behindLetter) = some n := by
  rw [read?, hc, Option.bind_eq_bind, Option.bind_some]
  dsimp only
  rw [readMark_behindLetter hn.1]
  dsimp only
  rw [readOctave_shortest hn.1]
  dsimp only
  rw [WrittenTiming.read?_shortest hn.2]
  rfl

/-- A note begins with its letter. -/
theorem ofChar?_of_read? {c : Char} {cs : List Char} {n : WrittenNote}
    (h : read? (c :: cs) = some n) : Letter.ofChar? c.toUpper = some n.letter := by
  obtain ⟨letter, hletter, h⟩ := Option.bind_eq_some_iff.mp h
  obtain ⟨timing, -, h⟩ := Option.bind_eq_some_iff.mp h
  cases h
  exact hletter

end WrittenNote

namespace Word

/-- The characters of a word in its shortest form. -/
def shortest (w : Word) : List Char := (Token.ofWord "" w).text.toList

theorem text_ofWord (written : String) (w : Word) :
    (Token.ofWord written w).text.toList = w.shortest := by
  cases w <;> rfl

private theorem shortest_note (n : WrittenNote) :
    (note n).shortest = n.letter.toChar.toLower :: n.behindLetter := by
  obtain ⟨letter, mark, octave, timing⟩ := n
  rw [shortest, Token.ofWord, Token.text, Token.noteText]
  simp only [String.toList_append, String.toList_ofList, List.append_assoc]
  rw [List.singleton_append, WrittenNote.behindLetter]
  congr 2
  · cases mark with
    | none => rfl
    | some mark => exact String.toList_ofList
  · congr 1
    cases octave <;> rfl

private theorem shortest_rest (t : WrittenTiming) : (rest t).shortest = 'r' :: t.shortest := by
  rw [shortest, Token.ofWord, Token.text, Token.restText, String.toList_append]
  rfl

private theorem number?_toString (n : Nat) : number? (toString n).toList = some n := by
  rw [number?, if_pos, Text.numberOfDigits_toString]
  rw [Bool.and_eq_true, decide_eq_true_eq]
  exact ⟨Text.toList_toString_ne_nil n, Text.all_isAsciiDigit_toString n⟩

private theorem optionalNumber?_toString (n : Option Nat) :
    optionalNumber? ((n.map toString).getD "").toList = some n := by
  cases n with
  | none => rfl
  | some n =>
    rw [Option.map_some, Option.getD_some, optionalNumber?, if_neg (Text.toList_toString_ne_nil n),
      number?_toString]
    rfl

private theorem read?_keySignature (count : Int) :
    read? ('k' :: 's' :: (toString count).toList) = some (keySignature count) := by
  by_cases h : count < 0
  · rw [Text.toList_toString_neg h, read?, number?_toString]
    exact congrArg (fun n => some (keySignature n)) (show -(count.natAbs : Int) = count by omega)
  · have hd : ∀ tail, (toString count.toNat).toList = '-' :: tail → False := by
      intro tail he
      exact absurd (Text.isAsciiDigit_of_mem_toString (n := count.toNat) (c := '-')
        (by rw [he]; exact List.mem_cons_self ..)) (by decide)
    rw [Text.toString_of_nonneg (by omega), read?.eq_2 _ hd, number?_toString]
    exact congrArg (fun n => some (keySignature n)) (Int.toNat_of_nonneg (by omega))

private theorem read?_timeSignature (beats unit : Nat) :
    read? ('t' :: 's' :: ((toString beats).toList ++ '/' :: (toString unit).toList)) =
      some (timeSignature beats unit) := by
  rw [read?, Text.span_toString beats fun c hc => by cases hc; decide]
  simp only [number?_toString]
  rfl

private theorem read?_track (number : Nat) :
    read? ('t' :: (toString number).toList) = some (track number) := by
  have hd (c : Char) (hc : Text.isAsciiDigit c = false) :
      ∀ tail, (toString number).toList = c :: tail → False := by
    intro tail he
    have := Text.isAsciiDigit_of_mem_toString (n := number) (c := c)
      (by rw [he]; exact List.mem_cons_self ..)
    rw [hc] at this
    cases this
  rw [read?.eq_8 _ (hd 's' (by decide)) (hd 't' (by decide)), number?_toString]
  rfl

/-- Characters that stand behind the letters of words. -/
def isTail (c : Char) : Bool := Text.isAsciiDigit c || "+-=*/.@".toList.contains c

private theorem isTail_toString {n : Nat} {c : Char} (h : c ∈ (toString n).toList) :
    isTail c = true := by
  rw [isTail, Text.isAsciiDigit_of_mem_toString h, Bool.true_or]

private theorem isTail_toString_int {n : Int} {c : Char} (h : c ∈ (toString n).toList) :
    isTail c = true := by
  by_cases hn : n < 0
  · rw [Text.toList_toString_neg hn] at h
    rcases List.mem_cons.mp h with rfl | h
    · decide
    · exact isTail_toString h
  · rw [Text.toString_of_nonneg (by omega)] at h
    exact isTail_toString h

private theorem isTail_timing {t : WrittenTiming} {c : Char} (h : c ∈ t.shortest) :
    isTail c = true := by
  obtain ⟨scaling, dots, start⟩ := t
  rw [WrittenTiming.shortest_eq, List.mem_append, List.mem_append] at h
  rcases h with h | h | h
  · rcases scaling with - | ⟨scaling, n⟩
    · cases h
    · rcases List.mem_cons.mp h with rfl | h
      · cases scaling <;> decide
      · exact isTail_toString h
  · rw [List.eq_of_mem_replicate h]
    decide
  · cases start with
    | none => cases h
    | some n =>
      rcases List.mem_cons.mp h with rfl | h
      · decide
      · exact isTail_toString h

private theorem isTail_behindLetter {n : WrittenNote} {c : Char} (h : c ∈ n.behindLetter) :
    isTail c = true := by
  obtain ⟨letter, mark, octave, timing⟩ := n
  rw [WrittenNote.behindLetter, List.mem_append, List.mem_append] at h
  rcases h with h | h | h
  · cases mark with
    | none => cases h
    | some mark =>
      rw [List.mem_singleton.mp h]
      cases mark <;> decide
  · cases octave with
    | none => cases h
    | some octave => exact isTail_toString h
  · exact isTail_timing h

/-- What is written as a note has the form of no other word. -/
theorem read?_of_writtenNote {cs : List Char} {n : WrittenNote}
    (h : WrittenNote.read? cs = some n) : read? cs = some (note n) := by
  have other {c : Char} {tail : List Char} (hc : Letter.ofChar? c.toUpper = none)
      (h : WrittenNote.read? (c :: tail) = some n) {p : Prop} : p := by
    rw [WrittenNote.ofChar?_of_read? h] at hc
    cases hc
  rw [read?.eq_def]
  split
  -- the tempo that begins with the letter of a note
  case h_5 => cases h
  case h_13 => rw [h, Option.map_some]
  all_goals exact other (by decide) h

theorem shortest_keySignature (count : Int) :
    (keySignature count).shortest = 'k' :: 's' :: (toString count).toList :=
  String.toList_append

theorem shortest_timeSignature (beats unit : Nat) :
    (timeSignature beats unit).shortest =
      't' :: 's' :: ((toString beats).toList ++ '/' :: (toString unit).toList) := by
  change ("ts" ++ toString beats ++ "/" ++ toString unit).toList = _
  simp only [String.toList_append, List.append_assoc]
  rfl

theorem shortest_tempo (tempo : Tempo) (count : Option Nat) :
    (Word.tempo tempo count).shortest =
      tempo.toChar :: 't' :: ((count.map toString).getD "").toList := by
  change (String.ofList [tempo.toChar, 't'] ++ (count.map toString).getD "").toList = _
  rw [String.toList_append, String.toList_ofList]
  rfl

theorem shortest_measure (number : Option Nat) :
    (measure number).shortest = 'm' :: ((number.map toString).getD "").toList :=
  String.toList_append

theorem shortest_track (number : Nat) :
    (track number).shortest = 't' :: (toString number).toList :=
  String.toList_append

/-- A word is read from its shortest form. -/
theorem read?_shortest {w : Word} (hw : w.Valid) : read? w.shortest = some w := by
  cases w with
  | note n =>
    rw [shortest_note]
    exact read?_of_writtenNote (WrittenNote.read?_behindLetter hw (by cases n.letter <;> rfl))
  | rest timing =>
    rw [shortest_rest, read?, WrittenTiming.read?_shortest hw]
    rfl
  | keySignature count => rw [shortest_keySignature, read?_keySignature]
  | timeSignature beats unit => rw [shortest_timeSignature, read?_timeSignature]
  | tempo tempo count =>
    rw [shortest_tempo]
    cases tempo
    · exact congrArg (Option.map (Word.tempo .half)) (optionalNumber?_toString count)
    · exact congrArg (Option.map (Word.tempo .double)) (optionalNumber?_toString count)
    · exact congrArg (Option.map (Word.tempo .triple)) (optionalNumber?_toString count)
  | measure number =>
    rw [shortest_measure]
    exact congrArg (Option.map measure) (optionalNumber?_toString number)
  | track number => rw [shortest_track, read?_track]
  | clef letter =>
    rw [Valid, List.mem_cons, List.mem_cons, List.mem_singleton] at hw
    rcases hw with rfl | rfl | rfl <;> rfl

theorem endsWord_of_isTail {c : Char} (h : isTail c = true) : Reading.endsWord c = false := by
  have ha : ∀ c ∈ "+-=*/.@".toList, 0x20 < c.toNat ∧ c.toNat < 0x7F :=
    List.all_iff_forall_prop.mp (by decide)
  have hv : 0x20 < c.toNat ∧ c.toNat < 0x7F := by
    rw [isTail, Bool.or_eq_true, Text.isAsciiDigit_iff, List.contains_iff_mem] at h
    rcases h with h | h
    · omega
    · exact ha c h
  rw [Reading.endsWord, Text.isBlank_of_visible hv.1 hv.2, Bool.false_or]
  apply Bool.eq_false_iff.mpr
  intro he
  rw [List.contains_iff_mem] at he
  have hn : ∀ c ∈ "\x7b\x7d|#$\"'".toList, isTail c = false :=
    List.all_iff_forall_prop.mp (by decide)
  rw [hn c he] at h
  cases h

/-- A word in its shortest form is one run of word characters. -/
theorem endsWord_shortest {w : Word} (hw : w.Valid) :
    ∀ c ∈ w.shortest, Reading.endsWord c = false := by
  intro c h
  have tail {n : Option Nat} (h : c ∈ ((n.map toString).getD "").toList) : isTail c = true := by
    cases n with
    | none => cases h
    | some n => exact isTail_toString h
  cases w with
  | note n =>
    rw [shortest_note] at h
    rcases List.mem_cons.mp h with rfl | h
    · cases n.letter <;> decide
    · exact endsWord_of_isTail (isTail_behindLetter h)
  | rest timing =>
    rw [shortest_rest] at h
    rcases List.mem_cons.mp h with rfl | h
    · decide
    · exact endsWord_of_isTail (isTail_timing h)
  | keySignature count =>
    rw [shortest_keySignature, List.mem_cons, List.mem_cons] at h
    rcases h with rfl | rfl | h
    · decide
    · decide
    · exact endsWord_of_isTail (isTail_toString_int h)
  | timeSignature beats unit =>
    rw [shortest_timeSignature, List.mem_cons, List.mem_cons, List.mem_append, List.mem_cons] at h
    rcases h with rfl | rfl | h | rfl | h
    · decide
    · decide
    · exact endsWord_of_isTail (isTail_toString h)
    · decide
    · exact endsWord_of_isTail (isTail_toString h)
  | tempo tempo count =>
    rw [shortest_tempo, List.mem_cons, List.mem_cons] at h
    rcases h with rfl | rfl | h
    · cases tempo <;> decide
    · decide
    · exact endsWord_of_isTail (tail h)
  | measure number =>
    rw [shortest_measure, List.mem_cons] at h
    rcases h with rfl | h
    · decide
    · exact endsWord_of_isTail (tail h)
  | track number =>
    rw [shortest_track, List.mem_cons] at h
    rcases h with rfl | h
    · decide
    · exact endsWord_of_isTail (isTail_toString h)
  | clef letter =>
    rw [Valid, List.mem_cons, List.mem_cons, List.mem_singleton] at hw
    rcases hw with rfl | rfl | rfl <;>
      exact (List.all_iff_forall_prop (p := (Reading.endsWord · = false))).mp (by decide) c h

theorem shortest_ne_nil (w : Word) (hw : w.Valid) : w.shortest ≠ [] := by
  intro he
  have hr := read?_shortest hw
  rw [he] at hr
  cases hr

end Word
end LeadSheet
