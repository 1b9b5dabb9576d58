import LeadSheet.Proofs.Markup.SingleNote
import LeadSheet.Proofs.Number.Unrounded
import LeadSheet.Proofs.Timeline.Location

/-!
Single notes written again. The text of a note that was read is its shortest form, and the note is
read from it again. Only a multiplier of zero or one is lost on the way, and no note is longer or
shorter for that.
-/
namespace LeadSheet

/-! ### Multipliers that change nothing -/

/-- The timing without a multiplier of zero or one. -/
def Timing.withoutUnit (t : Timing) : Timing :=
  { t with multiplier := t.multiplier.filter fun m => !(m.same 0 || m.same 1) }

def SingleNote.withoutUnit (note : SingleNote) : SingleNote :=
  { note with timing := note.timing.withoutUnit }

namespace WrittenTiming

/-- The written timing without a scaling by zero or one. -/
def withoutUnit (t : WrittenTiming) : WrittenTiming :=
  { t with scaling := t.scaling.filter fun scaling => decide (1 < scaling.2) }

private theorem Valid.withoutUnit {t : WrittenTiming} (h : t.Valid) : t.withoutUnit.Valid := by
  intro scaling n hs
  exact h scaling n (Option.filter_eq_some_iff.mp hs).1

end WrittenTiming

namespace WrittenNote

def withoutUnit (n : WrittenNote) : WrittenNote := { n with timing := n.timing.withoutUnit }

private theorem Valid.withoutUnit {n : WrittenNote} (h : n.Valid) : n.withoutUnit.Valid :=
  ⟨h.1, h.2.withoutUnit⟩

end WrittenNote

/-- The multiplier that a scaling by a number is. -/
def Scaling.ratio : Scaling → Nat → Rat
  | multiplied, n => n
  | divided, n => 1 / (n : Rat)

/-- Here one divided by zero is zero, so that a division by zero counts as a unit too. A timing that was
read has none. -/
theorem Scaling.ratio_isUnit_iff (scaling : Scaling) (n : Nat) :
    scaling.ratio n = 0 ∨ scaling.ratio n = 1 ↔ n ≤ 1 := by
  rw [Nat.le_one_iff_eq_zero_or_eq_one]
  cases scaling with
  | multiplied => rw [ratio, Nat.cast_eq_zero, Nat.cast_eq_one]
  | divided => rw [ratio, one_div, inv_eq_zero, inv_eq_one, Nat.cast_eq_zero, Nat.cast_eq_one]

private theorem Number.same_ratio_whole (q : Rat) (n : Int) :
    (Number.ratio q).same (.whole n) = decide (q = n) := by
  have hq : (Number.ratio q).StandsFor q := rfl
  have hn : (Number.whole n).StandsFor n := rfl
  exact Bool.eq_iff_iff.mpr ((hq.same_iff hn).trans decide_eq_true_iff.symm)

namespace Timing

private theorem filter_ratio (q : Rat) :
    (some (Number.ratio q)).filter (fun m => !(m.same 0 || m.same 1)) =
      if q = 0 ∨ q = 1 then none else some (.ratio q) := by
  have hzero : (Number.ratio q).same 0 = decide (q = 0) := Number.same_ratio_whole q 0
  have hone : (Number.ratio q).same 1 = decide (q = 1) := Number.same_ratio_whole q 1
  rw [Option.filter_some, hzero, hone, ← Bool.decide_or]
  by_cases hq : q = 0 ∨ q = 1
  · rw [decide_eq_true hq, if_pos hq]
    rfl
  · rw [decide_eq_false hq, if_neg hq]
    rfl

/-- A timing in the parts that it is written with. -/
theorem eq_of_ofWritten? {t : WrittenTiming} {timing : Timing} (h : ofWritten? t = some timing) :
    timing = ⟨t.scaling.map fun (scaling, n) => .ratio (scaling.ratio n),
      if t.dots = 0 then none else some t.dots, t.start.map fun (n : Nat) => .whole n⟩ := by
  obtain ⟨scaling, dots, start⟩ := t
  rw [ofWritten?] at h
  rcases scaling with - | ⟨- | -, n⟩
  · cases h
    cases start <;> rfl
  · cases h
    cases start <;> rfl
  · dsimp only at h
    split at h
    · cases h
    · cases h
      cases start <;> rfl

private theorem ofWritten?_of_unscaled (dots : Nat) (start : Option Nat) :
    ofWritten? ⟨none, dots, start⟩ =
    some ⟨none, if dots = 0 then none else some dots, start.map fun (n : Nat) => .whole n⟩ := by
  cases start <;> rfl

private theorem ofWritten?_withoutUnit {t : WrittenTiming} {timing : Timing}
    (h : ofWritten? t = some timing) : ofWritten? t.withoutUnit = some timing.withoutUnit := by
  obtain rfl := eq_of_ofWritten? h
  obtain ⟨scaling, dots, start⟩ := t
  rw [withoutUnit, WrittenTiming.withoutUnit]
  match scaling with
  | none => exact h
  | some (scaling, n) =>
    dsimp only
    rw [Option.map_some, filter_ratio, Option.filter_some]
    simp only [scaling.ratio_isUnit_iff, decide_eq_true_eq]
    by_cases hn : 1 < n
    · rw [if_pos hn, if_neg (Nat.not_le.mpr hn), h]
      rfl
    · rw [if_neg hn, if_pos (Nat.not_lt.mp hn), ofWritten?_of_unscaled]

end Timing

/-! ### The text of a note -/

namespace SingleNote

section
variable {q : Rat}

/-- Whole multipliers from two on are written as such. -/
theorem multiplierText_of_le (h : 2 ≤ q) :
    multiplierText (.ratio q) = .ok (if q = q.floor then "*" ++ toString q.floor else "") := by
  have hq : (Number.ratio q).StandsFor q := rfl
  have htwo : Number.StandsFor 2 2 := rfl
  have hfloor : (if 0 ≤ q then q.floor else q.ceil) = q.floor := if_pos (two_pos.le.trans h)
  rw [multiplierText, if_pos ((htwo.le_iff hq).mpr h), hq.toInt_eq, hfloor]
  change Except.ok (if (Number.ratio q).same (.whole q.floor) then _ else _) = _
  simp only [Number.same_ratio_whole, decide_eq_true_eq]

/-- Between zero and one, the nearest divisor is written. -/
theorem multiplierText_of_lt (h0 : 0 < q) (h1 : q < 1) :
    multiplierText (.ratio q) = .ok ("/" ++ toString (Binary64.nearestEven (1 / q))) := by
  have hq : (Number.ratio q).StandsFor q := rfl
  have hzero : Number.StandsFor 0 0 := rfl
  have hone : Number.StandsFor 1 1 := rfl
  have htwo : Number.StandsFor 2 2 := rfl
  have hdiv : Number.div 1 (.ratio q) = .ok (.ratio (1 / q)) :=
    if_neg (ne_true_of_eq_false ((Number.Exact.ratio q).isZero_eq_false h0.ne'))
  rw [multiplierText, if_neg, if_pos, hdiv]
  · rfl
  · rw [Bool.and_eq_true]
    exact ⟨(hzero.lt_iff hq).mpr h0, (hq.lt_iff hone).mpr h1⟩
  · rw [htwo.le_iff hq]
    linarith

private theorem multiplierText_of_unit (h : q = 0 ∨ q = 1) :
    multiplierText (.ratio q) = .ok "" := by
  obtain rfl | rfl := h
  · rfl
  · rfl

end

/-- The text of a multiplier that was read. The divisor comes back whole, so that rounding it does
nothing. -/
theorem multiplierText_ratio (scaling : Scaling) (n : Nat) :
    multiplierText (.ratio (scaling.ratio n)) =
      .ok (if 1 < n then String.ofList (scaling.toChar :: (toString n).toList) else "") := by
  by_cases hn : 1 < n
  · have htwo : (2 : Rat) ≤ n := Nat.ofNat_le_cast.mpr hn
    have htext (c : Char) : String.ofList [c] ++ toString (n : Int) =
        String.ofList (c :: (toString n).toList) := by
      rw [← String.toList_inj, String.toList_append, String.toList_ofList, String.toList_ofList]
      rfl
    rw [if_pos hn]
    cases scaling with
    | multiplied =>
      have hfloor : (n : Rat).floor = n := Rat.floor_intCast n
      rw [Scaling.ratio, multiplierText_of_le htwo, hfloor, if_pos (Int.cast_natCast n).symm]
      exact congrArg Except.ok (htext '*')
    | divided =>
      have hinv : (1 : Rat) / (1 / n) = ((n : Int) : Rat) := by rw [one_div_one_div, Int.cast_natCast]
      have hpos : (0 : Rat) < 1 / n := by positivity
      have hlt : (1 : Rat) / n < 1 := by
        rw [div_lt_one (by linarith)]
        linarith
      rw [Scaling.ratio, multiplierText_of_lt hpos hlt, hinv, Binary64.nearestEven_intCast]
      exact congrArg Except.ok (htext '/')
  · rw [if_neg hn, multiplierText_of_unit ((scaling.ratio_isUnit_iff n).mpr (not_lt.mp hn))]

private theorem multiplierText_of_scaling (scaling : Option (Scaling × Nat)) :
    (scaling.map fun (scaling, n) => Number.ratio (scaling.ratio n)).elim (.ok "") multiplierText =
      .ok (String.ofList (((scaling.filter fun scaling => decide (1 < scaling.2)).map
        fun (scaling, n) => scaling.toChar :: (toString n).toList).getD [])) := by
  match scaling with
  | none => rfl
  | some (scaling, n) =>
    rw [Option.map_some, Option.filter_some, Option.elim_some]
    dsimp only
    rw [multiplierText_ratio]
    by_cases hn : 1 < n
    · rw [if_pos hn, if_pos (decide_eq_true hn)]
      rfl
    · rw [if_neg hn, if_neg (by rwa [decide_eq_true_eq])]
      rfl

/-- The text of a note, part by part. -/
theorem text_eq (note : SingleNote) (small : Bool) : note.text small =
    (note.timing.multiplier.elim (.ok "") multiplierText).map fun multiplier =>
      (if small then String.ofList (Text.lower note.name.toList) else note.name) ++
        note.accidental.getD "" ++ (note.octave.elim "" fun d => if d.holds then d.display else "") ++
        multiplier ++ String.ofList (List.replicate (note.timing.dots.getD 0).toNat '.') ++
        note.timing.start.elim "" fun start => "@" ++ start.display := by
  obtain ⟨name, accidental, octave, multiplier, dots, start⟩ := note
  cases multiplier <;> cases octave <;> cases start <;> rfl

/-- The small or capital letter of a note. -/
def letterChar (letter : Letter) (small : Bool) : Char :=
  if small then letter.toChar.toLower else letter.toChar

private theorem ofChar?_letterChar (letter : Letter) (small : Bool) :
    Letter.ofChar? (letterChar letter small).toUpper = some letter := by
  cases small <;> cases letter <;> rfl

/-- A note that was read is written in its shortest form. -/
theorem text_of_written {n : WrittenNote} {timing : Timing}
    (ht : Timing.ofWritten? n.timing = some timing) (small : Bool) :
    text ⟨String.ofList [n.letter.toChar], n.mark.map fun mark => String.ofList [mark.toChar],
        n.octave.map fun octave => .text (toString octave), timing⟩ small =
      .ok (String.ofList (letterChar n.letter small :: n.withoutUnit.behindLetter)) := by
  obtain rfl := Timing.eq_of_ofWritten? ht
  obtain ⟨letter, mark, octave, scaling, dots, start⟩ := n
  have hname : (if small then String.ofList (Text.lower (String.ofList [letter.toChar]).toList)
      else String.ofList [letter.toChar]) = String.ofList [letterChar letter small] := by
    cases small <;> cases letter <;> rfl
  have hmark : ((mark.map fun mark => String.ofList [mark.toChar]).getD "").toList =
      (mark.map fun mark => [mark.toChar]).getD [] := by
    cases mark with
    | none => rfl
    | some mark => exact String.toList_ofList
  have hoctave : ((octave.map fun octave => Datum.text (toString octave)).elim "" fun d =>
      if d.holds then d.display else "").toList =
        (octave.map fun octave => (toString octave).toList).getD [] := by
    cases octave with
    | none => rfl
    | some octave =>
      have hne : toString octave ≠ "" :=
        mt String.toList_eq_nil_iff.mpr (Text.toList_toString_ne_nil octave)
      have hholds : (Datum.text (toString octave)).holds = true := decide_eq_true hne
      rw [Option.map_some, Option.elim_some, if_pos hholds]
      rfl
  have hstart : ((start.map fun (n : Nat) => Datum.whole (n : Int)).elim "" fun start =>
      "@" ++ start.display).toList = WrittenTiming.startChars start := by
    cases start with
    | none => rfl
    | some n => exact String.toList_append
  rw [text_eq]
  dsimp only
  rw [multiplierText_of_scaling, hname]
  refine congrArg Except.ok (String.toList_inj.mp ?_)
  rw [WrittenNote.behindLetter, WrittenTiming.shortest_eq]
  simp only [String.toList_append, String.toList_ofList, hmark, hoctave, hstart,
    WrittenTiming.getD_dots, List.append_assoc, List.singleton_append]
  rfl

end SingleNote

/-! ### Walks over notes written again -/

namespace Cursor

/-- A multiplier that changes nothing may be left out. -/
theorem length_withoutUnit (c : Cursor) {timing : Timing}
    (h : ∀ m ∈ timing.multiplier, ∃ q, m = .ratio q) :
    c.length timing.withoutUnit = c.length timing := by
  obtain ⟨multiplier, dots, start⟩ := timing
  cases multiplier with
  | none => rfl
  | some m =>
    obtain ⟨q, rfl⟩ := h m rfl
    rw [length_eq, length_eq, Timing.withoutUnit, Timing.filter_ratio]
    by_cases hq : q = 0 ∨ q = 1
    · rw [if_pos hq]
      obtain rfl | rfl := hq
      · rfl
      · have hmul : Number.mul (.ratio (c.noteLength * c.stretch)) (.ratio 1) =
            .ok (.ratio (c.noteLength * c.stretch)) :=
          congrArg (Except.ok ∘ Number.ratio) (mul_one _)
        have hzero : (Number.ratio 1).isZero = false := rfl
        dsimp only
        rw [hzero, if_neg Bool.false_ne_true, hmul]
    · rw [if_neg hq]

private theorem walk_withoutUnit {α : Type} [Timebase α] (c : Cursor) (name : String)
    (mark : Option Mark)
    {timing : Timing} (h : ∀ m ∈ timing.multiplier, ∃ q, m = .ratio q) (span span' : Span) :
    (c.walk (.note name mark timing.withoutUnit (some (.span span'))) : Walk α).withoutLocations =
      (c.walk (.note name mark timing (some (.span span)))).withoutLocations := by
  have hnote : (c.note name mark timing.withoutUnit none : Except Failure (Cursor × List (Event α))) =
      c.note name mark timing none := by
    rw [note, note, c.length_withoutUnit h]
    rfl
  rw [walk_of_not_block c rfl, walk_of_not_block c rfl, Walk.withoutLocations_ofStep,
    Walk.withoutLocations_ofStep, step, step, ← note_withoutLocation, ← note_withoutLocation, hnote]

end Cursor

namespace SingleNote

/-- The text of a note that was read, with a small or a capital letter, is read as this note again,
but for a multiplier of zero or one. Wherever a walk meets the two, they have the same pitch, start
and length, and leave the same cursor behind. -/
theorem reread_text {text : String} {note : SingleNote} (h : ofText? text = some note) (small : Bool) :
    ∃ written, note.text small = .ok written ∧ ofText? written = some note.withoutUnit ∧
      ∃ name mark span span',
        parse text = .ok [.note name mark note.timing (some (.span span))] ∧
        parse written = .ok [.note name mark note.timing.withoutUnit (some (.span span'))] ∧
        ∀ c : Cursor,
          (c.walk (.note name mark note.timing.withoutUnit (some (.span span'))) :
              Walk Number).withoutLocations =
            (c.walk (.note name mark note.timing (some (.span span)))).withoutLocations := by
  obtain ⟨n, timing, hn, ht, rfl⟩ := exists_written_of_ofText? h
  have hunit : Timing.ofWritten? n.withoutUnit.timing = some timing.withoutUnit :=
    Timing.ofWritten?_withoutUnit ht
  have hread : WrittenNote.read? (letterChar n.letter small :: n.withoutUnit.behindLetter) =
      some n.withoutUnit :=
    WrittenNote.read?_behindLetter (WrittenNote.valid_of_read? hn).withoutUnit
      (ofChar?_letterChar n.letter small)
  have hdrop : dropFinalNewline (String.ofList (letterChar n.letter small ::
      n.withoutUnit.behindLetter)).toList = letterChar n.letter small :: n.withoutUnit.behindLetter := by
    rw [String.toList_ofList]
    exact dropFinalNewline_of_word (WrittenNote.endsWord_of_read? hread)
  rw [← hdrop] at hread
  have hagain := ofText?_of_written hread hunit
  have hparse := parse_of_written hread hunit
  refine ⟨_, text_of_written ht small, hagain, _, _, _, _, parse_of_written hn ht, hparse,
    fun c => c.walk_withoutUnit _ _ ?_ _ _⟩
  intro m hm
  obtain rfl := Timing.eq_of_ofWritten? ht
  obtain ⟨scaling, -, rfl⟩ := Option.map_eq_some_iff.mp hm
  exact ⟨_, rfl⟩

theorem reread_text_divided_by_one :
    ofText? "f+5/1..@12" =
        some ⟨"F", some "+", some (.text "5"), some (.ratio 1), some 2, some (.whole 12)⟩ ∧
      ∃ written, text ⟨"F", some "+", some (.text "5"), some (.ratio 1), some 2, some (.whole 12)⟩ true =
          .ok written ∧
        ofText? written = some ⟨"F", some "+", some (.text "5"), none, some 2, some (.whole 12)⟩ := by
  have hread : ofText? "f+5/1..@12" =
      some ⟨"F", some "+", some (.text "5"), some (.ratio 1), some 2, some (.whole 12)⟩ := by
    have hone : (1 : Rat) = 1 / 1 := (div_one 1).symm
    rw [hone]
    rfl
  obtain ⟨written, htext, hagain, -⟩ := reread_text hread true
  exact ⟨hread, written, htext, hagain⟩

end SingleNote
end LeadSheet
