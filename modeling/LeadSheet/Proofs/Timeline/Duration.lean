import LeadSheet.Proofs.Number.Exactness
import LeadSheet.Proofs.Timeline.Naming
import Mathlib.Algebra.BigOperators.Ring.Finset
import Mathlib.Algebra.Order.Floor.Ring
import Mathlib.Data.Rat.Floor
import Mathlib.Tactic.Linarith
import Mathlib.Tactic.Ring

/-!
Notes and rests in a row. Each is as long as the integer nearest to its exact length, so after a
number of them the position is off by half a tick each at most, and not at all where all the lengths
fit the grid of 48 ticks to the beat.
-/
namespace LeadSheet
open NoteName (inParts)

/-! ### Exact lengths -/

namespace Timing

/-- A length as a text writes it: multiplied or divided by a number from one on, with any dots, and
without a start. -/
structure Regular (timing : Timing) : Prop where
  multiplier : ∀ m ∈ timing.multiplier, ∃ n : Nat, 1 ≤ n ∧
    (m = .whole n ∨ m = .ratio n ∨ m = .ratio (1 / n))
  dots : ∀ k ∈ timing.dots, 0 ≤ k
  start : timing.start = none

/-- By how much a timing stretches the default length. Each dot adds half of what was added before. -/
def factor (timing : Timing) : Rat :=
  (timing.multiplier.map Number.exact).getD 1 * (2 - (1 / 2) ^ (timing.dots.getD 0).toNat)

end Timing

private theorem Ticks.dotted_of_nonneg {dots : Int} (h : 0 ≤ dots) :
    dotted dots = .ok (2 - (1 / 2) ^ dots.toNat) := by
  have hpow : (2 : Rat) ^ dots.toNat ≠ 0 := pow_ne_zero _ two_ne_zero
  rw [dotted, if_neg (not_lt.mpr h)]
  dsimp only
  rw [Rat.mkRat_eq_div, Nat.pow_eq]
  push_cast
  rw [one_div, inv_pow, sub_div, mul_div_cancel_right₀ _ hpow, one_div]

namespace Cursor

/-- The length of a note or rest in ticks before it is rounded. -/
def exactLength (c : Cursor) : Command → Rat
  | .note _ _ timing _ | .rest timing => c.noteLength * c.stretch * timing.factor
  | _ => 0

/-- The integer nearest to the length; halves are rounded up. -/
def ticks (c : Cursor) (command : Command) : Int := ⌊c.exactLength command + 1 / 2⌋

/-- A regular timing has a length, which is rounded once. -/
theorem length_of_regular (c : Cursor) {timing : Timing} (h : timing.Regular) :
    c.length timing = .ok ⌊c.noteLength * c.stretch * timing.factor + 1 / 2⌋ := by
  obtain ⟨multiplier, dots, start⟩ := timing
  obtain ⟨hmultiplier, hdots, -⟩ := h
  rw [length_eq]
  refine Except.bind_eq_ok_iff.mpr
    ⟨.ratio (c.noteLength * c.stretch * (multiplier.map Number.exact).getD 1), ?_,
      Except.bind_eq_ok_iff.mpr ⟨.ratio (c.noteLength * c.stretch *
        ((multiplier.map Number.exact).getD 1 * (2 - (1 / 2) ^ (dots.getD 0).toNat))), ?_, rfl⟩⟩
  · cases multiplier with
    | none => exact congrArg (Except.ok ∘ Number.ratio) (mul_one _).symm
    | some m =>
      obtain ⟨n, hn, hm⟩ := hmultiplier m rfl
      have hcast : (n : Rat) ≠ 0 := Nat.cast_ne_zero.mpr (by omega)
      have hzero : m.isZero = false := by
        rcases hm with rfl | rfl | rfl
        · exact decide_eq_false (by omega)
        · exact decide_eq_false hcast
        · exact decide_eq_false (one_div_ne_zero hcast)
      dsimp only
      rw [hzero]
      rcases hm with rfl | rfl | rfl <;> rfl
  · have hplain : (2 : Rat) - (1 / 2) ^ (0 : Int).toNat = 1 := by norm_num
    rw [← mul_assoc]
    cases dots with
    | none => rw [Option.getD_none, hplain, mul_one]
    | some k =>
      dsimp only
      split
      · next hk => rw [hk, Option.getD_some, hplain, mul_one]
      · rw [Ticks.dotted_of_nonneg (hdots k rfl)]
        rfl

end Cursor

/-! ### Runs of notes and rests -/

/-- A note that is spelled as a text spells it, or a rest, with a regular timing. -/
inductive Command.Timed : Command → Prop
  | note (letter : Letter) (octave : Option Nat) (mark : Option Mark) {timing : Timing}
      (span : Option Span) (h : timing.Regular) :
      Timed (.note (inParts letter .natural octave) mark timing (span.map .span))
  | rest {timing : Timing} (h : timing.Regular) : Timed (.rest timing)

private theorem Command.Timed.isBlock_eq {command : Command} (h : command.Timed) : command.isBlock = false := by
  cases h <;> rfl

namespace Cursor

/-- The cursor some ticks further on, behind another pitch. -/
def advance (c : Cursor) (ticks : Int) (lastPitch : Option Int) : Cursor :=
  { c with position := c.position + ticks, lastPitch }

/-- Why there is no walk over notes and rests: their key is no number, or beats within so many ticks
are out of the range of binary64 numbers. -/
def Obstructs (c : Cursor) (reach : Int) (e : Failure) : Prop :=
  c.key.toInt = .error e ∨ e = .overflow ∧ Ticks.perBeat * 2 ^ 1023 ≤ |c.position| + reach

section Obstructs
variable {c : Cursor} {reach reach' : Int} {e : Failure}

private theorem Obstructs.mono (h : c.Obstructs reach e) (hle : reach ≤ reach') :
    c.Obstructs reach' e := by
  refine h.imp_right fun ⟨he, hbound⟩ => ⟨he, hbound.trans ?_⟩
  gcongr

private theorem Obstructs.of_advance {ticks : Int} {lastPitch : Option Int}
    (h : (c.advance ticks lastPitch).Obstructs reach e) : c.Obstructs (|ticks| + reach) e := by
  refine h.imp_right fun ⟨he, hbound⟩ => ⟨he, hbound.trans ?_⟩
  have hadd := abs_add_le c.position ticks
  rw [advance]
  push_cast
  linarith

private theorem yields_toBeats_of_abs_le {q : Rat} (h : |q| ≤ |c.position| + reach) :
    (Ticks.toBeats q : Except Failure Number).Yields (fun _ => True) (c.Obstructs reach) :=
  (Ticks.yields_toBeats q).mono (fun _ h => h) fun _ he => .inr ⟨he.1, he.2.trans h⟩

end Obstructs

/-- A step over a note or rest moves the position by its length and keeps what lengths are made of. -/
theorem yields_step (c : Cursor) {command : Command} (h : command.Timed) :
    (c.step command : Except Failure (Cursor × List (Event Number))).Yields
      (fun r => ∃ lastPitch, r.1 = c.advance (c.ticks command) lastPitch)
      (c.Obstructs |c.ticks command|) := by
  cases h with
  | @rest timing h =>
    have hrest : c.rest timing = .ok (c.advance (c.ticks (.rest timing)) c.lastPitch) := by
      rw [rest, h.start]
      exact Except.bind_eq_ok_iff.mpr ⟨_, c.length_of_regular h, rfl⟩
    rw [step, hrest]
    exact .ok ⟨c.lastPitch, rfl⟩
  | @note letter octave mark timing span h =>
    have hlength : c.length timing = .ok (c.ticks
      (.note (inParts letter .natural octave) mark timing (span.map .span))) := c.length_of_regular h
    generalize c.ticks (.note (inParts letter .natural octave) mark timing (span.map .span)) = ticks
      at hlength ⊢
    have hplace : c.place timing ticks = .ok (c.position, c.position + ticks) := by
      rw [place, h.start]
    have hfixed : (span.map Location.span).mapM Location.fixed = .ok (span.map Location.span) := by
      cases span <;> rfl
    have hstart : |c.position| ≤ |c.position| + (|ticks| : Int) :=
      le_add_of_nonneg_right (Int.cast_nonneg (abs_nonneg _))
    have hduration : |(ticks : Rat)| ≤ |c.position| + (|ticks| : Int) := by
      rw [Int.cast_abs]
      exact le_add_of_nonneg_left (abs_nonneg _)
    refine Except.yields_bind hlength ?_
    refine ((c.yields_soundingName letter octave mark).mono (fun _ h => h) fun _ => .inl).bind ?_
    rintro name ⟨p, hp⟩
    refine Except.yields_bind hplace (Except.yields_bind hp ?_)
    refine (yields_toBeats_of_abs_le hstart).bind fun start _ => ?_
    refine (yields_toBeats_of_abs_le hduration).bind fun duration _ => ?_
    exact Except.yields_bind hfixed (.ok ⟨some p, rfl⟩)

/-- Notes and rests in a row move the position by the sum of their lengths, each of them rounded. -/
theorem yields_walkAll (c : Cursor) {commands : List Command} (h : ∀ command ∈ commands, command.Timed) :
    (c.walkAll commands : Walk Number).outcome.Yields
      (fun d => ∃ lastPitch, d = c.advance (commands.map c.ticks).sum lastPitch)
      (c.Obstructs (commands.map fun command => |c.ticks command|).sum) := by
  induction commands generalizing c with
  | nil =>
    refine .ok ⟨c.lastPitch, ?_⟩
    rw [advance, List.map_nil, List.sum_nil, Int.cast_zero, add_zero]
  | cons command commands ih =>
    obtain ⟨hcommand, hcommands⟩ := List.forall_mem_cons.mp h
    have hrest : 0 ≤ (commands.map fun command => |c.ticks command|).sum :=
      List.sum_nonneg (List.forall_mem_map.mpr fun command _ => abs_nonneg _)
    have hstep : ((c.step command).map Prod.fst : Except Failure Cursor).Yields
        (fun d => ∃ lastPitch, d = c.advance (c.ticks command) lastPitch)
        (c.Obstructs (|c.ticks command| + (commands.map fun command => |c.ticks command|).sum)) :=
      ((c.yields_step hcommand).mono (fun _ h => h) fun _ he =>
        he.mono (le_add_of_nonneg_right hrest)).map fun _ h => h
    rw [walkAll, Walk.andThen_outcome, walk_of_not_block c hcommand.isBlock_eq, Walk.ofStep_outcome,
      List.map_cons, List.map_cons, List.sum_cons, List.sum_cons]
    refine hstep.bind ?_
    rintro _ ⟨lastPitch, rfl⟩
    refine (ih (c.advance (c.ticks command) lastPitch) hcommands).mono ?_ fun e he => he.of_advance
    rintro _ ⟨lastPitch', rfl⟩
    refine ⟨lastPitch', ?_⟩
    rw [advance, advance, advance, Int.cast_add, add_assoc]
    rfl

/-! ### The error of rounding -/

section Error
variable (c : Cursor)

private theorem abs_ticks_sub_le (command : Command) :
    |(c.ticks command : Rat) - c.exactLength command| ≤ 1 / 2 := by
  have hlow := Int.floor_le (c.exactLength command + 1 / 2)
  have hhigh := Int.lt_floor_add_one (c.exactLength command + 1 / 2)
  rw [ticks, abs_le]
  constructor <;> linarith

private theorem ticks_of_eq_intCast {command : Command} {n : Int} (h : c.exactLength command = n) :
    c.ticks command = n := by
  rw [ticks, h, Int.floor_eq_iff]
  constructor <;> linarith

/-- Half a tick for each note or rest. -/
theorem abs_sum_ticks_sub_le (commands : List Command) :
    |((commands.map c.ticks).sum : Rat) - (commands.map c.exactLength).sum| ≤
      commands.length / 2 := by
  induction commands with
  | nil => simp
  | cons command commands ih =>
    have hsplit : ((c.ticks command + (commands.map c.ticks).sum : Int) : Rat) -
        (c.exactLength command + (commands.map c.exactLength).sum) =
          (c.ticks command - c.exactLength command) +
            ((commands.map c.ticks).sum - (commands.map c.exactLength).sum) := by
      push_cast
      ring
    rw [List.map_cons, List.map_cons, List.sum_cons, List.sum_cons, hsplit, List.length_cons, Nat.cast_succ]
    linarith [abs_add_le (c.ticks command - c.exactLength command : Rat)
      ((commands.map c.ticks).sum - (commands.map c.exactLength).sum), c.abs_ticks_sub_le command]

private theorem sum_ticks_eq {commands : List Command}
    (h : ∀ command ∈ commands, ∃ n : Int, c.exactLength command = n) :
    ((commands.map c.ticks).sum : Rat) = (commands.map c.exactLength).sum := by
  have hsame : (commands.map c.ticks).map ((↑) : Int → Rat) = commands.map c.exactLength := by
    rw [List.map_map]
    refine List.map_congr_left fun command hcommand => ?_
    obtain ⟨n, hn⟩ := h command hcommand
    rw [Function.comp_apply, c.ticks_of_eq_intCast hn, hn]
  rw [← hsame, Int.cast_list_sum]

end Error

/-! ### Plain notes -/

/-- A note of a whole number of ticks without any timing of its own. -/
theorem step_plain_note {α : Type} [Timebase α] {c : Cursor} {name sounding : String}
    {mark : Option Mark} {p : Int} (hsounding : c.soundingName name mark = .ok sounding)
    (hp : NoteName.pitch sounding = .ok p) {ticks : Nat}
    (hlength : c.noteLength * c.stretch = ticks) {start duration : α}
    (hstart : Ticks.toBeats c.position = .ok start)
    (hduration : Ticks.toBeats (ticks : Rat) = .ok duration) (span : Option Span) :
    c.step (.note name mark .plain (span.map .span)) =
      .ok (c.advance ticks (some p), [.note c.track sounding start duration (span.map .span)]) := by
  have hregular : Timing.plain.Regular := ⟨fun _ hm => (by cases hm), fun _ hk => (by cases hk), rfl⟩
  have hfactor : Timing.plain.factor = 1 := by
    rw [Timing.factor, Timing.plain]
    norm_num
  have hticks : c.length .plain = .ok (ticks : Int) := by
    have hfloor : ⌊(ticks : Rat) + 1 / 2⌋ = (ticks : Int) := by
      rw [Int.floor_eq_iff, Int.cast_natCast]
      constructor <;> linarith
    rw [c.length_of_regular hregular, hlength, hfactor, mul_one, hfloor]
  have hplace : c.place .plain ticks = .ok (c.position, c.position + (ticks : Int)) := rfl
  have hfixed : (span.map Location.span).mapM Location.fixed = .ok (span.map Location.span) := by
    cases span <;> rfl
  exact note_of_parts hticks hsounding hplace hp hstart (by rwa [Int.cast_natCast]) hfixed

/-! ### Tuplets -/

/-- The ticks of one of so many notes that a beat is divided into. -/
def tupletTicks (n : Nat) : Int := ⌊(48 / n : Rat) + 1 / 2⌋

private theorem tupletTicks_nonneg (n : Nat) : 0 ≤ tupletTicks n := by
  have hlength : (0 : Rat) ≤ 48 / n := by positivity
  exact Int.floor_nonneg.mpr (by linarith)

/-- What is half a tick or more is less than twice as long when it is rounded. -/
theorem mul_tupletTicks_le {n : Nat} (hn : 1 ≤ n) : n * tupletTicks n ≤ 96 := by
  have hpos : (0 : Rat) < n := Nat.cast_pos.mpr hn
  have hfloor := Int.floor_le ((48 / n : Rat) + 1 / 2)
  have htwice : (tupletTicks n : Rat) ≤ 96 / n := by
    have hlength : (0 : Rat) ≤ 96 / n := by positivity
    have hdouble : (96 / n : Rat) = 48 / n + 48 / n := by ring
    rcases (tupletTicks_nonneg n).eq_or_lt with hzero | hone
    · rw [← hzero, Int.cast_zero]
      exact hlength
    · have hone' : (1 : Rat) ≤ tupletTicks n := by exact_mod_cast hone
      rw [tupletTicks] at hone' ⊢
      linarith
  rw [le_div_iff₀ hpos] at htwice
  rw [mul_comm]
  exact_mod_cast htwice

private theorem mul_tupletTicks_eq_iff {n : Nat} (hn : 1 ≤ n) :
    n * tupletTicks n = 48 ↔ n ∣ 48 := by
  have hpos : (n : Rat) ≠ 0 := Nat.cast_ne_zero.mpr (by omega)
  constructor
  · intro h
    exact Int.natCast_dvd_natCast.mp ⟨tupletTicks n, h.symm⟩
  · rintro ⟨k, hk⟩
    have hlength : (48 / n : Rat) = (k : Int) := by
      rw [div_eq_iff hpos, Int.cast_natCast, mul_comm]
      exact_mod_cast hk
    have hticks : tupletTicks n = k := by
      rw [tupletTicks, hlength, Int.floor_eq_iff]
      constructor <;> linarith
    rw [hticks]
    exact_mod_cast hk.symm

private theorem ticks_tuplet (octave : Int) (n : Nat) (name : String) (mark : Option Mark)
    (location : Option Location) :
    (initial octave).ticks (.note name mark ⟨some (.ratio (1 / n)), none, none⟩ location) =
      tupletTicks n := by
  have hexact : (48 : Rat) * 1 * (1 / n * (2 - (1 / 2) ^ 0)) = 48 / n := by ring
  exact congrArg (fun length : Rat => ⌊length + 1 / 2⌋) hexact

/-- From beat zero on, only 48 ticks come to beat one. -/
theorem toBeats_eq_one_iff {ticks : Int} (h0 : 0 ≤ ticks) (h : ticks ≤ 96) :
    Ticks.toBeats (ticks : Rat) = .ok (Number.approx (.finite 1)) ↔ ticks = 48 := by
  have hlow : (0 : Rat) ≤ ticks := Int.cast_nonneg h0
  have hhigh : (ticks : Rat) ≤ 96 := by exact_mod_cast h
  have hbeats : (ticks : Rat) / Ticks.perBeat ≤ 2 ^ 1 := by
    rw [Ticks.perBeat]
    linarith
  rw [Ticks.toBeats_of_nonneg hlow hbeats (by decide), Except.ok.injEq, Number.approx.injEq,
    Binary64.finite.injEq, Ticks.perBeat]
  constructor
  · intro hone
    have hbelow : Binary64.rounded (47 / 48) < 1 := by decide +kernel
    have habove : 1 < Binary64.rounded (49 / 48) := by decide +kernel
    by_contra hne
    rcases lt_or_gt_of_ne hne with hlt | hgt
    · have hle : (ticks : Rat) ≤ 47 := by exact_mod_cast Int.le_sub_one_of_lt hlt
      refine hbelow.not_ge (hone ▸ Binary64.rounded_mono (by positivity) ?_)
      linarith
    · have hle : (49 : Rat) ≤ ticks := by exact_mod_cast hgt
      refine habove.not_ge (hone ▸ Binary64.rounded_mono (by norm_num) ?_)
      linarith
  · rintro rfl
    rw [Int.cast_ofNat, div_self (by norm_num)]
    exact_mod_cast Binary64.rounded_natCast (n := 1) (by norm_num)

/-- Within two beats from the start of a song nothing is out of range. -/
theorem not_obstructs_initial (octave : Int) {ticks : Int} (h : ticks ≤ 96) {e : Failure} :
    ¬ (initial octave).Obstructs ticks e := by
  rintro (hkey | ⟨-, hbound⟩)
  · cases hkey
  · have hticks : (ticks : Rat) ≤ 96 := by exact_mod_cast h
    have hpow : (2 : Rat) ^ 1 < 2 ^ 1023 := pow_lt_pow_right₀ one_lt_two (by decide)
    have hstart : |(initial octave).position| = 0 := abs_zero
    rw [hstart, Ticks.perBeat] at hbound
    generalize (2 : Rat) ^ 1023 = power at hbound hpow
    linarith

/-- From the start of a song, the notes that divide a beat move the position by the sum of their
ticks. -/
theorem walkAll_tuplets (octave : Int) {n : Nat} (hn : 1 ≤ n) {commands : List Command}
    (hlength : commands.length = n)
    (h : ∀ command ∈ commands, ∃ letter octave mark span, command =
      .note (inParts letter .natural octave) mark ⟨some (.ratio (1 / n)), none, none⟩
        (Option.map .span span)) :
    ∃ lastPitch, ((initial octave).walkAll commands : Walk Number).outcome =
      .ok ((initial octave).advance (n * tupletTicks n) lastPitch) := by
  have hregular : (⟨some (.ratio (1 / n)), none, none⟩ : Timing).Regular := by
    refine ⟨fun m hm => ⟨n, hn, .inr (.inr (Option.some.inj hm).symm)⟩, fun k hk => ?_, rfl⟩
    cases hk
  have htimed : ∀ command ∈ commands, command.Timed := by
    intro command hcommand
    obtain ⟨letter, octave', mark, span, rfl⟩ := h command hcommand
    exact .note letter octave' mark span hregular
  have hticks : ∀ command ∈ commands, (initial octave).ticks command = tupletTicks n := by
    intro command hcommand
    obtain ⟨letter, octave', mark, span, rfl⟩ := h command hcommand
    exact ticks_tuplet octave n _ mark _
  have hsum : (commands.map (initial octave).ticks).sum = n * tupletTicks n := by
    rw [List.map_congr_left hticks, List.map_const', List.sum_replicate, hlength, nsmul_eq_mul]
  have hreach : (commands.map fun command => |(initial octave).ticks command|).sum =
      n * tupletTicks n := by
    rw [← hsum]
    refine congrArg List.sum (List.map_congr_left fun command hcommand => ?_)
    rw [hticks command hcommand, abs_of_nonneg (tupletTicks_nonneg n)]
  have hyields := (initial octave).yields_walkAll htimed
  rw [hsum, hreach] at hyields
  obtain ⟨_, hd, lastPitch, rfl⟩ :=
    hyields.exists_good fun _ => not_obstructs_initial octave (mul_tupletTicks_le hn)
  exact ⟨lastPitch, hd⟩

/-- Notes and rests without starts move the position by a whole number of ticks, whatever the state
they are compiled in. It differs from the sum of their exact lengths by half a tick for each of them
at most, and not at all where all lengths are whole. From the start of a song, the notes that divide a
beat come to the end of it if their number divides 48, and only then. -/
theorem walkAll_lengths :
    (∀ (c : Cursor) (commands : List Command), (∀ command ∈ commands, command.Timed) →
      (c.walkAll commands : Walk Number).outcome.Yields
        (fun d => ∃ ticks : Int, d.position = c.position + ticks ∧
          |(ticks : Rat) - (commands.map c.exactLength).sum| ≤ commands.length / 2 ∧
          ((∀ command ∈ commands, ∃ n : Int, c.exactLength command = n) →
            (ticks : Rat) = (commands.map c.exactLength).sum))
        (c.Obstructs (commands.map fun command => |c.ticks command|).sum)) ∧
    ∀ (octave : Int) (n : Nat) (commands : List Command), 1 ≤ n → commands.length = n →
      (∀ command ∈ commands, ∃ letter octave mark span, command =
        .note (inParts letter .natural octave) mark ⟨some (.ratio (1 / n)), none, none⟩
          (Option.map .span span)) →
      ∃ d, ((initial octave).walkAll commands : Walk Number).outcome = .ok d ∧
        (d.position = Ticks.perBeat ↔ n ∣ 48) ∧
        (d.beat = .ok (Number.approx (.finite 1)) ↔ n ∣ 48) := by
  constructor
  · intro c commands h
    refine (c.yields_walkAll h).mono ?_ fun _ he => he
    rintro _ ⟨lastPitch, rfl⟩
    exact ⟨(commands.map c.ticks).sum, rfl, c.abs_sum_ticks_sub_le commands, c.sum_ticks_eq⟩
  · intro octave n commands hn hlength h
    obtain ⟨lastPitch, hd⟩ := walkAll_tuplets octave hn hlength h
    have hnonneg : 0 ≤ n * tupletTicks n :=
      mul_nonneg (Int.natCast_nonneg n) (tupletTicks_nonneg n)
    have hle := mul_tupletTicks_le hn
    have hiff : (n * tupletTicks n = 48) ↔ n ∣ 48 := mul_tupletTicks_eq_iff hn
    generalize (n : Int) * tupletTicks n = ticks at hd hnonneg hle hiff
    have hposition : ((initial octave).advance ticks lastPitch).position = ticks := zero_add _
    refine ⟨_, hd, ?_, ?_⟩
    · rw [hposition, ← hiff, Ticks.perBeat]
      exact_mod_cast Iff.rfl
    · rw [beat, hposition, ← hiff]
      exact toBeats_eq_one_iff hnonneg hle

theorem walkAll_lengths_triplet :
    let triplet (letter : Letter) : Command :=
      .note (inParts letter .natural none) none ⟨some (.ratio (1 / (3 : Nat))), none, none⟩
        (Option.map .span none)
    let dotted : Command := .rest ⟨some (.ratio (1 / (5 : Nat))), some 1, none⟩
    (∃ d ticks, ((initial 4).walkAll [dotted, dotted, dotted] : Walk Number).outcome = .ok d ∧
      d.position = (initial 4).position + (ticks : Int) ∧
      |(ticks : Rat) - ([dotted, dotted, dotted].map (initial 4).exactLength).sum| ≤
        ([dotted, dotted, dotted].length : Nat) / 2) ∧
    ∃ d, ((initial 4).walkAll [triplet .C, triplet .D, triplet .E] : Walk Number).outcome = .ok d ∧
      d.position = Ticks.perBeat := by
  intro triplet dotted
  constructor
  · have hregular : (⟨some (.ratio (1 / (5 : Nat))), some 1, none⟩ : Timing).Regular := by
      refine ⟨fun m hm => ⟨5, by decide, .inr (.inr (Option.some.inj hm).symm)⟩, fun k hk => ?_, rfl⟩
      obtain rfl := Option.some.inj hk
      decide
    have htimed : ∀ command ∈ [dotted, dotted, dotted], command.Timed := by
      intro command hcommand
      obtain rfl : command = dotted := by simpa using hcommand
      exact .rest hregular
    obtain ⟨d, hd⟩ : ∃ d, ((initial 4).walkAll [dotted, dotted, dotted] : Walk Number).outcome =
        .ok d := Except.exists_eq_ok (by decide +kernel)
    have hyields := walkAll_lengths.1 (initial 4) _ htimed
    rw [hd] at hyields
    obtain ⟨ticks, hposition, herror, -⟩ := hyields.of_ok
    exact ⟨d, ticks, hd, hposition, herror⟩
  · have htuplet : ∀ command ∈ [triplet .C, triplet .D, triplet .E], ∃ letter octave mark span,
        command = .note (inParts letter .natural octave) mark
          ⟨some (.ratio (1 / (3 : Nat))), none, none⟩ (Option.map .span span) := by
      simp only [List.forall_mem_cons, List.not_mem_nil, false_imp_iff, implies_true, and_true]
      exact ⟨⟨.C, none, none, none, rfl⟩, ⟨.D, none, none, none, rfl⟩, ⟨.E, none, none, none, rfl⟩⟩
    obtain ⟨d, hd, hposition, -⟩ := walkAll_lengths.2 4 3 _ (by decide) rfl htuplet
    exact ⟨d, hd, hposition.mpr (by decide)⟩

end Cursor
end LeadSheet
