import LeadSheet.Proofs.Accompaniment.Grid
import LeadSheet.Proofs.Number.Unrounded

/-!
How chords cut time into blocks, in arithmetic that is not rounded. Chords are placed from the last
one on, and what is kept stays cut: each block ends with its measure or where the next one starts,
so that the blocks ascend. Chords in any order give such blocks; of chords in order, only those are
rejected that share their beat with a later one.
-/
namespace LeadSheet.ChordBlocks
open Number (StandsFor Unrounded)
variable {β : Type}

/-- The first line behind a beat, in measures of a length. -/
def lineBehind (beats start : Rat) : Rat := (⌊start / beats⌋ + 1) * beats

/-- The end of the measure of a beat is not rounded. -/
structure CutExactly (beats beat : Number) : Prop where
  start : beat.StandsFor beat.exact
  line : Unrounded (measureEnd beats beat) (lineBehind beats.exact beat.exact)

/-- Where the block of a beat ends in front of the blocks behind it. -/
def endBefore (beats start : Number) (behind : List (ChordBlock Number β)) : Rat :=
  match behind with
  | [] => lineBehind beats.exact start.exact
  | next :: _ => min (lineBehind beats.exact start.exact) next.start.exact

/-- The chord of a block, with the beat at which it starts. -/
def marker (b : ChordBlock Number β) : Number × β := (b.start, b.chord)

/-- Blocks that are cut by their measures and by each other. -/
inductive Cut (beats : Number) : List (ChordBlock Number β) → Prop
  | nil : Cut beats []
  | cons {b : ChordBlock Number β} {behind : List (ChordBlock Number β)}
      (start : b.start.StandsFor b.start.exact)
      (stop : b.stop.StandsFor (endBefore beats b.start behind))
      (lasts : b.start.exact < b.stop.exact) (rest : Cut beats behind) : Cut beats (b :: behind)

/-- Chords that are given in the order of their beats. -/
def InOrder (chords : List (Number × β)) : Prop :=
  chords.Pairwise fun a b => a.1.le b.1 = true

/-- The last chord at each beat. -/
def lastAtBeat : List (Number × β) → List (Number × β)
  | [] => []
  | chord :: rest =>
    if rest.any fun later => later.1.same chord.1 then lastAtBeat rest
    else chord :: lastAtBeat rest

private theorem lt_lineBehind {beats : Rat} (hpos : 0 < beats) (start : Rat) :
    start < lineBehind beats start := by
  have h := mul_lt_mul_of_pos_right (Int.lt_floor_add_one (start / beats)) hpos
  rwa [div_mul_cancel₀ _ hpos.ne'] at h

/-- Whole numbers and ratios are not rounded. -/
theorem cutExactly_of_exact {beats beat : Number} (hbeats : beats.Exact) (hbeat : beat.Exact)
    (hne : beats.exact ≠ 0) : CutExactly beats beat := by
  obtain ⟨line, hline, hexact, heq⟩ := (Number.Exact.whole (⌊beat.exact / beats.exact⌋ + 1)).mul hbeats
  have hend : measureEnd beats beat = .ok line := by
    have hquotient : Timebase.floorDiv beat beats = _ := hbeat.floorDiv hbeats hne
    rw [measureEnd, hquotient]
    exact hline
  refine ⟨hbeat.standsFor, line, hend, ?_⟩
  rw [lineBehind, ← Int.cast_one, ← Int.cast_add]
  exact heq ▸ hexact.standsFor

/-- Approximations are not rounded in measures of whole lengths, as far as binary64 numbers reach all
integers. -/
theorem cutExactly_finite {n : Nat} (hn : 0 < n) {x : Rat} (hx : 0 ≤ x) (hle : x + n ≤ 2 ^ 53) :
    CutExactly (.whole n) (.approx (.finite x)) := by
  have hpos : (0 : Rat) < n := Nat.cast_pos.mpr hn
  obtain ⟨k, hk⟩ := Int.eq_ofNat_of_zero_le (Int.floor_nonneg.mpr (div_nonneg hx hpos.le))
  have hfit : ((k + 1) * n : Nat) ≤ 2 ^ 53 := by
    have hfloor := Int.floor_le (x / n)
    rw [hk, le_div_iff₀ hpos, Int.cast_natCast] at hfloor
    have hbound : (((k + 1) * n : Nat) : Rat) ≤ (2 ^ 53 : Nat) := by
      push_cast
      linarith
    exact_mod_cast hbound
  have hmultiple : (k + 1) * n = k * n + n := Nat.succ_mul k n
  have hkn : k + 1 ≤ (k + 1) * n := Nat.le_mul_of_pos_right _ hn
  have hnn : n ≤ (k + 1) * n := Nat.le_mul_of_pos_left _ k.succ_pos
  have hquotient : Binary64.floorDiv (.finite x) (.finite n) = .finite k := by
    refine Binary64.floorDiv_of_multiple hx hpos (by omega) hk ?_
    rw [← Nat.cast_mul]
    exact Binary64.round_natCast (by omega)
  have hend := measureEnd_finite hpos (Number.toBinary64_natCast (by omega)) hquotient (by omega)
  rw [← Nat.cast_mul, Binary64.round_natCast hfit] at hend
  refine ⟨rfl, _, hend, ?_⟩
  have hline : lineBehind (Number.whole n).exact (Number.approx (.finite x)).exact =
      ((k + 1) * n : Nat) := by
    change ((⌊x / (n : Int)⌋ : Rat) + 1) * ((n : Int) : Rat) = _
    rw [Int.cast_natCast, hk]
    push_cast
    rfl
  rw [hline]
  exact Number.standsFor_finite _

private theorem endBefore_le_lineBehind (beats start : Number)
    (behind : List (ChordBlock Number β)) :
    endBefore beats start behind ≤ lineBehind beats.exact start.exact := by
  cases behind with
  | nil => exact le_refl _
  | cons next behind => exact min_le_left _ _

/-! ### Blocks that are cut -/

namespace Cut
variable {beats : Number} {b : ChordBlock Number β} {front behind : List (ChordBlock Number β)}

private theorem head_start (h : Cut beats (b :: behind)) : b.start.StandsFor b.start.exact := by
  cases h with
  | cons start _ _ _ => exact start

private theorem stop_standsFor (h : Cut beats (front ++ b :: behind)) :
    b.stop.StandsFor (endBefore beats b.start behind) := by
  induction front with
  | nil =>
    cases h with
    | cons _ stop _ _ => exact stop
  | cons a front ih =>
    cases h with
    | cons _ _ _ rest => exact ih rest

private theorem forall_mem (h : Cut beats behind) : ∀ b ∈ behind, b.start.StandsFor b.start.exact ∧
    b.stop.StandsFor b.stop.exact ∧ b.start.exact < b.stop.exact ∧
    b.stop.exact ≤ lineBehind beats.exact b.start.exact := by
  induction h with
  | nil => exact fun _ hb => (List.not_mem_nil hb).elim
  | cons start stop lasts _ ih =>
    refine List.forall_mem_cons.mpr ⟨⟨start, stop.exact, lasts, ?_⟩, ih⟩
    rw [stop.exact_eq]
    exact endBefore_le_lineBehind _ _ _

/-- What is not behind the first start is behind no later one. -/
theorem le_start (h : Cut beats (b :: behind)) {q : Rat} (hq : q ≤ b.start.exact) :
    ∀ later ∈ b :: behind, q ≤ later.start.exact := by
  induction behind generalizing b q with
  | nil => exact List.forall_mem_singleton.mpr hq
  | cons next behind ih =>
    cases h with
    | cons start stop lasts rest =>
      have hnext : b.stop.exact ≤ next.start.exact := by
        rw [stop.exact_eq]
        exact min_le_right _ _
      exact List.forall_mem_cons.mpr ⟨hq, ih rest (hq.trans (lasts.le.trans hnext))⟩

/-- No block ends behind the start of a later one. -/
theorem pairwise (h : Cut beats behind) :
    behind.Pairwise fun a b => a.stop.exact ≤ b.start.exact := by
  induction h with
  | nil => exact .nil
  | @cons b behind start stop lasts rest ih =>
    refine List.pairwise_cons.mpr ⟨?_, ih⟩
    cases behind with
    | nil => exact fun _ hb => (List.not_mem_nil hb).elim
    | cons next behind =>
      apply rest.le_start
      rw [stop.exact_eq]
      exact min_le_right _ _

end Cut

/-! ### Placing chords -/

/-- A chord is placed up to its end. -/
theorem exists_place {beats start : Number} {kept : List (ChordBlock Number β)}
    (h : CutExactly beats start) (hcut : Cut beats kept) (chord : β)
    (rejected : List (ChordBlock Number β)) :
    ∃ stop : Number, stop.StandsFor (endBefore beats start kept) ∧
      place beats start chord ⟨kept, rejected⟩ =
        .ok (if stop.le start then ⟨kept, ⟨start, stop, chord⟩ :: rejected⟩
          else ⟨⟨start, stop, chord⟩ :: kept, rejected⟩) := by
  obtain ⟨line, hline, hstands⟩ := h.line
  cases kept with
  | nil => exact ⟨line, hstands, by rw [place, hline]; rfl⟩
  | cons next behind =>
    exact ⟨_, hstands.least hcut.head_start, by rw [place, hline]; rfl⟩

/-- When a chord has been placed, the blocks are cut as before, and its own stands in front of them
unless it would not last. -/
theorem Cut.place {beats start : Number} {blocks : ChordBlocks Number β}
    (hcut : Cut beats blocks.kept) (h : CutExactly beats start) (chord : β) :
    ∃ blocks', ChordBlocks.place beats start chord blocks = .ok blocks' ∧ Cut beats blocks'.kept ∧
      if endBefore beats start blocks.kept ≤ start.exact then blocks'.kept = blocks.kept
      else ∃ stop, blocks'.kept = ⟨start, stop, chord⟩ :: blocks.kept := by
  obtain ⟨stop, hstop, hplace⟩ := exists_place h hcut chord blocks.rejected
  refine ⟨_, hplace, ?_⟩
  by_cases hle : endBefore beats start blocks.kept ≤ start.exact
  · rw [if_pos hle, if_pos ((hstop.le_iff h.start).mpr hle)]
    exact ⟨hcut, rfl⟩
  · rw [if_neg hle, if_neg fun hstop' => hle ((hstop.le_iff h.start).mp hstop')]
    refine ⟨.cons h.start hstop ?_ hcut, stop, rfl⟩
    rw [hstop.exact_eq]
    exact not_le.mp hle

/-- Chords in any order are placed, and the blocks that are kept are cut. -/
theorem exists_cut_ofChords {beats : Number} {chords : List (Number × β)}
    (h : ∀ chord ∈ chords, CutExactly beats chord.1) :
    ∃ blocks, ofChords beats chords = (blocks, .ok ()) ∧ Cut beats blocks.kept ∧
      (blocks.kept.map marker).Sublist chords := by
  induction chords with
  | nil => exact ⟨empty, rfl, .nil, .slnil⟩
  | cons chord chords ih =>
    obtain ⟨hfirst, hrest⟩ := List.forall_mem_cons.mp h
    obtain ⟨blocks, hblocks, hcut, hsub⟩ := ih hrest
    obtain ⟨blocks', hplace, hcut', hkept⟩ := hcut.place hfirst chord.2
    refine ⟨blocks', ?_, hcut', ?_⟩
    · rw [ofChords, hblocks]
      dsimp only
      rw [hplace]
    · split_ifs at hkept
      · rw [hkept]
        exact hsub.cons chord
      · obtain ⟨stop, hkept⟩ := hkept
        rw [hkept]
        exact hsub.cons_cons chord

/-! ### Chords in order -/

/-- The beat of the first chord. -/
def firstBeat (chords : List (Number × β)) : Option Rat := chords.head?.map fun chord => chord.1.exact

private theorem InOrder.le_firstBeat {chord : Number × β} {chords : List (Number × β)}
    (horder : InOrder (chord :: chords)) (h : ∀ c ∈ chord :: chords, c.1.StandsFor c.1.exact)
    {q : Rat} (hq : firstBeat chords = some q) : chord.1.exact ≤ q := by
  cases chords with
  | nil => cases hq
  | cons next rest =>
    obtain rfl := Option.some.inj hq
    have hmem : next ∈ next :: rest := List.mem_cons_self ..
    have hle := (List.pairwise_cons.mp horder).1 next hmem
    exact ((h chord (List.mem_cons_self ..)).le_iff (h next (List.mem_cons_of_mem _ hmem))).mp hle

/-- Behind a chord in order, another one at the same beat follows just if the next one is there. -/
theorem InOrder.any_same_iff {chord : Number × β} {chords : List (Number × β)}
    (horder : InOrder (chord :: chords)) (h : ∀ c ∈ chord :: chords, c.1.StandsFor c.1.exact) :
    (chords.any fun later => later.1.same chord.1) = true ↔
      firstBeat chords = some chord.1.exact := by
  obtain ⟨hchord, hbehind⟩ := List.forall_mem_cons.mp h
  rw [List.any_eq_true]
  cases chords with
  | nil => exact iff_of_false (by rintro ⟨c, hc, -⟩; cases hc) (by rintro ⟨⟩)
  | cons next rest =>
    have hnext := hbehind next (List.mem_cons_self ..)
    constructor
    · rintro ⟨later, hmem, hsame⟩
      have heq := ((hbehind later hmem).same_iff hchord).mp hsame
      -- the next chord lies between this one and the one at the same beat
      have hle : next.1.exact ≤ later.1.exact := by
        rcases List.mem_cons.mp hmem with rfl | hlater
        · exact le_refl _
        · have hnl := (List.pairwise_cons.mp (List.pairwise_cons.mp horder).2).1 later hlater
          exact (hnext.le_iff (hbehind later hmem)).mp hnl
      exact congrArg some ((hle.trans_eq heq).antisymm (horder.le_firstBeat h rfl))
    · intro heq
      exact ⟨next, List.mem_cons_self .., (hnext.same_iff hchord).mpr (Option.some.inj heq)⟩

/-- In front of blocks that start with the first of some chords, a block up to them would not last
just if it is at the same beat. -/
theorem endBefore_le_iff {beats start : Number} (hpos : 0 < beats.exact)
    {kept : List (ChordBlock Number β)} {q? : Option Rat} (hhead : firstBeat (kept.map marker) = q?)
    (hle : ∀ q, q? = some q → start.exact ≤ q) :
    endBefore beats start kept ≤ start.exact ↔ q? = some start.exact := by
  have hline := lt_lineBehind hpos start.exact
  subst hhead
  cases kept with
  | nil => exact iff_of_false (not_le.mpr hline) (by rintro ⟨⟩)
  | cons next behind =>
    calc endBefore beats start (next :: behind) ≤ start.exact
        ↔ next.start.exact ≤ start.exact := min_le_iff.trans (or_iff_right (not_le.mpr hline))
      _ ↔ next.start.exact = start.exact := (hle _ rfl).ge_iff_eq'
      _ ↔ some next.start.exact = some start.exact := Option.some_inj.symm

/-- With the chords in order, the chords that are kept are the last ones at their beats, and the first
block starts at the first beat. -/
theorem kept_ofChords_inOrder {beats : Number} (hpos : 0 < beats.exact)
    {chords : List (Number × β)} (h : ∀ chord ∈ chords, CutExactly beats chord.1)
    (horder : InOrder chords) {blocks : ChordBlocks Number β}
    (hblocks : ofChords beats chords = (blocks, .ok ())) :
    blocks.kept.map marker = lastAtBeat chords ∧
      firstBeat (blocks.kept.map marker) = firstBeat chords := by
  induction chords generalizing blocks with
  | nil =>
    cases hblocks
    exact ⟨rfl, rfl⟩
  | cons chord chords ih =>
    obtain ⟨hfirst, hrest⟩ := List.forall_mem_cons.mp h
    obtain ⟨behind, hbehind, hcut, -⟩ := exists_cut_ofChords hrest
    obtain ⟨hlast, hhead⟩ := ih hrest horder.of_cons hbehind
    obtain ⟨placed, hplace, -, hkept⟩ := hcut.place hfirst chord.2
    obtain rfl : placed = blocks := by
      rw [ofChords, hbehind] at hblocks
      dsimp only at hblocks
      rw [hplace] at hblocks
      exact (Prod.mk.inj hblocks).1
    have hstands : ∀ c ∈ chord :: chords, c.1.StandsFor c.1.exact := fun c hc => (h c hc).start
    have hends := endBefore_le_iff hpos hhead fun q => horder.le_firstBeat hstands
    have hsame := horder.any_same_iff hstands
    rw [lastAtBeat, ← hlast]
    by_cases heq : firstBeat chords = some chord.1.exact
    · rw [if_pos (hends.mpr heq)] at hkept
      rw [if_pos (hsame.mpr heq), hkept]
      exact ⟨rfl, hhead.trans heq⟩
    · rw [if_neg (hends.not.mpr heq)] at hkept
      obtain ⟨stop, hkept⟩ := hkept
      rw [if_neg (hsame.not.mpr heq), hkept]
      exact ⟨rfl, rfl⟩

/-! ### All chords -/

/-- A block lies in one measure, counted from beat zero on. -/
def InCell (beats : Rat) (b : ChordBlock Number β) : Prop :=
  ∃ i : Int, i * beats ≤ b.start.exact ∧ b.stop.exact ≤ (i + 1) * beats

private theorem inCell_of_le {beats : Number} (hpos : 0 < beats.exact) {b : ChordBlock Number β}
    (h : b.stop.exact ≤ lineBehind beats.exact b.start.exact) : InCell beats.exact b :=
  ⟨⌊b.start.exact / beats.exact⌋, (le_div_iff₀ hpos).mp (Int.floor_le _), h⟩

/-- Chords in any order give blocks that last, each within its measure and up to the next one at
most. With the chords in order, only those are left out that share their beat with a later one. -/
theorem exists_blocks_inMeasures {beats : Number} {chords : List (Number × β)} (hne : chords ≠ [])
    (hpos : 0 < beats.exact) (h : ∀ chord ∈ chords, CutExactly beats chord.1) :
    ∃ blocks, inMeasures (some beats) chords = (blocks, .ok ()) ∧
      (blocks.kept.map marker).Sublist chords ∧
      (∀ b ∈ blocks.kept, b.start.lt b.stop = true ∧ InCell beats.exact b) ∧
      (blocks.kept.Pairwise fun a b => a.stop.le b.start = true) ∧
      (∀ front b behind, blocks.kept = front ++ b :: behind →
        b.stop.StandsFor (endBefore beats b.start behind)) ∧
      (InOrder chords → blocks.kept.map marker = lastAtBeat chords) := by
  obtain ⟨blocks, hblocks, hcut, hsub⟩ := exists_cut_ofChords h
  have hkept := hcut.forall_mem
  refine ⟨blocks, ?_, hsub, ?_, ?_, ?_, ?_⟩
  · rw [inMeasures, List.isEmpty_eq_false_iff.mpr hne]
    exact hblocks
  · intro b hb
    obtain ⟨hstart, hstop, hlt, hle⟩ := hkept b hb
    exact ⟨(hstart.lt_iff hstop).mpr hlt, inCell_of_le hpos hle⟩
  · refine hcut.pairwise.imp_of_mem fun ha hb hle => ?_
    exact ((hkept _ ha).2.1.le_iff (hkept _ hb).1).mpr hle
  · rintro front b behind heq
    rw [heq] at hcut
    exact hcut.stop_standsFor
  · exact fun horder => (kept_ofChords_inOrder hpos h horder hblocks).1

/-- Two chords at beat two, of which the later one stays, and chords at beats of all kinds. -/
theorem exists_blocks_inMeasures_kinds :
    let chords : List (Number × String) :=
      [(.approx (.finite 0), "C"), (.approx (.finite 2), "F"), (.whole 2, "G"),
        (.ratio (16 / 3), "Am"), (.approx (.finite (15 / 2)), "Dm")]
    ∃ blocks, inMeasures (some 4) chords = (blocks, .ok ()) ∧
      (blocks.kept.Pairwise fun a b => a.stop.le b.start = true) ∧
      blocks.kept.map marker = [(.approx (.finite 0), "C"), (.whole 2, "G"),
        (.ratio (16 / 3), "Am"), (.approx (.finite (15 / 2)), "Dm")] := by
  intro chords
  have hfinite {x : Rat} (hx : 0 ≤ x) (hle : x + 4 ≤ 2 ^ 53) : CutExactly 4 (.approx (.finite x)) :=
    cutExactly_finite (by decide) hx hle
  have hexact {beat : Number} (h : beat.Exact) : CutExactly 4 beat :=
    cutExactly_of_exact (.whole 4) h (by decide)
  have h : ∀ chord ∈ chords, CutExactly 4 chord.1 := by
    refine List.forall_mem_cons.mpr ⟨hfinite (by norm_num) (by norm_num), ?_⟩
    refine List.forall_mem_cons.mpr ⟨hfinite (by norm_num) (by norm_num), ?_⟩
    refine List.forall_mem_cons.mpr ⟨hexact (.whole 2), ?_⟩
    refine List.forall_mem_cons.mpr ⟨hexact (.ratio _), ?_⟩
    exact List.forall_mem_singleton.mpr (hfinite (by norm_num) (by norm_num))
  obtain ⟨blocks, hblocks, -, -, hapart, -, hlast⟩ :=
    exists_blocks_inMeasures (by decide) (by decide) h
  have horder : InOrder chords := by
    rw [InOrder]
    decide +kernel
  exact ⟨blocks, hblocks, hapart, (hlast horder).trans (by decide +kernel)⟩

end LeadSheet.ChordBlocks
