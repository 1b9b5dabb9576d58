import LeadSheet.Accompaniment.Basic
import LeadSheet.Proofs.Accompaniment.Block
import LeadSheet.Proofs.Accompaniment.Ceiling

/-!
An accompaniment below the melody. Generated notes that sound together with a note of the melody are
lower than it, since they end with the block of their chord and the ceiling of the block lies under
the melody. Only the long notes of the bossa nova outlast their block, and may meet what the melody
plays behind it.
-/
namespace LeadSheet

/-- Two notes sound at the same time. -/
def Note.Overlaps (a b : Note Rat) : Prop :=
  a.start < b.start + b.duration ∧ b.start < a.start + a.duration

namespace Accompaniment
open NoteName

private theorem Strategy.exists_ceiling_of_play {strategy : Strategy} {sheet : Sheet Rat}
    {settings : Settings} {symbol : ChordSymbol} {start stop : Rat} {played : List (Played Rat)}
    (h : strategy.play sheet settings symbol start stop = .ok played) :
    ∃ top, ceiling sheet settings start stop = .ok top := by
  cases strategy with
  | base => cases h
  | root | triad | rootAndFifth | arpeggio | bossaNova =>
    obtain ⟨top, htop, -⟩ := Except.bind_eq_ok_iff.mp h
    exact ⟨top, htop⟩

/-- What a strategy plays for a chord is lower than all notes of the melody that sound while the
chord holds. It starts meanwhile and, unless it is a bossa nova, ends meanwhile. -/
structure Played.BelowMelody (strategy : Strategy) (sheet : Sheet Rat) (start stop : Rat)
    (n : Played Rat) : Prop where
  start_le : start ≤ n.start
  stop_le : strategy ≠ .bossaNova → n.start + n.duration ≤ stop
  melody : ∀ m ∈ sheet.notes, start < m.start + m.duration → m.start < stop →
    ∃ p sharpen q, n.name = spell p sharpen ∧ pitch m.name = .ok q ∧ p < q

private theorem Strategy.below_melody_of_play {strategy : Strategy} {sheet : Sheet Rat}
    (hbeats : ∀ beats ∈ sheet.metadata.beatsPerMeasure, 0 < beats) {settings : Settings}
    {rate : Int} {spacing : Number} (hrate : settings.rateNumber = .ok (.whole rate))
    (hspacing : settings.spacingNumber = .ok spacing) (hexact : spacing.Exact)
    (hnonneg : 0 ≤ spacing.exact) {symbol : ChordSymbol} {shape : String}
    (hshape : symbol.shape = .named shape) {start stop : Rat} (hlt : start < stop)
    {played : List (Played Rat)}
    (h : strategy.play sheet settings symbol start stop = .ok played) :
    played ≠ [] ∧ ∀ n ∈ played, n.BelowMelody strategy sheet start stop := by
  obtain ⟨top, htop⟩ := Strategy.exists_ceiling_of_play h
  obtain ⟨htopExact, hmelody⟩ := ceiling_eq_ok hspacing hexact htop
  obtain ⟨hne, hplayed⟩ := Strategy.below_of_play hbeats hlt hrate htop htopExact hshape h
  refine ⟨hne, ?_⟩
  intro n hn
  obtain ⟨⟨p, sharpen, hname, -, hp⟩, hstart, hstop⟩ := hplayed n hn
  refine ⟨hstart, hstop, ?_⟩
  intro m hm hfrom huntil
  obtain ⟨q, hq, hle⟩ := hmelody m hm hfrom huntil
  have hpq : (p : Rat) < q := by linarith
  exact ⟨p, sharpen, q, hname, hq, Int.cast_lt.mp hpq⟩

/-- Blocks are there only where measures have a positive length. -/
theorem of_mem_blocks {sheet : Sheet Rat} {b : ChordBlock Rat ChordSymbol}
    (hb : b ∈ (blocks sheet).1.kept) :
    b.start < b.stop ∧ (b.start, b.chord) ∈ sheet.chords ∧
      ∀ beats ∈ sheet.metadata.beatsPerMeasure, 0 < beats := by
  obtain ⟨beats, hknown, hlasts⟩ := ChordBlocks.lasts_of_mem_inMeasures hb
  obtain ⟨hmeasure, -⟩ := Option.filter_eq_some_iff.mp hknown
  refine ⟨hlasts.lt, hlasts.mem, ?_⟩
  intro beats' hbeats'
  obtain rfl := Option.some.inj (hmeasure.symm.trans hbeats')
  exact ChordBlocks.pos_of_lasts hlasts

/-- The place of a note that a strategy makes for a chord: from where the chord starts and, but for
the bossa nova, until where it ends at the latest. -/
structure Strategy.Fits (strategy : Strategy) (b : ChordBlock Rat ChordSymbol) (n : Note Rat) :
    Prop where
  start_le : b.start ≤ n.start
  stop_le : strategy ≠ .bossaNova → n.start + n.duration ≤ b.stop

/-- Every block in which a chord holds is accompanied, and every generated note is in its place in
such a block. It is lower than each note of the melody that it sounds together with and that starts
before the block ends. -/
theorem generated_of_accompany {song after : Song Rat} {strategy : Strategy} {settings : Settings}
    {rate : Int} {spacing : Number} {number : Int}
    (hrate : settings.rateNumber = .ok (.whole rate))
    (hspacing : settings.spacingNumber = .ok spacing) (hexact : spacing.Exact)
    (hnonneg : 0 ≤ spacing.exact)
    (hshapes : ∀ chord ∈ song.sheet.chords, ∃ name, chord.2.shape = .named name)
    (h : (accompany song strategy settings).result = .ok (after, number)) :
    ∃ generated, after.sheet.notes = song.sheet.notes ++ generated ∧
      (∀ b ∈ (blocks song.sheet).1.kept, ∃ g ∈ generated, strategy.Fits b g) ∧
      ∀ g ∈ generated, ∃ b ∈ (blocks song.sheet).1.kept, strategy.Fits b g ∧
        ∀ m ∈ song.sheet.notes, g.Overlaps m → m.start < b.stop →
          ∃ p sharpen q, g.name = spell p sharpen ∧ pitch m.name = .ok q ∧ p < q := by
  obtain ⟨⟨⟩, -, h⟩ := Except.bind_eq_ok_iff.mp h
  obtain ⟨generated, hnotes, h⟩ := Except.bind_eq_ok_iff.mp h
  obtain ⟨played, hplayed, hnotes⟩ := Except.bind_eq_ok_iff.mp hnotes
  obtain rfl := Except.pure_eq_ok_iff.mp hnotes
  obtain ⟨rfl, -⟩ := Prod.mk.inj (Except.pure_eq_ok_iff.mp h)
  have hplay {b : ChordBlock Rat ChordSymbol} (hb : b ∈ (blocks song.sheet).1.kept)
      {part : List (Played Rat)}
      (h : strategy.play song.sheet settings b.chord b.start b.stop = .ok part) :
      part ≠ [] ∧ ∀ n ∈ part, n.BelowMelody strategy song.sheet b.start b.stop := by
    obtain ⟨hlt, hmem, hbeats⟩ := of_mem_blocks hb
    obtain ⟨shape, hshape⟩ := hshapes _ hmem
    exact Strategy.below_melody_of_play hbeats hrate hspacing hexact hnonneg hshape hlt h
  refine ⟨_, rfl, ?_, ?_⟩
  · intro b hb
    obtain ⟨part, hpart, h⟩ := Except.exists_mem_of_mapM hplayed hb
    obtain ⟨hne, hbelow⟩ := hplay hb h
    obtain ⟨n, hn⟩ := List.exists_mem_of_ne_nil part hne
    obtain ⟨i, hi, rfl⟩ := List.mem_iff_getElem.mp (List.mem_flatten_of_mem hpart hn)
    exact ⟨_, List.mem_mapIdx.mpr ⟨i, hi, rfl⟩, (hbelow _ hn).start_le, (hbelow _ hn).stop_le⟩
  · intro g hg
    obtain ⟨i, hi, rfl⟩ := List.mem_mapIdx.mp hg
    obtain ⟨part, hpart, hn⟩ := List.mem_flatten.mp (List.getElem_mem hi)
    obtain ⟨b, hb, h⟩ := Except.exists_of_mem_mapM hplayed hpart
    have hbelow := (hplay hb h).2 _ hn
    refine ⟨b, hb, ⟨hbelow.start_le, hbelow.stop_le⟩, ?_⟩
    rintro m hm ⟨hgm, -⟩ hend
    exact hbelow.melody m hm (hbelow.start_le.trans_lt hgm) hend

/-- A song whose times are ratios is accompanied as in exact time. Every block in which a chord holds
is accompanied, and a generated note is lower than each note of the melody that it sounds together
with; only for the bossa nova that melody must start before the block ends. -/
theorem accompany_below_melody {song : Song Rat} {after : Song Number} {strategy : Strategy}
    {settings : Settings} {rate : Int} {spacing : Number} {number : Int}
    (hrate : settings.rateNumber = .ok (.whole rate)) (hone : 1 ≤ rate)
    (hspacing : settings.spacingNumber = .ok spacing) (hexact : spacing.Exact)
    (hnonneg : 0 ≤ spacing.exact)
    (hshapes : ∀ chord ∈ song.sheet.chords, ∃ name, chord.2.shape = .named name)
    (h : (accompany (song.map .ratio) strategy settings).result = .ok (after, number)) :
    ∃ (exact : Song Rat) (generated : List (Note Rat)), after = exact.map .ratio ∧
      (accompany song strategy settings).result = .ok (exact, number) ∧
      exact.sheet.notes = song.sheet.notes ++ generated ∧
      (∀ b ∈ (blocks song.sheet).1.kept, ∃ g ∈ generated, strategy.Fits b g) ∧
      ∀ g ∈ generated, ∃ b ∈ (blocks song.sheet).1.kept, strategy.Fits b g ∧
        ∀ m ∈ song.sheet.notes, g.Overlaps m → (strategy = .bossaNova → m.start < b.stop) →
          ∃ p sharpen q, g.name = spell p sharpen ∧ pitch m.name = .ok q ∧ p < q := by
  rw [accompany_ratio song hrate hone strategy] at h
  obtain ⟨⟨exact, number'⟩, hrun, h⟩ := Except.map_eq_ok_iff.mp h
  obtain ⟨rfl, rfl⟩ := Prod.mk.inj h
  obtain ⟨generated, hnotes, hblocks, hbelow⟩ :=
    generated_of_accompany hrate hspacing hexact hnonneg hshapes hrun
  refine ⟨exact, generated, rfl, hrun, hnotes, hblocks, ?_⟩
  intro g hg
  obtain ⟨b, hb, hfits, hmelody⟩ := hbelow g hg
  refine ⟨b, hb, hfits, fun m hm hgm hbossa => hmelody m hm hgm ?_⟩
  by_cases hs : strategy = .bossaNova
  · exact hbossa hs
  · exact hgm.2.trans_le (hfits.stop_le hs)

/-- A melody that falls by two octaves in the middle of a measure, where its chord is repeated. -/
def falling : Song Rat :=
  { sheet :=
      { Sheet.ofNotes [⟨0, "C5", 0, 1, none⟩, ⟨1, "C3", 1, 1, none⟩] with
        metadata := ⟨none, some 4, none⟩
        chords := [(0, ⟨"C", .named "M"⟩), (1, ⟨"C", .named "M"⟩)] }
    tracks := [(0, Sheet.ofNotes [⟨0, "C5", 0, 1, none⟩, ⟨1, "C3", 1, 1, none⟩])]
    fresh := 2 }

theorem accompany_below_melody_falling :
    ∃ (after : Song Number) (number : Int) (exact : Song Rat) (generated : List (Note Rat)),
      (accompany (falling.map .ratio) .triad .plain).result = .ok (after, number) ∧
      after = exact.map .ratio ∧ exact.sheet.notes = falling.sheet.notes ++ generated ∧
      ∀ g ∈ generated, ∀ m ∈ falling.sheet.notes, g.Overlaps m →
        ∃ p sharpen q, g.name = spell p sharpen ∧ pitch m.name = .ok q ∧ p < q := by
  obtain ⟨⟨after, number⟩, h⟩ :
      ∃ result, (accompany (falling.map Number.ratio) .triad .plain).result = .ok result :=
    Except.exists_eq_ok (by decide +kernel)
  have hrate : Settings.plain.rateNumber = .ok (.whole 1) := rfl
  have hspacing : Settings.plain.spacingNumber = .ok (.whole 0) := rfl
  have hshapes : ∀ chord ∈ falling.sheet.chords, ∃ name, chord.2.shape = .named name :=
    List.forall_mem_cons.mpr ⟨⟨_, rfl⟩, List.forall_mem_singleton.mpr ⟨_, rfl⟩⟩
  obtain ⟨exact, generated, hafter, -, hnotes, -, hbelow⟩ :=
    accompany_below_melody hrate le_rfl hspacing (.whole 0) Int.cast_zero.ge hshapes h
  refine ⟨after, number, exact, generated, h, hafter, hnotes, ?_⟩
  intro g hg m hm hgm
  obtain ⟨b, -, -, hmelody⟩ := hbelow g hg
  exact hmelody m hm hgm (fun hs => absurd hs (by decide))

/-- The long note that a bossa nova starts on the first chord sounds on over the second one, above
the melody there. -/
theorem accompany_bossaNova_above_melody :
    ∃ (after : Song Number) (number : Int) (g m : Note Rat),
      (accompany (falling.map .ratio) .bossaNova .plain).result = .ok (after, number) ∧
      g.map .ratio ∈ after.sheet.notes ∧ g ∉ falling.sheet.notes ∧ m ∈ falling.sheet.notes ∧
      g.Overlaps m ∧ pitch g.name = .ok 55 ∧ pitch m.name = .ok 48 := by
  have hnotes : (accompany (falling.map Number.ratio) .bossaNova .plain).result.map
      (fun r => r.1.sheet.notes[2]?) = .ok (some ⟨2, "G3", .ratio 0, .ratio (3 / 2), none⟩) := by
    decide +kernel
  obtain ⟨⟨after, number⟩, h, hlong⟩ := Except.map_eq_ok_iff.mp hnotes
  refine ⟨after, number, ⟨2, "G3", 0, 3 / 2, none⟩, ⟨1, "C3", 1, 1, none⟩, h,
    List.mem_of_getElem? hlong, by decide +kernel, by decide, ?_, by decide +kernel,
    by decide +kernel⟩
  constructor <;> norm_num

end Accompaniment
end LeadSheet
