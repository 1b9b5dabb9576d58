import LeadSheet.Accompaniment.Basic
import LeadSheet.Proofs.Accompaniment.Block
import LeadSheet.Proofs.Accompaniment.Ceiling
import LeadSheet.Proofs.Timeline.Naming

/-!
The names of an accompaniment. Chord notes are sought downwards from the melody, and no name with a
negative octave can be read. So each strategy needs a melody that leaves it room enough above octave
zero; then it plays what can be read, and never fails because of a note name.
-/
namespace LeadSheet
open Except (nameless_pure)
open NoteName

namespace Accompaniment

/-- The lowest pitch of a melody under which a strategy can always be read. A root needs an octave of
room, and a chord that may have to be moved down needs more. -/
def Strategy.lowestMelody : Strategy → Int
  | base => 0
  | root | bossaNova => 24
  | rootAndFifth => 34
  | triad | arpeggio => 35

end Accompaniment

/-- What sounds between two beats is nowhere lower than a pitch. -/
def Sheet.HeardFrom (sheet : Sheet Number) (lowest : Int) (start stop : Number) : Prop :=
  ∀ heard, sheet.notesBetween start stop = .ok heard → ∀ note ∈ heard, ∀ p,
    pitch note.name = .ok p → lowest ≤ p

namespace Accompaniment

/-! ### Ceilings -/

private theorem nameless_notesBetween (sheet : Sheet Number) (start stop : Number) :
    (sheet.notesBetween start stop).Nameless :=
  Except.nameless_filterM fun note _ =>
    (Number.nameless_add note.start note.duration).bind fun _ => nameless_pure _

/-- Without settings the ceiling is the lowest pitch that is heard, or the highest there can be. -/
theorem wellNamed_ceiling {sheet : Sheet Number} (hread : ∀ note ∈ sheet.notes, Readable note.name)
    {lowest : Int} (hhighest : lowest ≤ highestCeiling) {start stop : Number}
    (hheard : sheet.HeardFrom lowest start stop) :
    (ceiling sheet .plain start stop).WellNamed fun top => ∃ c, top = .whole c ∧ lowest ≤ c := by
  refine (nameless_notesBetween sheet start stop).self.bind fun heard hb => ?_
  have hpitch : ∀ note ∈ heard, ∃ p, pitch note.name = .ok p := fun note hn =>
    hread note ((Except.mem_filterM hb).mp hn).1
  obtain ⟨pitches, hpitches⟩ := Except.exists_mapM_eq_ok hpitch
  have hlowest : ∀ p ∈ highestCeiling :: pitches, lowest ≤ p := by
    refine List.forall_mem_cons.mpr ⟨hhighest, fun p hp => ?_⟩
    obtain ⟨note, hn, hp⟩ := Except.exists_of_mem_mapM hpitches hp
    exact hheard heard hb note hn p hp
  have hc := hlowest _ (lowest_spec pitches).1
  rw [hpitches]
  exact .ok ⟨_, congrArg Number.whole (Int.sub_zero _), hc⟩

private theorem whole_lt_whole {p c : Int} : Number.lt (.whole p) (.whole c) = true ↔ p < c := by
  rw [Number.lt_whole_iff (.whole c)]
  exact Int.cast_lt

/-! ### Chords -/

/-- The root of a known chord is found within an octave below any ceiling. -/
theorem rootBelow_whole {symbol : ChordSymbol} (hk : symbol.Known) (c : Int) :
    ∃ r : Int, rootBelow symbol.root (.whole c) = .ok (spell r true) ∧ r < c ∧ c ≤ r + 12 := by
  obtain ⟨letter, alteration, hroot⟩ := hk.root
  obtain ⟨r, hr, hlow, hhigh⟩ := rootBelow_spec (hroot ▸ pitch_withOctave_zero letter alteration)
    (.whole c)
  have hlow : ((r + 1 : Int) : Rat) ≤ (c : Rat) := by
    push_cast
    exact hlow
  have hhigh : (c : Rat) < ((r + 13 : Int) : Rat) := by
    push_cast
    exact hhigh
  have := Int.cast_le.mp hlow
  have := Int.cast_lt.mp hhigh
  exact ⟨r, hr, by omega, by omega⟩

/-- The fifth of a known chord is ten semitones above the root at most. -/
theorem fifth_le {shape : String × List Int} (h : shape ∈ chordShapes) :
    ∀ k ∈ (Chord.heights shape.2)[2]?, k ≤ 10 := by
  have hall : ∀ shape ∈ chordShapes, ∀ k ∈ (Chord.heights shape.2)[2]?, k ≤ 10 := by decide
  exact hall shape h

/-- The notes of a known chord on a root that can be read can be read; the third of them, its fifth,
is ten semitones above the root at most. -/
theorem exists_chord {symbol : ChordSymbol} (hk : symbol.Known) {r : Int} (hr : 12 ≤ r) :
    ∃ names, Chord.notes (spell r true) symbol.shape 0 none = .ok names ∧
      (∀ name ∈ names, Readable name) ∧
      ∃ p sharpen, chordNote names 2 = .ok (spell p sharpen) ∧ r ≤ p ∧ p ≤ r + 10 := by
  obtain ⟨shape, intervals, hshape, hs⟩ := hk.shape
  obtain ⟨sharpen, hnotes⟩ := Chord.notes_spell hr true hs
  rw [hshape]
  refine ⟨_, hnotes, ?_, ?_⟩
  · intro name hname
    obtain ⟨p, hp, rfl⟩ := List.mem_map.mp hname
    exact ⟨p, pitch_spell_of_le (hr.trans (Chord.mem_heights_above hs hp).1) sharpen⟩
  · have hlength := (Chord.heights_of_mem (Chord.mem_of_lookup hs)).2.2.1
    have hfifth := List.getElem?_eq_getElem (l := Chord.heights intervals) (i := 2) hlength
    have hten := fifth_le (Chord.mem_of_lookup hs) _ hfifth
    have hzero := (Chord.heights_of_mem (Chord.mem_of_lookup hs)).2.2.2 _
      (List.mem_of_getElem? hfifth)
    refine ⟨r + (Chord.heights intervals)[2], sharpen, ?_, by omega, by omega⟩
    rw [chordNote_eq_ok_iff, List.getElem?_map, List.getElem?_map, hfifth]
    rfl

/-- A known chord can be made below a ceiling from the B of octave one upwards. -/
theorem exists_chordBelow_whole {symbol : ChordSymbol} (hk : symbol.Known) {c : Int} (hc : 35 ≤ c) :
    ∃ names, chordBelow symbol.root symbol.shape (.whole c) = .ok names ∧
      ∀ name ∈ names, Readable name := by
  obtain ⟨letter, alteration, hroot⟩ := hk.root
  obtain ⟨shape, intervals, hshape, hs⟩ := hk.shape
  have hc : ((35 : Int) : Rat) ≤ c := Int.cast_le.mpr hc
  rw [hshape]
  exact exists_chordBelow (hroot ▸ pitch_withOctave_zero letter alteration) hs (.whole c) hc

private theorem wellNamed_chordNote (names : List String) (i : Nat) :
    (chordNote names i).WellNamed (· ∈ names) := by
  cases h : chordNote names i with
  | ok name => exact .ok (mem_of_chordNote h)
  | error e =>
    rw [chordNote] at h
    split at h
    · cases h
    · cases h
      exact .error rfl

/-! ### Divisions -/

private theorem nameless_divisionLength (sheet : Sheet Number) (count : Number) :
    (divisionLength sheet count).Nameless :=
  (count.nameless_sub 1).bind fun n => n.nameless_twoPow.bind fun parts =>
    Number.nameless_div _ parts

private theorem nameless_divisionsFrom (stop length : Number) (fuel : Nat) (left : Number)
    (number : Nat) :
    (divisionsFrom stop length fuel left number).Nameless := by
  induction fuel generalizing left number with
  | zero => exact .ok trivial
  | succ fuel ih =>
    rw [divisionsFrom]
    refine (left.nameless_add length).bind fun next => ?_
    dsimp only
    split
    · exact .ok trivial
    · exact (ih next (number + 1)).bind fun _ => nameless_pure _

private theorem nameless_divisions (sheet : Sheet Number) (start stop count : Number) :
    (divisions sheet start stop count).Nameless :=
  (nameless_divisionLength sheet count).bind fun length => nameless_divisionsFrom _ length _ _ _

private theorem wellNamed_playThrough {name : String} (h : Readable name) (d : Division Number) :
    (playThrough name d).WellNamed fun n => Readable n.name :=
  (Number.nameless_sub d.right d.left).bind fun _ => .ok h

private theorem wellNamed_playSyncopated {one two : String} (hone : Readable one)
    (htwo : Readable two)
    (d : Division Number) :
    (playSyncopated one two d).WellNamed fun played => ∀ n ∈ played, Readable n.name := by
  rw [playSyncopated]
  refine (Number.nameless_sub d.right d.left).bind fun length => ?_
  refine (length.nameless_div _).bind fun half => ?_
  have hlong {name : String} (h : Readable name) : Except.WellNamed
      (do return [⟨name, d.left, ← Timebase.mul half (Timebase.ofInt 3)⟩])
      fun played : List (Played Number) => ∀ n ∈ played, Readable n.name :=
    (half.nameless_mul _).bind fun _ => .ok (List.forall_mem_singleton.mpr h)
  have hshort {name : String} (h : Readable name) : Except.WellNamed
      (do return [⟨name, ← Timebase.add d.left half, half⟩])
      fun played : List (Played Number) => ∀ n ∈ played, Readable n.name :=
    (d.left.nameless_add half).bind fun _ => .ok (List.forall_mem_singleton.mpr h)
  dsimp only
  split
  · exact hlong hone
  · exact hshort hone
  · exact hlong htwo
  · exact hshort htwo
  · exact .ok (List.forall_mem_nil _)

/-- What is played in parts can be read if every part can. -/
theorem wellNamed_flatten {β : Type} {f : β → Except Failure (List (Played Number))} {xs : List β}
    (h : ∀ x ∈ xs, (f x).WellNamed fun played => ∀ n ∈ played, Readable n.name) :
    Except.WellNamed (do return (← xs.mapM f).flatten) fun played =>
      ∀ n ∈ played, Readable n.name := by
  refine (Except.wellNamed_mapM h).bind fun parts hparts => .ok ?_
  intro n hn
  obtain ⟨part, hpart, hn⟩ := List.mem_flatten.mp hn
  exact hparts part hpart n hn

/-! ### Strategies -/

section
variable {sheet : Sheet Number} {start stop : Number} {symbol : ChordSymbol}
  (hread : ∀ note ∈ sheet.notes, Readable note.name) (hk : symbol.Known)

include hread hk

private theorem wellNamed_playRoot (hheard : sheet.HeardFrom 24 start stop) :
    (playRoot sheet .plain symbol.root start stop).WellNamed fun played =>
      ∀ n ∈ played, Readable n.name := by
  refine (wellNamed_ceiling hread (by decide) hheard).bind ?_
  rintro _ ⟨c, rfl, hc⟩
  obtain ⟨r, hr, -, hhigh⟩ := rootBelow_whole hk c
  refine Except.yields_bind hr <| Except.yields_bind rfl ?_
  refine (nameless_divisions sheet start stop _).bind fun ds => ?_
  exact Except.wellNamed_mapM fun d _ =>
    wellNamed_playThrough ⟨r, pitch_spell_of_le (by omega) true⟩ d

private theorem wellNamed_playTriad (hheard : sheet.HeardFrom 35 start stop) :
    (playTriad sheet .plain symbol start stop).WellNamed fun played =>
      ∀ n ∈ played, Readable n.name := by
  refine (wellNamed_ceiling hread (by decide) hheard).bind ?_
  rintro _ ⟨c, rfl, hc⟩
  obtain ⟨names, hnames, hall⟩ := exists_chordBelow_whole hk hc
  refine Except.yields_bind hnames <| Except.yields_bind rfl ?_
  refine (nameless_divisions sheet start stop _).bind fun ds => ?_
  exact wellNamed_flatten fun d _ => Except.wellNamed_mapM fun name hname =>
    wellNamed_playThrough (hall name hname) d

private theorem wellNamed_playRootAndFifth (hheard : sheet.HeardFrom 34 start stop) :
    (playRootAndFifth sheet .plain symbol start stop).WellNamed fun played =>
      ∀ n ∈ played, Readable n.name := by
  refine (wellNamed_ceiling hread (by decide) hheard).bind ?_
  rintro _ ⟨c, rfl, hc⟩
  obtain ⟨r, hr, hlow, hhigh⟩ := rootBelow_whole hk c
  have hr12 : 12 ≤ r := by omega
  obtain ⟨names, hnames, hall, p, sharpen, hfifth, hrp, hpr⟩ := exists_chord hk hr12
  have hturn {names : List String} (hall : ∀ name ∈ names, Readable name)
      (ds : List (Division Number)) :
      (ds.mapM (playTurn sheet names)).WellNamed fun played => ∀ n ∈ played, Readable n.name :=
    Except.wellNamed_mapM fun d _ => (wellNamed_chordNote names _).bind fun name hname =>
      wellNamed_playThrough (hall name hname) d
  refine Except.yields_bind hr <| Except.yields_bind hnames <|
    Except.yields_bind hfifth <|
    Except.yields_bind (pitch_spell_of_le (hr12.trans hrp) sharpen) ?_
  dsimp only
  split
  · refine Except.yields_bind (a := names) rfl <| Except.yields_bind rfl <|
      Except.yields_bind rfl ?_
    exact (nameless_divisions sheet start stop _).bind (hturn hall)
  · next hge =>
    -- a fifth that reaches the ceiling leaves an octave of room below the root
    rw [whole_lt_whole] at hge
    obtain ⟨lower, hlower, hlowerAll, -⟩ := exists_chord hk (r := r + -octaveSize)
      (by simp only [octaveSize]; omega)
    refine Except.yields_bind (transpose_spell hr12 true _) <| Except.yields_bind hlower <|
      Except.yields_bind rfl <| Except.yields_bind rfl ?_
    exact (nameless_divisions sheet start stop _).bind (hturn hlowerAll)

private theorem wellNamed_playArpeggio (hheard : sheet.HeardFrom 35 start stop) :
    (playArpeggio sheet .plain symbol start stop).WellNamed fun played =>
      ∀ n ∈ played, Readable n.name := by
  refine (wellNamed_ceiling hread (by decide) hheard).bind ?_
  rintro _ ⟨c, rfl, hc⟩
  obtain ⟨names, hnames, hall⟩ := exists_chordBelow_whole hk hc
  refine Except.yields_bind hnames ?_
  refine (wellNamed_chordNote names 0).bind fun first hfirst => ?_
  refine (wellNamed_chordNote names 1).bind fun second hsecond => ?_
  refine (wellNamed_chordNote names _).bind fun third hthird => ?_
  refine (nameless_divisions sheet start stop _).bind fun ds => ?_
  refine Except.wellNamed_mapM fun part hpart => ?_
  obtain ⟨-, hname⟩ := List.of_mem_zip hpart
  refine wellNamed_playThrough (hall _ ?_) part.1
  simp only [List.mem_cons, List.not_mem_nil, or_false] at hname
  rcases hname with hname | hname | hname | hname
  · exact hname ▸ hfirst
  · exact hname ▸ hsecond
  · exact hname ▸ hthird
  · exact hname ▸ hsecond

private theorem wellNamed_playBossaNova (hheard : sheet.HeardFrom 24 start stop) :
    (playBossaNova sheet .plain symbol start stop).WellNamed fun played =>
      ∀ n ∈ played, Readable n.name := by
  refine (wellNamed_ceiling hread (by decide) hheard).bind ?_
  rintro _ ⟨c, rfl, hc⟩
  obtain ⟨r, hr, hlow, hhigh⟩ := rootBelow_whole hk c
  have hr12 : 12 ≤ r := by omega
  obtain ⟨names, hnames, hall, p, sharpen, hfifth, hrp, -⟩ := exists_chord hk hr12
  have hp := pitch_spell_of_le (hr12.trans hrp) sharpen
  have hplay {one two : String} (hone : Readable one) (htwo : Readable two) :
      Except.WellNamed (do
        return (← (← divisions sheet start stop 3).mapM (playSyncopated one two)).flatten)
        fun played => ∀ n ∈ played, Readable n.name :=
    (nameless_divisions sheet start stop 3).bind fun ds =>
      wellNamed_flatten fun d _ => wellNamed_playSyncopated hone htwo d
  refine Except.yields_bind hr <| Except.yields_bind hnames ?_
  refine (wellNamed_chordNote names 0).bind fun root hroot => ?_
  refine Except.yields_bind hfifth <| Except.yields_bind hp ?_
  dsimp only
  split
  · exact Except.yields_bind (a := (root, _)) rfl (hplay (hall root hroot) ⟨p, hp⟩)
  · next hge =>
    rw [whole_lt_whole] at hge
    refine Except.yields_bind (transpose_spell (hr12.trans hrp) sharpen _) <|
      Except.yields_bind (a := (_, root)) rfl <|
        hplay ⟨_, pitch_spell_of_le ?_ true⟩ (hall root hroot)
    simp only [octaveSize]
    omega

/-- Under a melody that is not too low for it a strategy plays what can be read, and does not fail
because of a note name. -/
theorem Strategy.wellNamed_play {strategy : Strategy} (hstrategy : strategy ∈ Strategy.all)
    (hheard : sheet.HeardFrom strategy.lowestMelody start stop) :
    (strategy.play sheet .plain symbol start stop).WellNamed fun played =>
      ∀ n ∈ played, Readable n.name := by
  cases strategy with
  | base => exact absurd hstrategy (by decide)
  | root => exact wellNamed_playRoot hread hk hheard
  | triad => exact wellNamed_playTriad hread hk hheard
  | rootAndFifth => exact wellNamed_playRootAndFifth hread hk hheard
  | arpeggio => exact wellNamed_playArpeggio hread hk hheard
  | bossaNova => exact wellNamed_playBossaNova hread hk hheard

end

end Accompaniment

/-! ### Songs -/

namespace ChordBlocks
variable {β : Type}

private theorem nameless_measureEnd (beats start : Number) : (measureEnd beats start).Nameless :=
  (start.nameless_floorDiv beats).bind fun measure =>
    (measure.nameless_add _).bind fun number => number.nameless_mul beats

private theorem nameless_ofChords (beats : Number) (chords : List (Number × β)) :
    (ofChords beats chords).2.Nameless := by
  induction chords with
  | nil => exact .ok trivial
  | cons entry chords ih =>
    obtain ⟨start, chord⟩ := entry
    rw [ofChords]
    split
    · next heq =>
      rw [heq] at ih
      exact .error ih.of_error
    · next blocks _ =>
      have hplace : (place beats start chord blocks).Nameless :=
        (nameless_measureEnd beats start).bind fun _ => nameless_pure _
      split
      · next herror => exact .error (herror ▸ hplace).of_error
      · exact .ok trivial

private theorem nameless_inMeasures (beats : Option Number) (chords : List (Number × β)) :
    (inMeasures beats chords).2.Nameless := by
  cases beats with
  | none => exact .error rfl
  | some beats =>
    rw [inMeasures]
    split
    · exact .error rfl
    · exact nameless_ofChords beats chords

end ChordBlocks

/-- A song whose notes can be read, those of its tracks among them. -/
structure Song.Readable {α : Type} (song : Song α) : Prop where
  notes : ∀ note ∈ song.sheet.notes, NoteName.Readable note.name
  tracks : ∀ track ∈ song.tracks, ∀ note ∈ track.2.notes, NoteName.Readable note.name

namespace Accompaniment

/-- A song whose melody is not too low for a strategy where its chords hold. -/
def Strategy.HasRoom (strategy : Strategy) (sheet : Sheet Number) : Prop :=
  ∀ b ∈ (blocks sheet).1.kept, sheet.HeardFrom strategy.lowestMelody b.start b.stop

/-- A song with a chord over a note that is not above the C of octave zero. -/
def Cramped (sheet : Sheet Number) : Prop :=
  ∃ b ∈ (blocks sheet).1.kept, ¬ sheet.HeardFrom 13 b.start b.stop

private theorem wellNamed_notes {song : Song Number} (hsong : song.Readable)
    (hchords : ∀ chord ∈ song.sheet.chords, chord.2.Known) {strategy : Strategy}
    (hstrategy : strategy ∈ Strategy.all) (hroom : strategy.HasRoom song.sheet) :
    (notes song strategy .plain (blocks song.sheet).1.kept).WellNamed fun generated =>
      ∀ note ∈ generated, Readable note.name := by
  have hplay : ∀ b ∈ (blocks song.sheet).1.kept,
      (strategy.play song.sheet .plain b.chord b.start b.stop).WellNamed fun played =>
        ∀ n ∈ played, Readable n.name := fun b hb =>
    Strategy.wellNamed_play hsong.notes (hchords _ (ChordBlocks.mem_of_mem_inMeasures hb))
      hstrategy (hroom b hb)
  refine (Except.wellNamed_mapM hplay).bind fun parts hparts => .ok ?_
  intro note hnote
  obtain ⟨i, hi, rfl⟩ := List.mem_mapIdx.mp hnote
  obtain ⟨part, hpart, hn⟩ := List.mem_flatten.mp (List.getElem_mem hi)
  exact hparts part hpart _ hn

private theorem readable_addTrack {song : Song Number} (hsong : song.Readable)
    {generated : List (Note Number)} (h : ∀ note ∈ generated, Readable note.name) : (addTrack song generated).Readable where
  notes := List.forall_mem_append.mpr ⟨hsong.notes, h⟩
  tracks := List.forall_mem_append.mpr ⟨hsong.tracks, List.forall_mem_singleton.mpr h⟩

/-- Where there is room below its melody, a song is accompanied with notes that can be read; if it
cannot be accompanied, this is not because of a note name. -/
theorem wellNamed_accompany {song : Song Number} (hsong : song.Readable)
    (hchords : ∀ chord ∈ song.sheet.chords, chord.2.Known) {strategy : Strategy}
    (hstrategy : strategy ∈ Strategy.all) (hroom : strategy.HasRoom song.sheet) :
    (accompany song strategy .plain).result.WellNamed fun r => r.1.Readable := by
  refine Except.Nameless.bind (ChordBlocks.nameless_inMeasures _ _) fun _ => ?_
  exact (wellNamed_notes hsong hchords hstrategy hroom).bind fun generated h =>
    .ok (readable_addTrack hsong h)

/-! ### Melodies without room -/

private theorem ceiling_lt {sheet : Sheet Number} {lowest : Int} {start stop top : Number}
    (hlow : ¬ sheet.HeardFrom lowest start stop) (h : ceiling sheet .plain start stop = .ok top) :
    ∃ c, top = .whole c ∧ c < lowest := by
  simp only [Sheet.HeardFrom, not_forall, not_le] at hlow
  obtain ⟨heard, hb, note, hnote, p, hp, hlow⟩ := hlow
  have h := Except.of_bind_eq_ok hb h
  obtain ⟨pitches, hpitches, h⟩ := Except.bind_eq_ok_iff.mp h
  obtain rfl := Except.ok.inj h
  refine ⟨_, congrArg Number.whole (Int.sub_zero _), ?_⟩
  obtain ⟨q, hq, hpitch⟩ := Except.exists_mem_of_mapM hpitches hnote
  obtain rfl := Except.ok.inj (hp.symm.trans hpitch)
  exact ((lowest_spec pitches).2 p (List.mem_cons_of_mem _ hq)).trans_lt hlow

private theorem ne_nil_of_divisions {sheet : Sheet Number} {start stop count : Number}
    {ds : List (Division Number)} (h : divisions sheet start stop count = .ok ds) : ds ≠ [] := by
  obtain ⟨length, -, h⟩ := Except.bind_eq_ok_iff.mp h
  dsimp only at h
  rw [divisionsFrom] at h
  obtain ⟨next, -, h⟩ := Except.bind_eq_ok_iff.mp h
  dsimp only at h
  split at h
  · obtain rfl := Except.ok.inj h
    exact List.cons_ne_nil _ _
  · obtain ⟨tail, -, h⟩ := Except.bind_eq_ok_iff.mp h
    obtain rfl := Except.pure_eq_ok_iff.mp h
    exact List.cons_ne_nil _ _

/-- No chord can be built on the root below the C of octave zero, which has a negative octave. -/
theorem not_chord_of_low {symbol : ChordSymbol} (hk : symbol.Known) {c : Int} (hc : c < 13)
    {root : String} (hroot : rootBelow symbol.root (.whole c) = .ok root) {names : List String} :
    Chord.notes root symbol.shape 0 none ≠ .ok names := by
  intro h
  obtain ⟨r, hr, hrc, -⟩ := rootBelow_whole hk c
  obtain rfl := Except.ok.inj (hr.symm.trans hroot)
  have := Chord.le_of_notes_spell h
  omega

/-- Where a note as low as the C of octave zero is heard, a strategy plays something that cannot be
read, if it plays at all. -/
theorem Strategy.unreadable_of_play {strategy : Strategy} {sheet : Sheet Number}
    {symbol : ChordSymbol} (hk : symbol.Known) {start stop : Number}
    (hlow : ¬ sheet.HeardFrom 13 start stop) {played : List (Played Number)}
    (h : strategy.play sheet .plain symbol start stop = .ok played) :
    ∃ n ∈ played, ¬ Readable n.name := by
  cases strategy with
  | base => cases h
  | root =>
    obtain ⟨top, htop, h⟩ := Except.bind_eq_ok_iff.mp h
    obtain ⟨c, rfl, hc⟩ := ceiling_lt hlow htop
    obtain ⟨r, hr, hrc, -⟩ := rootBelow_whole hk c
    have h := Except.of_bind_eq_ok hr h
    obtain ⟨rate, -, h⟩ := Except.bind_eq_ok_iff.mp h
    obtain ⟨ds, hds, h⟩ := Except.bind_eq_ok_iff.mp h
    obtain ⟨d, hd⟩ := List.exists_mem_of_ne_nil _ (ne_nil_of_divisions hds)
    obtain ⟨n, hn, hplay⟩ := Except.exists_mem_of_mapM h hd
    obtain ⟨length, -, hplay⟩ := Except.bind_eq_ok_iff.mp hplay
    obtain rfl := Except.pure_eq_ok_iff.mp hplay
    refine ⟨_, hn, ?_⟩
    rintro ⟨q, hq⟩
    cases (pitch_spell_of_lt (show r < 12 by omega) true).symm.trans hq
  | triad | arpeggio =>
    obtain ⟨top, htop, h⟩ := Except.bind_eq_ok_iff.mp h
    obtain ⟨c, rfl, hc⟩ := ceiling_lt hlow htop
    obtain ⟨names, hnames, -⟩ := Except.bind_eq_ok_iff.mp h
    obtain ⟨root, hroot, hnames⟩ := Except.bind_eq_ok_iff.mp hnames
    obtain ⟨notes, hnotes, -⟩ := Except.bind_eq_ok_iff.mp hnames
    exact absurd hnotes (not_chord_of_low hk hc hroot)
  | rootAndFifth | bossaNova =>
    obtain ⟨top, htop, h⟩ := Except.bind_eq_ok_iff.mp h
    obtain ⟨c, rfl, hc⟩ := ceiling_lt hlow htop
    obtain ⟨root, hroot, h⟩ := Except.bind_eq_ok_iff.mp h
    obtain ⟨notes, hnotes, -⟩ := Except.bind_eq_ok_iff.mp h
    exact absurd hnotes (not_chord_of_low hk hc hroot)

/-- No accompaniment can be read where a chord holds over a note as low as the C of octave zero. -/
theorem unreadable_of_accompany {song after : Song Number} {strategy : Strategy} {number : Int}
    (hchords : ∀ chord ∈ song.sheet.chords, chord.2.Known) (hcramped : Cramped song.sheet)
    (h : (accompany song strategy .plain).result = .ok (after, number)) : ¬ after.Readable := by
  obtain ⟨b, hkept, hlow⟩ := hcramped
  obtain ⟨⟨⟩, -, h⟩ := Except.bind_eq_ok_iff.mp h
  obtain ⟨generated, hnotes, h⟩ := Except.bind_eq_ok_iff.mp h
  obtain ⟨rfl, -⟩ := Prod.mk.inj (Except.pure_eq_ok_iff.mp h)
  obtain ⟨parts, hparts, hnotes⟩ := Except.bind_eq_ok_iff.mp hnotes
  obtain rfl := Except.pure_eq_ok_iff.mp hnotes
  obtain ⟨part, hpart, hplay⟩ := Except.exists_mem_of_mapM hparts hkept
  obtain ⟨n, hn, hunread⟩ := Strategy.unreadable_of_play
    (hchords _ (ChordBlocks.mem_of_mem_inMeasures hkept)) hlow hplay
  obtain ⟨i, hi, rfl⟩ := List.mem_iff_getElem.mp (List.mem_flatten_of_mem hpart hn)
  intro hread
  refine hunread (hread.notes ⟨song.fresh + i, parts.flatten[i].name, parts.flatten[i].start,
    parts.flatten[i].duration, none⟩ ?_)
  exact List.mem_append_right _ (List.mem_mapIdx.mpr ⟨i, hi, rfl⟩)

end Accompaniment
end LeadSheet
