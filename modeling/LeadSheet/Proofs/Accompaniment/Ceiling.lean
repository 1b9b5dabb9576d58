import LeadSheet.Proofs.Accompaniment.Ratio

/-!
The ceiling of an accompaniment. It lies under the notes that sound in a stretch of time, and every
strategy keeps below it.
-/
namespace LeadSheet.Accompaniment
open NoteName

/-- The lowest of some pitches, or the highest ceiling where none is lower. -/
theorem lowest_spec (pitches : List Int) :
    pitches.foldl min highestCeiling ∈ highestCeiling :: pitches ∧
      ∀ p ∈ highestCeiling :: pitches, pitches.foldl min highestCeiling ≤ p :=
  List.min?_eq_some_iff.mp List.min?_cons'

/-- A ceiling under a melody keeps the spacing to every note that sounds in the stretch. -/
theorem ceiling_eq_ok {sheet : Sheet Rat} {settings : Settings} {start stop : Rat}
    {top spacing : Number} (hspacing : settings.spacingNumber = .ok spacing) (hexact : spacing.Exact)
    (h : ceiling sheet settings start stop = .ok top) :
    top.Exact ∧ ∀ note ∈ sheet.notes, start < note.start + note.duration → note.start < stop →
      ∃ q : Int, pitch note.name = .ok q ∧ top.exact + spacing.exact ≤ q := by
  obtain ⟨notes, hnotes, h⟩ := Except.bind_eq_ok_iff.mp h
  obtain ⟨pitches, hpitches, h⟩ := Except.bind_eq_ok_iff.mp h
  have h := Except.of_bind_eq_ok hspacing h
  obtain ⟨htop, hvalue⟩ := Number.exact_sub (.whole _) hexact h
  refine ⟨htop, ?_⟩
  intro note hnote hstart hstop
  have hsounds : note.soundsBetween start stop = .ok true := by
    have hs : note.soundsBetween start stop =
        .ok (decide (start < note.start + note.duration) && decide (note.start < stop)) := rfl
    rw [hs, decide_eq_true hstart, decide_eq_true hstop]
    rfl
  obtain ⟨q, hq, hpitch⟩ := Except.exists_mem_of_mapM hpitches
    ((Except.mem_filterM hnotes).mpr ⟨hnote, hsounds⟩)
  have hlowest := (lowest_spec pitches).2 q (List.mem_cons_of_mem _ hq)
  refine ⟨q, hpitch, ?_⟩
  have hcast : ((pitches.foldl min highestCeiling : Int) : Rat) ≤ q := Int.cast_le.mpr hlowest
  rw [hvalue, sub_add_cancel]
  exact hcast

theorem pitch_withOctave_zero (letter : Letter) (alteration : Alteration) :
    pitch (withOctave (String.ofList (letter.toChar :: alteration.sign)) 0) =
      .ok (offsetOf letter alteration + octaveSize) := by
  have hname : withOctave (String.ofList (letter.toChar :: alteration.sign)) 0 =
      String.ofList (letter.toChar :: (alteration.sign ++ (toString 0).toList)) := by
    rw [withOctave, ← List.cons_append, String.ofList_append, String.ofList_toList]
    rfl
  rw [hname, pitch_of_parts]
  congr 1

/-- Every strategy plays every known chord on every root in any stretch of time, whatever the rate,
and below a ceiling from the C of octave two upwards all its notes have pitches: less than the
ceiling, by two octaves at most. In ratios it plays what it plays in exact time. -/
theorem Strategy.play_below_ceiling {strategy : Strategy} (hstrategy : strategy ∈ Strategy.all)
    {sheet : Sheet Rat} {beats : Rat} (hbeats : sheet.metadata.beatsPerMeasure = some beats)
    (hpos : 0 < beats) {start stop : Rat} (hlt : start < stop) {settings : Settings} {rate : Int}
    {spacing : Number} (hrate : settings.rateNumber = .ok (.whole rate)) (hone : 1 ≤ rate)
    (hspacing : settings.spacingNumber = .ok spacing) (hexact : spacing.Exact)
    {symbol : ChordSymbol} {letter : Letter} {alteration : Alteration} {shape : String}
    (hroot : symbol.root = String.ofList (letter.toChar :: alteration.sign))
    (hshape : symbol.shape = .named shape) (hknown : shape ∈ chordShapes.map Prod.fst) {top : Number}
    (htop : ceiling (sheet.map Number.ratio) settings (.ratio start) (.ratio stop) = .ok top)
    (h36 : 36 ≤ top.exact) :
    ∃ played, strategy.play sheet settings symbol start stop = .ok played ∧
      strategy.play (sheet.map .ratio) settings symbol (.ratio start) (.ratio stop) =
        .ok (played.map (Played.map Number.ratio)) ∧
      played ≠ [] ∧ ∀ n ∈ played, ∃ p : Int, pitch n.name = .ok p ∧ top.exact - 24 ≤ p ∧
        (p : Rat) < top.exact := by
  rw [ceiling_ratio] at htop
  obtain ⟨hexactTop, -⟩ := ceiling_eq_ok hspacing hexact htop
  have hmeasure : ∀ beats' ∈ sheet.metadata.beatsPerMeasure, 0 < beats' := by
    intro beats' hbeats'
    obtain rfl := Option.some.inj (hbeats.symm.trans hbeats')
    exact hpos
  have hbeats : knownBeats sheet = some beats := by
    rw [knownBeats, hbeats]
    exact Option.filter_eq_some_iff.mpr ⟨rfl, by simpa [Timebase.isZero] using hpos.ne'⟩
  have hlowest : pitch (withOctave symbol.root 0) = _ :=
    hroot ▸ pitch_withOctave_zero letter alteration
  obtain ⟨intervals, hs⟩ : ∃ intervals, chordShapes.lookup shape = some intervals := by
    have hlookup : ∀ shape ∈ chordShapes.map Prod.fst, (chordShapes.lookup shape).isSome := by decide
    exact Option.isSome_iff_exists.mp (hlookup shape hknown)
  obtain ⟨played, hplay⟩ := Strategy.exists_play hmeasure hlt hrate htop hexactTop hlowest hshape hs
    h36 hstrategy
  obtain ⟨hne, hbelow⟩ := Strategy.below_of_play hmeasure hlt hrate htop hexactTop hshape hplay
  refine ⟨played, hplay, ?_, hne, ?_⟩
  · rw [Strategy.play_ratio hbeats hrate hone, hplay]
    rfl
  · intro n hn
    obtain ⟨⟨p, sharpen, hname, hlow, hhigh⟩, -, -⟩ := hbelow n hn
    have hread : (12 : Int) ≤ p := by
      have hcast : ((12 : Int) : Rat) ≤ p := by
        push_cast
        linarith
      exact Int.cast_le.mp hcast
    exact ⟨p, hname ▸ pitch_spell_of_le hread sharpen, hlow, hhigh⟩

/-- A melody of one note, the B of octave three. -/
def lone : Sheet Rat :=
  { Sheet.ofNotes [⟨0, "B3", 0, 3, none⟩] with metadata := ⟨none, some 4, none⟩ }

theorem Strategy.play_below_ceiling_seventh :
    ∃ played, Strategy.bossaNova.play (lone.map .ratio) ⟨.whole 2, .whole 3⟩ ⟨"G#", .named "m7"⟩
        (.ratio 0) (.ratio 4) = .ok (played.map (Played.map Number.ratio)) ∧
      played ≠ [] ∧ ∀ n ∈ played, ∃ p : Int, pitch n.name = .ok p ∧ (56 : Rat) - 24 ≤ p ∧
        (p : Rat) < 56 := by
  have htop : ceiling (lone.map Number.ratio) ⟨.whole 2, .whole 3⟩ (.ratio 0) (.ratio 4) =
      .ok (.whole 56) := by decide +kernel
  have hroot : (ChordSymbol.mk "G#" (.named "m7")).root =
      String.ofList (Letter.G.toChar :: Alteration.sharp.sign) := by rfl
  have hrate : (Settings.mk (.whole 2) (.whole 3)).rateNumber = .ok (.whole 2) := rfl
  have hspacing : (Settings.mk (.whole 2) (.whole 3)).spacingNumber = .ok (.whole 3) := rfl
  have hmem : Strategy.bossaNova ∈ Strategy.all := by decide
  have hbeats : lone.metadata.beatsPerMeasure = some 4 := rfl
  obtain ⟨played, -, hplay, hbelow⟩ := Strategy.play_below_ceiling hmem hbeats (by norm_num)
    (by norm_num) hrate (by decide) hspacing (.whole 3) hroot rfl (by decide) htop
    (by norm_num [Number.exact])
  exact ⟨played, hplay, hbelow⟩

end LeadSheet.Accompaniment
