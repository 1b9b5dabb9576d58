import LeadSheet.Accompaniment.Basic
import LeadSheet.Proofs.Accompaniment.Strategy

/-!
Accompaniments in ratios. A song whose times are ratios is reckoned with exactly: whatever is played
for it is what is played in exact time.
-/
namespace LeadSheet
variable {α β : Type}

/-! ### Times made into others -/

def Note.map (f : α → β) (n : Note α) : Note β := ⟨n.id, n.name, f n.start, f n.duration, n.location⟩

def Sheet.map (f : α → β) (s : Sheet α) : Sheet β where
  notes := s.notes.map (Note.map f)
  metadata := { s.metadata with beatsPerMeasure := s.metadata.beatsPerMeasure.map f }
  chords := s.chords.map (Prod.map f id)
  clefs := s.clefs.map (Prod.map f id)
  remarks := s.remarks.map (Prod.map f id)
  timeSignatures := s.timeSignatures.map (Prod.map f id)
  keySignatures := s.keySignatures.map fun change => ⟨f change.beat, change.count, change.location⟩
  name := s.name

/-- The song with its times made into others. -/
def Song.map (f : α → β) (s : Song α) : Song β where
  sheet := s.sheet.map f
  tracks := s.tracks.map (Prod.map id (Sheet.map f))
  fresh := s.fresh

def ChordBlock.map (f : α → β) {γ : Type} (b : ChordBlock α γ) : ChordBlock β γ :=
  ⟨f b.start, f b.stop, b.chord⟩

def ChordBlocks.map (f : α → β) {γ : Type} (blocks : ChordBlocks α γ) : ChordBlocks β γ :=
  ⟨blocks.kept.map (ChordBlock.map f), blocks.rejected.map (ChordBlock.map f)⟩

namespace Accompaniment

def Division.map (f : α → β) (d : Division α) : Division β := ⟨f d.left, f d.right, d.number⟩

def Played.map (f : α → β) (n : Played α) : Played β := ⟨n.name, f n.start, f n.duration⟩

end Accompaniment

/-! ### Ratios -/

namespace Timebase

private theorem lt_ratio (a b : Rat) :
    Timebase.lt (Number.ratio a) (.ratio b) = Timebase.lt a b := by
  change Number.lt (.ratio a) (.ratio b) = decide (a < b)
  simp [Number.lt, Number.place, Number.exact]

private theorem le_ratio (a b : Rat) :
    Timebase.le (Number.ratio a) (.ratio b) = Timebase.le a b := by
  change Number.le (.ratio a) (.ratio b) = decide (a ≤ b)
  simp [Number.le, Number.place, Number.exact]

private theorem least_ratio (a b : Rat) :
    Timebase.least (Number.ratio a) (.ratio b) = .ratio (Timebase.least a b) := by
  rw [Timebase.least, Timebase.least, lt_ratio]
  split <;> rfl

private theorem div_whole_ratio (a : Rat) (n : Int) :
    Timebase.div (Number.ratio a) (.whole n) = (Timebase.div a (n : Rat)).map .ratio := by
  change (if decide (n = 0) then _ else _) = (if (n : Rat) = 0 then _ else _ : Except Failure Rat).map _
  by_cases hn : n = 0
  · simp [hn]
    rfl
  · simp [hn]
    rfl

end Timebase

namespace ChordBlocks
variable {γ : Type}

private theorem measureEnd_ratio (beats start : Rat) :
    measureEnd (Number.ratio beats) (.ratio start) = (measureEnd beats start).map .ratio := by
  have hdiv : Timebase.floorDiv (Number.ratio start) (.ratio beats) =
      if beats = 0 then .error .divisionByZero else .ok (.whole (start / beats).floor) := by
    change (if decide (beats = 0) = true then _ else _) = _
    simp only [decide_eq_true_eq]
    rfl
  have hdiv' : Timebase.floorDiv start beats =
      if beats = 0 then .error .divisionByZero else .ok ((start / beats).floor : Rat) := rfl
  rw [measureEnd, measureEnd, hdiv, hdiv']
  split
  · rfl
  · change Except.ok (Number.ratio (((start / beats).floor + 1 : Int) * beats)) =
      Except.ok (Number.ratio (((start / beats).floor + ((1 : Int) : Rat)) * beats))
    rw [Int.cast_add]

private theorem place_ratio (beats start : Rat) (chord : γ) (blocks : ChordBlocks Rat γ) :
    place (Number.ratio beats) (.ratio start) chord (blocks.map .ratio) =
      (place beats start chord blocks).map (ChordBlocks.map .ratio) := by
  obtain ⟨kept, rejected⟩ := blocks
  have hput {ends : Number} {ends' : Rat} (h : ends = .ratio ends') :
      (if Timebase.le ends (.ratio start) then
        ⟨kept.map (ChordBlock.map .ratio),
          ⟨.ratio start, ends, chord⟩ :: rejected.map (ChordBlock.map .ratio)⟩
      else
        ⟨⟨.ratio start, ends, chord⟩ :: kept.map (ChordBlock.map .ratio),
          rejected.map (ChordBlock.map .ratio)⟩ : ChordBlocks Number γ) =
      (if Timebase.le ends' start then ⟨kept, ⟨start, ends', chord⟩ :: rejected⟩
      else ⟨⟨start, ends', chord⟩ :: kept, rejected⟩ : ChordBlocks Rat γ).map .ratio := by
    rw [h, Timebase.le_ratio]
    split <;> rfl
  rw [place, place, measureEnd_ratio]
  cases measureEnd beats start with
  | error e => rfl
  | ok stop =>
    refine congrArg Except.ok ?_
    cases kept with
    | nil => exact hput rfl
    | cons next kept => exact hput (Timebase.least_ratio stop next.start)

private theorem ofChords_ratio (beats : Rat) (chords : List (Rat × γ)) :
    ofChords (Number.ratio beats) (chords.map (Prod.map .ratio id)) =
      ((ofChords beats chords).1.map .ratio, (ofChords beats chords).2) := by
  induction chords with
  | nil => rfl
  | cons entry chords ih =>
    obtain ⟨start, chord⟩ := entry
    rw [List.map_cons, Prod.map, ofChords, ih, ofChords]
    rcases ofChords beats chords with ⟨blocks, e | ⟨⟩⟩
    · rfl
    · dsimp only
      rw [id, place_ratio]
      cases place beats start chord blocks <;> rfl

private theorem inMeasures_ratio (beats : Option Rat) (chords : List (Rat × γ)) :
    inMeasures (beats.map Number.ratio) (chords.map (Prod.map .ratio id)) =
      ((inMeasures beats chords).1.map .ratio, (inMeasures beats chords).2) := by
  cases beats with
  | none => rfl
  | some beats =>
    cases chords with
    | nil => rfl
    | cons entry chords => exact ofChords_ratio beats (entry :: chords)

end ChordBlocks

/-! ### Strategies -/

namespace Accompaniment
open NoteName

private theorem knownBeats_ratio (sheet : Sheet Rat) :
    knownBeats (sheet.map .ratio) = (knownBeats sheet).map Number.ratio := by
  rw [knownBeats, knownBeats, Sheet.map]
  cases sheet.metadata.beatsPerMeasure with
  | none => rfl
  | some beats =>
    change (if !decide (beats = 0) then _ else _) = (if !decide (beats = 0) then _ else _ : Option Rat).map _
    split <;> rfl

theorem ceiling_ratio (sheet : Sheet Rat) (settings : Settings) (start stop : Rat) :
    ceiling (sheet.map Number.ratio) settings (.ratio start) (.ratio stop) =
      ceiling sheet settings start stop := by
  have hsounds (n : Note Rat) : (n.map Number.ratio).soundsBetween (.ratio start) (.ratio stop) =
      n.soundsBetween start stop := by
    change Except.ok (Timebase.lt (Number.ratio start) (.ratio (n.start + n.duration)) &&
      Timebase.lt (Number.ratio n.start) (.ratio stop)) = _
    rw [Timebase.lt_ratio, Timebase.lt_ratio]
    rfl
  have hbetween : (sheet.map Number.ratio).notesBetween (.ratio start) (.ratio stop) =
      (sheet.notesBetween start stop).map (List.map (Note.map .ratio)) :=
    Except.filterM_map (p := fun n : Note Rat => n.soundsBetween start stop)
      (g := Note.map Number.ratio) hsounds sheet.notes
  rw [ceiling, ceiling, hbetween]
  cases sheet.notesBetween start stop with
  | error e => rfl
  | ok notes =>
    change ((notes.map (Note.map Number.ratio)).mapM fun n => pitch n.name) >>= _ = _
    rw [List.mapM_map]
    rfl

private theorem divisionsFrom_ratio (stop length : Rat) (fuel : Nat) (left : Rat) (number : Nat) :
    divisionsFrom (Number.ratio stop) (.ratio length) fuel (.ratio left) number =
      (divisionsFrom stop length fuel left number).map (List.map (Division.map .ratio)) := by
  induction fuel generalizing left number with
  | zero => rfl
  | succ fuel ih =>
    have hcons {right : Number} {right' : Rat} (h : right = .ratio right') :
        (if Timebase.le (.ratio stop) right then return [⟨.ratio left, right, number⟩] else do
          return ⟨.ratio left, right, number⟩ ::
            (← divisionsFrom (Number.ratio stop) (.ratio length) fuel (.ratio (left + length))
              (number + 1)) : Except Failure (List (Division Number))) =
        (if Timebase.le stop right' then return [⟨left, right', number⟩] else do
          return ⟨left, right', number⟩ ::
            (← divisionsFrom stop length fuel (left + length) (number + 1)) :
          Except Failure (List (Division Rat))).map (List.map (Division.map .ratio)) := by
      rw [h, Timebase.le_ratio, ih]
      split
      · rfl
      · exact Except.map_bind_eq_map_bind fun ds => rfl
    exact hcons (Timebase.least_ratio stop (left + length))

theorem divisions_ratio {sheet : Sheet Rat} {beats : Rat} (hbeats : knownBeats sheet = some beats)
    {count : Int} (hcount : 1 ≤ count) (start stop : Rat) :
    divisions (sheet.map .ratio) (.ratio start) (.ratio stop) (.whole count) =
      (divisions sheet start stop (.whole count)).map (List.map (Division.map Number.ratio)) := by
  obtain ⟨k, hk⟩ := Int.eq_ofNat_of_zero_le (sub_nonneg.mpr hcount)
  have hlength : divisionLength (sheet.map Number.ratio) (.whole count) =
      (divisionLength sheet (.whole count)).map .ratio := by
    have hsub : (Number.whole count).sub 1 = .ok (.whole k) := congrArg (Except.ok ∘ Number.whole) hk
    rw [divisionLength, divisionLength, knownBeats_ratio, hbeats, hsub]
    change Timebase.div (Number.ratio beats) (.whole (Nat.pow 2 k)) =
      (Timebase.div beats ((2 : Rat) ^ (k : Int))).map .ratio
    rw [Timebase.div_whole_ratio, Int.cast_natCast, zpow_natCast, Nat.pow_eq, Nat.cast_pow]
    rfl
  rw [divisions, divisions, hlength]
  exact Except.map_bind_eq_map_bind fun length => divisionsFrom_ratio ..

private theorem mapM_divisions_ratio {β γ : Type} {sheet : Sheet Rat} {beats : Rat}
    (hbeats : knownBeats sheet = some beats) {count : Int} (hcount : 1 ≤ count) (start stop : Rat)
    {f : Division Rat → Except Failure β} {f' : Division Number → Except Failure γ} {h : β → γ}
    (hf : ∀ d, f' (d.map .ratio) = (f d).map h) :
    (divisions (sheet.map .ratio) (.ratio start) (.ratio stop) (.whole count) >>= (·.mapM f')) =
      (divisions sheet start stop (.whole count) >>= (·.mapM f)).map (List.map h) := by
  rw [divisions_ratio hbeats hcount]
  exact Except.map_bind_eq_map_bind (Except.mapM_map_eq_map_mapM hf)

private theorem flatten_divisions_ratio {β γ : Type} {sheet : Sheet Rat} {beats : Rat}
    (hbeats : knownBeats sheet = some beats) {count : Int} (hcount : 1 ≤ count) (start stop : Rat)
    {f : Division Rat → Except Failure (List β)} {f' : Division Number → Except Failure (List γ)}
    {h : β → γ} (hf : ∀ d, f' (d.map .ratio) = (f d).map (List.map h)) :
    (do
      let parts ← (← divisions (sheet.map .ratio) (.ratio start) (.ratio stop) (.whole count)).mapM f'
      return parts.flatten) =
    (do
      let parts ← (← divisions sheet start stop (.whole count)).mapM f
      return parts.flatten : Except Failure (List β)).map (List.map h) := by
  rw [divisions_ratio hbeats hcount]
  refine Except.map_bind_eq_map_bind fun ds => ?_
  rw [Except.mapM_map_eq_map_mapM hf]
  exact Except.map_bind_eq_map_bind fun parts => congrArg Except.ok List.map_flatten.symm

private theorem playThrough_ratio (name : String) (d : Division Rat) :
    playThrough name (d.map .ratio) = (playThrough name d).map (Played.map Number.ratio) := rfl

private theorem playTurn_ratio {sheet : Sheet Rat} {beats : Rat}
    (hbeats : knownBeats sheet = some beats)
    (names : List String) (d : Division Rat) : playTurn (sheet.map .ratio) names (d.map .ratio) =
      (playTurn sheet names d).map (Played.map Number.ratio) := by
  rw [playTurn, playTurn, knownBeats_ratio, hbeats]
  exact Except.bind_eq_map_bind fun name => playThrough_ratio name d

private theorem playSyncopated_ratio (one two : String) (d : Division Rat) :
    playSyncopated one two (d.map .ratio) =
      (playSyncopated one two d).map (List.map (Played.map Number.ratio)) := by
  rw [playSyncopated, playSyncopated]
  refine Except.map_bind_eq_map_bind (x := Timebase.sub d.right d.left) fun span => ?_
  have hhalf : Timebase.div (Number.ratio span) (Timebase.ofInt 2) =
      (Timebase.div span (Timebase.ofInt 2)).map .ratio := Timebase.div_whole_ratio span 2
  rw [hhalf]
  refine Except.map_bind_eq_map_bind fun half => ?_
  rcases d with ⟨left, right, _ | _ | _ | _ | _⟩ <;> rfl

section
variable {sheet : Sheet Rat} {beats : Rat} {settings : Settings} {rate : Int}
  (hbeats : knownBeats sheet = some beats) (hrate : settings.rateNumber = .ok (.whole rate))
  (hone : 1 ≤ rate) (symbol : ChordSymbol) (start stop : Rat)

include hbeats

include hrate hone in
private theorem playRoot_ratio (root : String) :
    playRoot (sheet.map .ratio) settings root (.ratio start) (.ratio stop) =
      (playRoot sheet settings root start stop).map (List.map (Played.map Number.ratio)) := by
  rw [playRoot, playRoot, ceiling_ratio, hrate]
  refine Except.bind_eq_map_bind fun top => ?_
  refine Except.bind_eq_map_bind fun name => ?_
  exact mapM_divisions_ratio hbeats hone start stop (playThrough_ratio name)

include hrate hone in
private theorem playTriad_ratio :
    playTriad (sheet.map .ratio) settings symbol (.ratio start) (.ratio stop) =
      (playTriad sheet settings symbol start stop).map (List.map (Played.map Number.ratio)) := by
  rw [playTriad, playTriad, ceiling_ratio, hrate]
  refine Except.bind_eq_map_bind fun top => ?_
  refine Except.bind_eq_map_bind fun names => ?_
  have hnames (d : Division Rat) : names.mapM (fun name => playThrough name (d.map .ratio)) =
      (names.mapM fun name => playThrough name d).map (List.map (Played.map Number.ratio)) :=
    Except.mapM_eq_map_mapM (fun name => playThrough_ratio name d) names
  exact flatten_divisions_ratio hbeats hone start stop hnames

include hrate hone in
private theorem playRootAndFifth_ratio :
    playRootAndFifth (sheet.map .ratio) settings symbol (.ratio start) (.ratio stop) =
      (playRootAndFifth sheet settings symbol start stop).map
        (List.map (Played.map Number.ratio)) := by
  have hplay (names : List String) := mapM_divisions_ratio hbeats (show 1 ≤ 1 + rate by omega)
    start stop (playTurn_ratio hbeats names)
  rw [playRootAndFifth, playRootAndFifth, ceiling_ratio, hrate]
  refine Except.bind_eq_map_bind fun top => ?_
  refine Except.bind_eq_map_bind fun root => ?_
  refine Except.bind_eq_map_bind fun names => ?_
  refine Except.bind_eq_map_bind fun fifth => ?_
  refine Except.bind_eq_map_bind fun p => ?_
  dsimp only
  split
  · exact hplay names
  · refine Except.bind_eq_map_bind fun lower => ?_
    exact Except.bind_eq_map_bind fun names' => hplay names'

theorem playArpeggio_ratio :
    playArpeggio (sheet.map .ratio) settings symbol (.ratio start) (.ratio stop) =
      (playArpeggio sheet settings symbol start stop).map (List.map (Played.map Number.ratio)) := by
  have hds : divisions (sheet.map .ratio) (.ratio start) (.ratio stop) 3 =
      (divisions sheet start stop 3).map (List.map (Division.map Number.ratio)) :=
    divisions_ratio hbeats (show (1 : Int) ≤ 3 by decide) start stop
  rw [playArpeggio, playArpeggio, ceiling_ratio, hds]
  refine Except.bind_eq_map_bind fun top => ?_
  refine Except.bind_eq_map_bind fun names => ?_
  refine Except.bind_eq_map_bind fun first => ?_
  refine Except.bind_eq_map_bind fun second => ?_
  refine Except.bind_eq_map_bind fun third => ?_
  refine Except.map_bind_eq_map_bind fun ds => ?_
  dsimp only
  rw [← List.map_take, List.zip_map_left]
  exact Except.mapM_map_eq_map_mapM (f := fun part => playThrough part.2 part.1)
    (g := Prod.map (Division.map Number.ratio) id) (h := Played.map Number.ratio)
    (fun part => playThrough_ratio part.2 part.1) _

private theorem playBossaNova_ratio :
    playBossaNova (sheet.map .ratio) settings symbol (.ratio start) (.ratio stop) =
      (playBossaNova sheet settings symbol start stop).map (List.map (Played.map Number.ratio)) := by
  have hplay (one two : String) := flatten_divisions_ratio hbeats (show (1 : Int) ≤ 3 by decide)
    start stop (playSyncopated_ratio one two)
  rw [playBossaNova, playBossaNova, ceiling_ratio]
  refine Except.bind_eq_map_bind fun top => ?_
  refine Except.bind_eq_map_bind fun root => ?_
  refine Except.bind_eq_map_bind fun names => ?_
  refine Except.bind_eq_map_bind fun root => ?_
  refine Except.bind_eq_map_bind fun fifth => ?_
  refine Except.bind_eq_map_bind fun p => ?_
  dsimp only
  split
  · exact hplay root fifth
  · exact Except.bind_eq_map_bind fun lower => hplay lower root

include hrate hone in
/-- Whatever a strategy plays in ratios is what it plays in exact time. -/
theorem Strategy.play_ratio (strategy : Strategy) :
    strategy.play (sheet.map .ratio) settings symbol (.ratio start) (.ratio stop) =
      (strategy.play sheet settings symbol start stop).map (List.map (Played.map Number.ratio)) := by
  cases strategy with
  | base => rfl
  | root => exact playRoot_ratio hbeats hrate hone start stop symbol.root
  | triad => exact playTriad_ratio hbeats hrate hone symbol start stop
  | rootAndFifth => exact playRootAndFifth_ratio hbeats hrate hone symbol start stop
  | arpeggio => exact playArpeggio_ratio hbeats symbol start stop
  | bossaNova => exact playBossaNova_ratio hbeats symbol start stop

end

/-! ### Songs -/

private theorem blocks_ratio (sheet : Sheet Rat) :
    blocks (sheet.map .ratio) = ((blocks sheet).1.map Number.ratio, (blocks sheet).2) := by
  rw [blocks, blocks, knownBeats_ratio]
  exact ChordBlocks.inMeasures_ratio (knownBeats sheet) sheet.chords

private theorem nextTrack_map {α β : Type} (f : α → β) (song : Song α) :
    (song.map f).nextTrack = song.nextTrack := by
  rw [Song.nextTrack, Song.nextTrack, Song.map, List.map_map]
  rfl

private theorem addTrack_map {α β : Type} (f : α → β) (song : Song α) (new : List (Note α)) :
    addTrack (song.map f) (new.map (Note.map f)) = (addTrack song new).map f := by
  rw [addTrack, addTrack, nextTrack_map]
  simp [Song.map, Sheet.map, Sheet.ofNotes, Metadata.empty]

private theorem notes_ratio {song : Song Rat} {beats : Rat}
    (hbeats : knownBeats song.sheet = some beats)
    {settings : Settings} {rate : Int} (hrate : settings.rateNumber = .ok (.whole rate))
    (hone : 1 ≤ rate) (strategy : Strategy) (blocks : List (ChordBlock Rat ChordSymbol)) :
    notes (song.map .ratio) strategy settings (blocks.map (ChordBlock.map .ratio)) =
      (notes song strategy settings blocks).map (List.map (Note.map Number.ratio)) := by
  have hplay (b : ChordBlock Rat ChordSymbol) :=
    Strategy.play_ratio hbeats hrate hone b.chord b.start b.stop strategy
  rw [notes, notes, Except.mapM_map_eq_map_mapM hplay]
  refine Except.map_bind_eq_map_bind fun played => congrArg Except.ok ?_
  rw [← List.map_flatten]
  apply List.ext_getElem?
  intro i
  rw [List.getElem?_mapIdx, List.getElem?_map, List.getElem?_map, List.getElem?_mapIdx,
    Option.map_map, Option.map_map]
  rfl

/-- A song whose times are ratios is accompanied as in exact time. -/
theorem accompany_ratio (song : Song Rat) {settings : Settings} {rate : Int}
    (hrate : settings.rateNumber = .ok (.whole rate)) (hone : 1 ≤ rate) (strategy : Strategy) :
    (accompany (song.map .ratio) strategy settings).result =
      (accompany song strategy settings).result.map (Prod.map (Song.map Number.ratio) id) := by
  have hblocks : blocks (song.map Number.ratio).sheet = _ := blocks_ratio song.sheet
  rw [accompany, accompany, hblocks]
  dsimp only
  cases hbeats : knownBeats song.sheet with
  | none =>
    rw [blocks, hbeats]
    rfl
  | some beats =>
    refine Except.bind_eq_map_bind fun _ => ?_
    rw [ChordBlocks.map, notes_ratio hbeats hrate hone]
    refine Except.map_bind_eq_map_bind fun new => congrArg Except.ok ?_
    rw [addTrack_map, nextTrack_map]
    rfl

end Accompaniment
end LeadSheet
