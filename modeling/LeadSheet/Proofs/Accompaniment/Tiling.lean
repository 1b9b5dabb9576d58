import LeadSheet.Proofs.Accompaniment.Melody

/-!
How divisions fill a stretch of time. They have one length, but for the last of them, and follow each
other without gaps from the start to the end. A block lies within a measure, so that it has four
quarters at most, and an arpeggio plays a note in each of them.
-/
namespace LeadSheet.Accompaniment

/-- Divisions of a length that fill a stretch of time, the last of them with what is left of it. -/
structure Fills (length start stop : Rat) (ds : List (Division Rat)) : Prop where
  numbers : ds.map Division.number = List.range ds.length
  first : ds.head?.map Division.left = some start
  joined : ds.IsChain fun d next => d.right = next.left
  last : ds.getLast?.map Division.right = some stop
  full : ∀ d ∈ ds.dropLast, d.right - d.left = length
  rest : ∀ d ∈ ds.getLast?, 0 < d.right - d.left ∧ d.right - d.left ≤ length

/-- From when to when a division lasts. -/
def Division.span (d : Division Rat) : Rat × Rat := (d.left, d.right)

/-- From when to when a note sounds. -/
def Played.span (n : Played Rat) : Rat × Rat := (n.start, n.start + n.duration)

/-! ### Divisions -/

section
variable {stop length left : Rat} {number : Nat} {ds : List (Division Rat)}

private theorem Tiles.map_number (h : Tiles stop left number ds) :
    ds.map Division.number = List.range' number ds.length := by
  induction h with
  | last _ => rfl
  | next _ _ _ ih => rw [List.map_cons, ih, List.length_cons, List.range'_succ]

private theorem Tiles.head?_left (h : Tiles stop left number ds) :
    ds.head?.map Division.left = some left := by
  cases h <;> rfl

private theorem Tiles.isChain (h : Tiles stop left number ds) :
    ds.IsChain fun d next => d.right = next.left := by
  induction h with
  | last _ => exact List.isChain_singleton _
  | next _ _ tail ih =>
    refine List.isChain_cons.mpr ⟨fun next hnext => ?_, ih⟩
    have hhead := tail.head?_left
    rw [Option.mem_def.mp hnext] at hhead
    exact (Option.some.inj hhead).symm

private theorem Tiles.getLast?_right (h : Tiles stop left number ds) :
    ds.getLast?.map Division.right = some stop := by
  induction h with
  | last _ => rfl
  | next _ _ tail ih => rwa [List.getLast?_cons_of_ne_nil tail.ne_nil]

/-- Exactly the time from the first division to the end lies in divisions. -/
theorem Tiles.exists_mem_iff (h : Tiles stop left number ds) (beat : Rat) :
    (∃ d ∈ ds, d.left ≤ beat ∧ beat < d.right) ↔ left ≤ beat ∧ beat < stop := by
  constructor
  · rintro ⟨d, hd, hfrom, huntil⟩
    obtain ⟨hleft, -, hright⟩ := h.mem hd
    exact ⟨hleft.trans hfrom, huntil.trans_le hright⟩
  · rintro ⟨hfrom, huntil⟩
    induction h with
    | last _ => exact ⟨_, List.mem_singleton_self _, hfrom, huntil⟩
    | @next left right number ds _ _ _ ih =>
      by_cases hright : beat < right
      · exact ⟨_, List.mem_cons_self, hfrom, hright⟩
      · obtain ⟨d, hd, hbeat⟩ := ih (not_lt.mp hright)
        exact ⟨d, List.mem_cons_of_mem _ hd, hbeat⟩

private theorem Cuts.full (h : Cuts stop length left number ds) :
    ∀ d ∈ ds.dropLast, d.right - d.left = length := by
  induction h with
  | last _ => exact fun d hd => (List.not_mem_nil hd).elim
  | @next left number ds _ tail ih =>
    have hne : ds ≠ [] := by cases tail <;> exact List.cons_ne_nil _ _
    rw [List.dropLast_cons_of_ne_nil hne]
    exact List.forall_mem_cons.mpr ⟨add_sub_cancel_left left length, ih⟩

private theorem Cuts.span_le (h : Cuts stop length left number ds) :
    ∀ d ∈ ds, d.right - d.left ≤ length := by
  induction h with
  | last h => exact List.forall_mem_singleton.mpr (by linarith)
  | next _ _ ih => exact List.forall_mem_cons.mpr ⟨(add_sub_cancel_left _ length).le, ih⟩

/-- All divisions but the last one have room in front of the end. -/
theorem Cuts.length_mul_lt (h : Cuts stop length left number ds) (hleft : left < stop) :
    ((ds.length : Rat) - 1) * length < stop - left := by
  induction h with
  | last _ =>
    rw [List.length_singleton, Nat.cast_one, sub_self, zero_mul]
    exact sub_pos.mpr hleft
  | next hnext _ ih =>
    have htail := ih hnext
    rw [List.length_cons, Nat.cast_succ]
    linarith

private theorem Cuts.fills (h : Cuts stop length left 0 ds) (hlength : 0 < length)
    (hleft : left < stop) :
    Fills length left stop ds := by
  have htiles := h.tiles hlength hleft
  refine ⟨?_, htiles.head?_left, htiles.isChain, htiles.getLast?_right, h.full, fun d hd => ?_⟩
  · rw [htiles.map_number, List.range_eq_range']
  · have hd := List.mem_of_getLast? hd
    exact ⟨sub_pos.mpr (htiles.mem hd).2.1, h.span_le d hd⟩

end

/-! ### Arpeggios -/

/-- A block has four quarters of a measure at most. -/
theorem length_le_four_of_cuts {sheet : Sheet Rat} {b : ChordBlock Rat ChordSymbol}
    (hb : b ∈ (blocks sheet).1.kept) {ds : List (Division Rat)}
    (h : Cuts b.stop (measureBeats sheet / 2 ^ ((3 : Int) - 1)) b.start 0 ds) : ds.length ≤ 4 := by
  obtain ⟨beats, hknown, hlasts⟩ := ChordBlocks.lasts_of_mem_inMeasures hb
  have hpos := ChordBlocks.pos_of_lasts hlasts
  have hquarter : measureBeats sheet / 2 ^ ((3 : Int) - 1) = beats / 4 := by
    rw [measureBeats, hknown, Option.getD_some]
    norm_num
  rw [hquarter] at h
  have hlt := (h.length_mul_lt hlasts.lt).trans_le hlasts.span_le
  have hlength : ((ds.length : Rat) - 1) < 4 := by
    by_contra hge
    have := mul_le_mul_of_nonneg_right (not_lt.mp hge) (div_pos hpos four_pos).le
    linarith
  have hcast : (ds.length : Rat) < ((5 : Nat) : Rat) := by
    push_cast
    linarith
  exact Nat.le_of_lt_succ (Nat.cast_lt.mp hcast)

/-- The notes of an arpeggio last as long as the divisions. -/
theorem map_span_playArpeggio {sheet : Sheet Rat} {settings : Settings} {symbol : ChordSymbol}
    {start stop : Rat} {ds : List (Division Rat)} (hds : divisions sheet start stop 3 = .ok ds)
    (hlength : ds.length ≤ 4) {played : List (Played Rat)}
    (h : playArpeggio sheet settings symbol start stop = .ok played) :
    played.map Played.span = ds.map Division.span := by
  obtain ⟨top, names, first, second, third, -, -, -, -, -, rfl⟩ :=
    (playArpeggio_eq_ok_iff hds).mp h
  rw [List.take_of_length_le hlength]
  have hfst : (ds.zip [first, second, third, second]).map Prod.fst = ds :=
    List.map_fst_zip hlength
  conv_rhs => rw [← hfst]
  rw [List.map_map, List.map_map]
  refine List.map_congr_left fun part _ => ?_
  simp [Played.span, Division.span]

private theorem exists_note_iff {played : List (Played Rat)} {ds : List (Division Rat)}
    (h : played.map Played.span = ds.map Division.span) (beat : Rat) :
    (∃ n ∈ played, n.start ≤ beat ∧ beat < n.start + n.duration) ↔
      ∃ d ∈ ds, d.left ≤ beat ∧ beat < d.right := by
  calc (∃ n ∈ played, n.start ≤ beat ∧ beat < n.start + n.duration)
      ↔ ∃ span ∈ played.map Played.span, span.1 ≤ beat ∧ beat < span.2 := by simp [Played.span]
    _ ↔ ∃ span ∈ ds.map Division.span, span.1 ≤ beat ∧ beat < span.2 := by rw [h]
    _ ↔ ∃ d ∈ ds, d.left ≤ beat ∧ beat < d.right := by simp [Division.span]

/-- Any stretch of time is divided into parts of one length, the last of which is what is left. In
ratios it is divided as in exact time. For a block there are four quarters of a measure at most, and a
chord with three notes or more is played there as an arpeggio, with a note for each of them and sounding
all the time. -/
theorem divisions_fill_blocks (sheet : Sheet Rat) :
    (∀ beats, sheet.metadata.beatsPerMeasure = some beats → 0 < beats →
      ∀ start stop : Rat, start < stop → ∀ count : Int, 1 ≤ count →
      ∃ ds, divisions sheet start stop (.whole count) = .ok ds ∧
        divisions (sheet.map .ratio) (.ratio start) (.ratio stop) (.whole count) =
          .ok (ds.map (Division.map Number.ratio)) ∧
        Fills (beats / 2 ^ (count - 1)) start stop ds) ∧
    ∀ b ∈ (blocks sheet).1.kept, ∃ ds, divisions sheet b.start b.stop 3 = .ok ds ∧ ds.length ≤ 4 ∧
      ∀ settings : Settings,
        ((∃ played, Strategy.arpeggio.play sheet settings b.chord b.start b.stop = .ok played) ↔
          ∃ top names, ceiling sheet settings b.start b.stop = .ok top ∧
            chordBelow b.chord.root b.chord.shape top = .ok names ∧ 3 ≤ names.length) ∧
        ∀ played, Strategy.arpeggio.play sheet settings b.chord b.start b.stop = .ok played →
          Strategy.arpeggio.play (sheet.map .ratio) settings b.chord (.ratio b.start)
            (.ratio b.stop) = .ok (played.map (Played.map Number.ratio)) ∧
          played.map Played.span = ds.map Division.span ∧
          ∀ beat, (∃ n ∈ played, n.start ≤ beat ∧ beat < n.start + n.duration) ↔
            b.start ≤ beat ∧ beat < b.stop := by
  refine ⟨fun beats hbeats hpos start stop hlt count hone => ?_, fun b hb => ?_⟩
  · have hknown := knownBeats_eq_some hbeats hpos
    have hmeasure : ∀ beats' ∈ sheet.metadata.beatsPerMeasure, 0 < beats' := by
      rw [hbeats]
      rintro _ ⟨⟩
      exact hpos
    obtain ⟨ds, hds, hcuts⟩ := cuts_divisions hmeasure hlt count
    rw [measureBeats, hknown, Option.getD_some] at hcuts
    refine ⟨ds, hds, ?_, hcuts.fills (div_pos hpos (zpow_pos two_pos _)) hlt⟩
    rw [divisions_ratio hknown hone, hds]
    rfl
  · obtain ⟨beats, hknown, -⟩ := ChordBlocks.lasts_of_mem_inMeasures hb
    obtain ⟨hlt, -, hmeasure⟩ := of_mem_blocks hb
    obtain ⟨ds, hds, hcuts⟩ := cuts_divisions hmeasure hlt 3
    have htiles := hcuts.tiles (div_pos (measureBeats_pos hmeasure) (zpow_pos two_pos _)) hlt
    have hlength := length_le_four_of_cuts hb hcuts
    refine ⟨ds, hds, hlength, fun settings => ⟨exists_playArpeggio_iff hds, ?_⟩⟩
    intro played hplayed
    have hspans := map_span_playArpeggio hds hlength hplayed
    refine ⟨?_, hspans, fun beat => ?_⟩
    · have hplayed : playArpeggio sheet settings b.chord b.start b.stop = .ok played := hplayed
      refine (playArpeggio_ratio hknown b.chord b.start b.stop).trans ?_
      rw [hplayed]
      rfl
    · rw [exists_note_iff hspans, htiles.exists_mem_iff]

/-- A chord in the middle of the first beat of a measure. -/
def upbeat : Sheet Rat :=
  { Sheet.empty with metadata := ⟨none, some 4, none⟩, chords := [(1 / 2, ⟨"A", .named "m7"⟩)] }

theorem divisions_fill_blocks_upbeat :
    ∃ b ∈ (blocks upbeat).1.kept, b.start = 1 / 2 ∧ b.stop = 4 ∧
      ∃ ds played, divisions upbeat b.start b.stop 3 = .ok ds ∧ ds.length ≤ 4 ∧
        Fills (4 / 2 ^ ((3 : Int) - 1)) b.start b.stop ds ∧
        Strategy.arpeggio.play upbeat .plain b.chord b.start b.stop = .ok played ∧
        ∀ beat, (∃ n ∈ played, n.start ≤ beat ∧ beat < n.start + n.duration) ↔
          b.start ≤ beat ∧ beat < b.stop := by
  have hblocks : (blocks upbeat).1.kept = [⟨1 / 2, 4, ⟨"A", .named "m7"⟩⟩] := by decide +kernel
  have hmem : ⟨1 / 2, 4, ⟨"A", .named "m7"⟩⟩ ∈ (blocks upbeat).1.kept := by
    rw [hblocks]
    exact List.mem_singleton_self _
  obtain ⟨played, hplayed⟩ : ∃ played, Strategy.arpeggio.play upbeat .plain
      ⟨"A", .named "m7"⟩ (1 / 2) 4 = .ok played := Except.exists_eq_ok (by decide +kernel)
  obtain ⟨ds, hds, hlength, hplay⟩ := (divisions_fill_blocks upbeat).2 _ hmem
  obtain ⟨ds', hds', -, hfills⟩ := (divisions_fill_blocks upbeat).1 4 rfl (by norm_num) (1 / 2) 4
    (by norm_num) 3 (by decide)
  obtain rfl := Except.ok.inj (hds.symm.trans hds')
  exact ⟨_, hmem, rfl, rfl, ds, played, hds, hlength, hfills, hplayed,
    ((hplay .plain).2 played hplayed).2.2⟩

end LeadSheet.Accompaniment
