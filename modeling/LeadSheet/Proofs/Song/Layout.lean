import LeadSheet.Proofs.Arrangement.Order
import LeadSheet.Proofs.Number.Unrounded
import LeadSheet.Proofs.Song.Measures

/-!
How measures are laid out. They follow each other from beat zero on without gaps, and the last one is
the first that reaches the end of the notes. Where the log of time signatures is in the order of time,
each measure has the beats that are in force where it starts.
-/
namespace LeadSheet
open Number (StandsFor)

private theorem Number.le_trans {a b c : Number} (hab : a.le b = true) (hbc : b.le c = true) :
    a.le c = true := by
  rw [le] at hab hbc ⊢
  cases ha : a.place with
  | none => simp [ha] at hab
  | some p =>
    cases hb : b.place with
    | none => simp [ha, hb] at hab
    | some q =>
      cases hc : c.place with
      | none => simp [hb, hc] at hbc
      | some r =>
        simp only [ha, hb, hc, Bool.or_eq_true, Bool.and_eq_true, beq_iff_eq, decide_eq_true_eq]
          at hab hbc ⊢
        rcases hab with hij | ⟨hij, hpq⟩
        · rcases hbc with hjk | ⟨hjk, -⟩
          · exact .inl (hij.trans hjk)
          · exact .inl (hjk ▸ hij)
        · rcases hbc with hjk | ⟨hjk, hqr⟩
          · exact .inl (hij ▸ hjk)
          · exact .inr ⟨hij.trans hjk, hpq.trans hqr⟩

/-- A datum that gives an exact number of beats, not less than some least one. -/
def Datum.Counts (least : Rat) (d : Datum) : Prop :=
  ∃ b, d.toNumber = .ok b ∧ b.Exact ∧ least ≤ b.exact

namespace Sheet

/-- The beats of the last of some entries, or others if there is none. -/
def lastBeats (others : Datum) (entries : List (Number × Datum)) : Datum :=
  (entries.getLast?.map Prod.snd).getD others

/-- The beats in force at a position: those of the last entry of the log up to there, and in front of
all entries those of the first one. An empty log stands for four beats. -/
def beatsInForce (log : List (Number × Datum)) (position : Number) : Datum :=
  lastBeats ((log.head?.map Prod.snd).getD (.whole Ticks.defaultBeats))
    (log.filter fun entry => entry.1.le position)

/-- Measures that follow each other without gaps from a beat on, up to the first one that reaches an
end. -/
structure Tiles (start : Number) (stop : Rat) (ms : List (Measure Number)) : Prop where
  exact : ∀ m ∈ ms, m.start.Exact ∧ m.beats.Exact ∧ 0 < m.beats.exact
  first : ms.head?.map Measure.start = some start
  next : ms.IsChain fun m m' =>
    m.start.add m.beats = .ok m'.start ∧ m'.start.exact = m.start.exact + m.beats.exact
  reaches : ∃ last, ms.getLast? = some last ∧ last.start.exact < stop ∧
    stop ≤ last.start.exact + last.beats.exact

private theorem tiles_singleton {stop : Rat} {m : Measure Number}
    (hm : m.start.Exact ∧ m.beats.Exact ∧ 0 < m.beats.exact) (hlt : m.start.exact < stop)
    (hle : stop ≤ m.start.exact + m.beats.exact) : Tiles m.start stop [m] :=
  ⟨List.forall_mem_singleton.mpr hm, rfl, .singleton m, m, rfl, hlt, hle⟩

private theorem Tiles.cons {stop : Rat} {m : Measure Number} {next : Number}
    {ms : List (Measure Number)}
    (h : Tiles next stop ms) (hm : m.start.Exact ∧ m.beats.Exact ∧ 0 < m.beats.exact)
    (hadd : m.start.add m.beats = .ok next) (hsum : next.exact = m.start.exact + m.beats.exact) :
    Tiles m.start stop (m :: ms) := by
  obtain ⟨last, hlast, hreach⟩ := h.reaches
  refine ⟨List.forall_mem_cons.mpr ⟨hm, h.exact⟩, rfl, ?_, last, ?_, hreach⟩
  · refine List.isChain_cons.mpr ⟨fun m' hm' => ?_, h.next⟩
    obtain ⟨first, hfirst, rfl⟩ := Option.map_eq_some_iff.mp h.first
    obtain rfl := Option.mem_unique hm' hfirst
    exact ⟨hadd, hsum⟩
  · rw [List.getLast?_cons, hlast, Option.getD_some]

/-- From the end on there are no measures. -/
theorem measuresFrom_of_not_lt {stop position : Number} (h : position.lt stop = false) (fuel : Nat)
    (beats : Datum) (log : List (Number × Datum)) :
    measuresFrom stop fuel position beats log = .ok [] := by
  cases fuel with
  | zero => rfl
  | succ fuel =>
    rw [measuresFrom]
    change (if !position.lt stop then _ else _) = _
    rw [h]
    rfl

/-- In front of the end a measure is followed by those behind it. -/
theorem measuresFrom_of_lt {stop position count next : Number} (h : position.lt stop = true)
    {fuel : Nat} {beats beats' : Datum} {log log' : List (Number × Datum)}
    (htake : takeSignatures position beats log = (beats', log'))
    (hcount : beats'.toNumber = .ok count) (hnext : position.add count = .ok next) :
    measuresFrom stop (fuel + 1) position beats log =
      (measuresFrom stop fuel next beats' log').map fun ms => ⟨position, count⟩ :: ms := by
  rw [measuresFrom, htake]
  change (if !position.lt stop then _ else _) = _
  rw [h]
  change (beats'.toNumber >>= _) >>= _ = _
  rw [hcount]
  change position.add count >>= _ = _
  rw [hnext]
  rfl

/-- Where all entries of the log give some least number of beats, and as many of these as there is
fuel reach the end, the measures reach the end. -/
theorem exists_tiles {stop : Number} {q least : Rat} (hstop : stop.StandsFor q) (hleast : 0 < least)
    (fuel : Nat) {position : Number} {beats : Datum} {log : List (Number × Datum)}
    (hexact : position.Exact) (hlt : position.exact < q) (hfuel : q - position.exact ≤ fuel * least)
    (hbeats : beats.Counts least) (hlog : ∀ entry ∈ log, entry.2.Counts least) :
    ∃ ms, measuresFrom stop fuel position beats log = .ok ms ∧ Tiles position q ms := by
  induction fuel generalizing position beats log with
  | zero =>
    rw [Nat.cast_zero, zero_mul] at hfuel
    linarith
  | succ fuel ih =>
    obtain ⟨⟨count, hcount, hcounts, hle⟩, hrest⟩ :=
      takeSignatures_keeps (Datum.Counts least) position hbeats hlog
    obtain ⟨next, hnext, hexact', heq⟩ := hexact.add hcounts
    have hmeasure := And.intro hexact (And.intro hcounts (hleast.trans_le hle))
    rw [measuresFrom_of_lt ((hexact.standsFor.lt_iff hstop).mpr hlt) (Prod.mk.eta).symm hcount hnext]
    by_cases hend : next.exact < q
    · obtain ⟨ms, hms, htiles⟩ := ih hexact' hend (by push_cast at hfuel; linarith)
        ⟨count, hcount, hcounts, hle⟩ hrest
      rw [hms]
      exact ⟨_, rfl, htiles.cons (m := ⟨position, count⟩) hmeasure hnext heq⟩
    · have hnot : next.lt stop = false :=
        Bool.eq_false_iff.mpr (mt (hexact'.standsFor.lt_iff hstop).mp hend)
      rw [measuresFrom_of_not_lt hnot]
      exact ⟨_, rfl, tiles_singleton (m := ⟨position, count⟩) hmeasure hlt (heq ▸ not_lt.mp hend)⟩

/-! ### The beats in force -/

private theorem lastBeats_append (others : Datum) (entries entries' : List (Number × Datum)) :
    lastBeats others (entries ++ entries') = lastBeats (lastBeats others entries) entries' := by
  rw [lastBeats, lastBeats, List.getLast?_append]
  cases entries'.getLast? <;> rfl

/-- The entries up to a position are taken off the front of the log. -/
theorem takeSignatures_eq (position : Number) (beats : Datum) (log : List (Number × Datum)) :
    takeSignatures position beats log =
      (lastBeats beats (log.takeWhile fun entry => entry.1.le position),
        log.dropWhile fun entry => entry.1.le position) := by
  induction log generalizing beats with
  | nil => rfl
  | cons entry log ih =>
    obtain ⟨beat, next⟩ := entry
    rw [takeSignatures, List.takeWhile_cons, List.dropWhile_cons]
    change (if beat.le position then _ else _) = _
    cases beat.le position with
    | true =>
      rw [if_pos rfl, if_pos rfl, if_pos rfl, ih, ← List.singleton_append, lastBeats_append]
      rfl
    | false => rfl

/-- In a log in the order of time, the entries up to a position stand in front of the others. -/
theorem filter_le_eq_takeWhile {log : List (Number × Datum)} (h : Ascending (log.map Prod.fst))
    (position : Number) : (log.filter fun entry => entry.1.le position) =
      log.takeWhile fun entry => entry.1.le position := by
  induction log with
  | nil => rfl
  | cons entry log ih =>
    obtain ⟨hhead, htail⟩ := List.pairwise_cons.mp h
    rw [List.filter_cons, List.takeWhile_cons]
    cases hle : entry.1.le position with
    | true =>
      rw [if_pos rfl, if_pos rfl, ih htail]
    | false =>
      refine List.filter_eq_nil_iff.mpr fun later hlater hle' => ?_
      have hlate := Number.le_trans (hhead _ (List.mem_map_of_mem hlater)) hle'
      rw [hle] at hlate
      cases hlate

/-- A measure has the beats in force where it starts: what was taken off the log, and what is left of
it, is in the order of time. -/
theorem inForce_of_mem_measuresFrom {stop : Number} {others : Datum} (fuel : Nat) {position : Number}
    {taken log : List (Number × Datum)} (hexact : position.Exact)
    (hasc : Ascending ((taken ++ log).map Prod.fst))
    (htaken : ∀ entry ∈ taken, entry.1.le position = true) (hothers : others.Counts 0)
    (hcounts : ∀ entry ∈ taken ++ log, entry.2.Counts 0) {ms : List (Measure Number)}
    (h : measuresFrom stop fuel position (lastBeats others taken) log = .ok ms) :
    ∀ m ∈ ms, (lastBeats others ((taken ++ log).filter fun entry =>
      entry.1.le m.start)).toNumber = .ok m.beats := by
  induction fuel generalizing position taken log ms with
  | zero =>
    obtain rfl := Except.ok.inj h
    exact fun m hm => (List.not_mem_nil hm).elim
  | succ fuel ih =>
    cases hlt : position.lt stop with
    | false =>
      rw [measuresFrom_of_not_lt hlt] at h
      obtain rfl := Except.ok.inj h
      exact fun m hm => (List.not_mem_nil hm).elim
    | true =>
      have hup : Ascending (log.map Prod.fst) := by
        rw [List.map_append] at hasc
        exact (List.pairwise_append.mp hasc).2.1
      -- what is taken off now goes behind what was taken off before
      have hsplit : taken ++ log = (taken ++ log.takeWhile fun entry => entry.1.le position) ++
          log.dropWhile fun entry => entry.1.le position := by
        rw [List.append_assoc, List.takeWhile_append_dropWhile]
      have hfilter : (taken ++ log).filter (fun entry => entry.1.le position) =
          taken ++ log.takeWhile fun entry => entry.1.le position := by
        rw [List.filter_append, List.filter_eq_self.mpr htaken, filter_le_eq_takeWhile hup]
      have htake := takeSignatures_eq position (lastBeats others taken) log
      rw [← lastBeats_append] at htake
      obtain ⟨count, hcount, hcountexact, hnonneg⟩ :
          (lastBeats others (taken ++ log.takeWhile fun entry => entry.1.le position)).Counts 0 := by
        rw [← hfilter, lastBeats]
        cases hl : ((taken ++ log).filter fun entry => entry.1.le position).getLast? with
        | none => exact hothers
        | some last => exact hcounts last (List.mem_filter.mp (List.mem_of_getLast? hl)).1
      obtain ⟨next, hnext, hnextexact, heq⟩ := hexact.add hcountexact
      rw [measuresFrom_of_lt hlt htake hcount hnext] at h
      obtain ⟨rest, hrest, rfl⟩ := Except.map_eq_ok_iff.mp h
      have hle : position.le next = true :=
        (hexact.standsFor.le_iff hnextexact.standsFor).mpr (by linarith)
      refine List.forall_mem_cons.mpr ⟨by rw [hfilter]; exact hcount, ?_⟩
      rw [hsplit] at hasc hcounts ⊢
      refine ih hnextexact hasc ?_ hcounts hrest
      rw [← hfilter]
      exact fun entry hentry => Number.le_trans (List.mem_filter.mp hentry).2 hle

/-! ### Sheets -/

/-- The log by which measures are laid out: an empty one stands for four beats from beat zero on. -/
def signatures (s : Sheet Number) : List (Number × Datum) :=
  match s.timeSignatures with
  | [] => [(.whole 0, .whole Ticks.defaultBeats)]
  | log => log

/-- As many steps as fit into a span reach its end. -/
theorem le_stepBound_mul (span : Rat) {step : Rat} (h : 0 < step) :
    span ≤ Timebase.stepBound span step * step := by
  have hceil : span / step ≤ ((span / step).ceil.toNat : Rat) := by
    calc span / step ≤ ((span / step).ceil : Rat) := Rat.le_ceil
      _ ≤ (((span / step).ceil.toNat : Int) : Rat) := Int.cast_le.mpr (Int.self_le_toNat _)
      _ = ((span / step).ceil.toNat : Rat) := Int.cast_natCast _
  rw [← div_le_iff₀ h, Timebase.stepBound, if_neg (not_le.mpr h)]
  push_cast
  linarith [Nat.cast_nonneg (α := Rat) (span / step).ceil.toNat]

variable {s : Sheet Number}

private theorem measures_eq_of_signatures {stop : Number} (hstop : s.stop = .ok stop) :
    s.measures = measuresFrom stop (measureBound stop s.signatures) (.whole 0)
      ((s.signatures.head?.map Prod.snd).getD (.whole Ticks.defaultBeats)) s.signatures := by
  rw [measures, hstop, signatures]
  cases s.timeSignatures <;> rfl

/-- An empty log and the one that it stands for have the same beats in force. -/
theorem beatsInForce_signatures (position : Number) :
    beatsInForce s.signatures position = beatsInForce s.timeSignatures position := by
  rw [signatures]
  split
  · next h =>
    rw [h, beatsInForce, List.filter_cons]
    split <;> rfl
  · rfl

private theorem forall_signatures {P : Number × Datum → Prop}
    (h : ∀ entry ∈ s.timeSignatures, P entry)
    (husual : P (.whole 0, .whole Ticks.defaultBeats)) : ∀ entry ∈ s.signatures, P entry := by
  rw [signatures]
  split
  · exact List.forall_mem_singleton.mpr husual
  · exact h

/-- The beats in front of all entries are those of one of them. -/
theorem exists_first_signature : ∃ first ∈ s.signatures,
    (s.signatures.head?.map Prod.snd).getD (.whole Ticks.defaultBeats) = first.2 := by
  obtain ⟨first, rest, h⟩ : ∃ first rest, s.signatures = first :: rest := by
    rw [signatures]
    split
    · exact ⟨_, _, rfl⟩
    · next hne => exact List.exists_cons_of_ne_nil hne
  exact ⟨first, h ▸ List.mem_cons_self, by rw [h]; rfl⟩

private theorem ascending_signatures (h : Ascending (s.timeSignatures.map Prod.fst)) :
    Ascending (s.signatures.map Prod.fst) := by
  rw [signatures]
  split
  · exact List.pairwise_singleton _ _
  · exact h

/-- The bound on the number of measures is enough for measures of any length in the log. -/
theorem exists_least_signature {stop : Number} {q : Rat} (hq : stop.StandsFor q) (hpos : 0 < q)
    (hlog : ∀ entry ∈ s.timeSignatures,
      ∃ b, entry.2.toNumber = .ok b ∧ b.Exact ∧ 0 < b.exact) :
    ∃ least, 0 < least ∧ q ≤ measureBound stop s.signatures * least ∧
      ∀ entry ∈ s.signatures, entry.2.Counts least := by
  have hbound : ∀ entry ∈ s.signatures, ∃ b, entry.2.toNumber = .ok b ∧ b.Exact ∧ 0 < b.exact ∧
      q ≤ measureBound stop s.signatures * b.exact := by
    intro entry hentry
    obtain ⟨b, hb, hexact, hb0⟩ :=
      forall_signatures hlog ⟨.whole 4, rfl, .whole 4, by norm_num [Number.exact]⟩ entry hentry
    have hle := le_measureBound stop hentry hb
    refine ⟨b, hb, hexact, hb0, ?_⟩
    calc q ≤ Timebase.stepBound stop.exact b.exact * b.exact := by
          rw [hq.exact_eq]
          exact le_stepBound_mul q hb0
      _ ≤ measureBound stop s.signatures * b.exact := by gcongr
  have hfuel : (0 : Rat) < measureBound stop s.signatures := by
    obtain ⟨first, hfirst, -⟩ := s.exists_first_signature
    obtain ⟨b, -, -, hb0, hle⟩ := hbound first hfirst
    exact pos_of_mul_pos_left (hpos.trans_le hle) hb0.le
  refine ⟨q / measureBound stop s.signatures, div_pos hpos hfuel, ?_, fun entry hentry => ?_⟩
  · rw [mul_div_cancel₀ _ hfuel.ne']
  · obtain ⟨b, hb, hexact, -, hle⟩ := hbound entry hentry
    exact ⟨b, hb, hexact, (div_le_iff₀' hfuel).mpr hle⟩

/-- Where the notes end behind beat zero, and all time signatures have exact and positive beats, the
measures follow each other from beat zero on up to the first one that reaches the end. By a log in the
order of time, each has the beats in force where it starts. -/
theorem measures_tile {stop : Number} {q : Rat} (hstop : s.stop = .ok stop) (hq : stop.StandsFor q)
    (hpos : 0 < q) (hlog : ∀ entry ∈ s.timeSignatures,
      ∃ b, entry.2.toNumber = .ok b ∧ b.Exact ∧ 0 < b.exact) :
    ∃ ms, s.measures = .ok ms ∧ Tiles (.whole 0) q ms ∧
      (Ascending (s.timeSignatures.map Prod.fst) →
        ∀ m ∈ ms, (beatsInForce s.timeSignatures m.start).toNumber = .ok m.beats) := by
  obtain ⟨least, hleast, hfuel, hcounts⟩ := exists_least_signature hq hpos hlog
  obtain ⟨first, hfirst, hhead⟩ := s.exists_first_signature
  have hzero : (Number.whole 0).exact = 0 := Int.cast_zero
  obtain ⟨ms, hms, htiles⟩ := exists_tiles hq hleast (measureBound stop s.signatures) (.whole 0)
    (hzero ▸ hpos) (by rwa [hzero, sub_zero]) (hcounts first hfirst) hcounts
  refine ⟨ms, by rw [measures_eq_of_signatures hstop, hhead, hms], htiles, ?_⟩
  intro hasc m hm
  have hascending := ascending_signatures hasc
  have hnonneg : ∀ entry ∈ s.signatures, entry.2.Counts 0 := by
    intro entry hentry
    obtain ⟨b, hb, hexact, hle⟩ := hcounts entry hentry
    exact ⟨b, hb, hexact, hleast.le.trans hle⟩
  rw [← beatsInForce_signatures, beatsInForce, hhead]
  -- in front of the first measure nothing is taken off the log
  rw [← List.nil_append s.signatures] at hascending hnonneg ⊢
  exact inForce_of_mem_measuresFrom _ (.whole 0) hascending (List.forall_mem_nil _)
    (hnonneg first hfirst) hnonneg hms m hm

/-- Two time signatures change off the bar lines, the second before the first of them takes hold, and
a third behind the end. -/
theorem measures_tile_offbeat :
    let s : Sheet Number :=
      { Sheet.ofNotes [⟨0, "C4", 0, .ratio (23 / 2), none⟩] with
        timeSignatures := [(.whole 1, .whole 3), (.ratio (7 / 2), .whole 2),
          (.approx (.finite 4), .number (.ratio (5 / 2))), (.whole 100, .whole 7)] }
    ∃ ms, s.measures = .ok ms ∧ Tiles (.whole 0) (23 / 2) ms ∧
      ms = [⟨0, 3⟩, ⟨3, 3⟩, ⟨6, .ratio (5 / 2)⟩, ⟨.ratio (17 / 2), .ratio (5 / 2)⟩,
        ⟨.ratio 11, .ratio (5 / 2)⟩] ∧
      ∀ m ∈ ms, (beatsInForce s.timeSignatures m.start).toNumber = .ok m.beats := by
  intro s
  have hstop : s.stop = .ok (.ratio (23 / 2)) := by decide +kernel
  have hlog : ∀ entry ∈ s.timeSignatures, ∃ b, entry.2.toNumber = .ok b ∧ b.Exact ∧ 0 < b.exact := by
    simp only [s, List.forall_mem_cons, List.not_mem_nil, false_imp_iff, implies_true, and_true]
    exact ⟨⟨.whole 3, rfl, .whole 3, by decide +kernel⟩, ⟨.whole 2, rfl, .whole 2, by decide +kernel⟩,
      ⟨.ratio (5 / 2), rfl, .ratio _, by decide +kernel⟩, .whole 7, rfl, .whole 7, by decide +kernel⟩
  have hasc : Ascending (s.timeSignatures.map Prod.fst) := by
    rw [Ascending]
    decide +kernel
  obtain ⟨ms, hms, htiles, hbeats⟩ := measures_tile hstop (q := 23 / 2) rfl (by norm_num) hlog
  have hlayout : s.measures = .ok [⟨0, 3⟩, ⟨3, 3⟩, ⟨6, .ratio (5 / 2)⟩,
      ⟨.ratio (17 / 2), .ratio (5 / 2)⟩, ⟨.ratio 11, .ratio (5 / 2)⟩] := by
    decide +kernel
  exact ⟨ms, hms, htiles, Except.ok.inj (hms.symm.trans hlayout), hbeats hasc⟩

end Sheet
end LeadSheet
