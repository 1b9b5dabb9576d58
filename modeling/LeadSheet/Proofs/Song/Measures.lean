import LeadSheet.Proofs.Number.Exactness
import LeadSheet.Song.Extent

/-!
The measures of a sheet by the log of its time signatures. Where the log counts whole beats only,
measures start at whole beats; where it counts the same beats all along, they start at the multiples
of these.
-/
namespace LeadSheet.Sheet

/-- What holds of the beats at hand and of all beats in the log holds of those taken off it, and of
all that stay in it. -/
theorem takeSignatures_keeps {α : Type} [Timebase α] (P : Datum → Prop) (position : α)
    {beats : Datum} {log : List (α × Datum)} (hbeats : P beats) (hlog : ∀ entry ∈ log, P entry.2) :
    P (takeSignatures position beats log).1 ∧
      ∀ entry ∈ (takeSignatures position beats log).2, P entry.2 := by
  induction log generalizing beats with
  | nil => exact ⟨hbeats, hlog⟩
  | cons entry log ih =>
    obtain ⟨beat, next⟩ := entry
    rw [takeSignatures]
    split
    · exact ih (hlog _ List.mem_cons_self) fun e he => hlog e (List.mem_cons_of_mem _ he)
    · exact ⟨hbeats, hlog⟩

/-- In front of the end a measure of whole beats is followed by those behind it. -/
theorem measuresFrom_whole {stop : Number} {fuel : Nat} {p n : Int} {beats : Datum}
    {log log' : List (Number × Datum)}
    (h : takeSignatures (.whole p) beats log = (.whole n, log')) :
    measuresFrom stop (fuel + 1) (.whole p) beats log =
      if Number.lt (.whole p) stop then
        (measuresFrom stop fuel (.whole (p + n)) (.whole n) log').map
          fun ms => ⟨.whole p, .whole n⟩ :: ms
      else .ok [] := by
  rw [measuresFrom, h]
  change (if !Number.lt (.whole p) stop then _ else _) = _
  cases Number.lt (.whole p) stop with
  | false => rfl
  | true => rfl

/-- From a whole beat on, all measures start at whole beats and have whole beats, all of them
multiples of what divides the beats in the log. -/
theorem whole_of_mem_measuresFrom {stop : Number} {fuel : Nat} {g p n : Int}
    {log : List (Number × Datum)} (hp : g ∣ p) (hn : g ∣ n)
    (hlog : ∀ entry ∈ log, ∃ k, entry.2 = .whole k ∧ g ∣ k) {ms : List (Measure Number)}
    (h : measuresFrom stop fuel (.whole p) (.whole n) log = .ok ms) :
    ∀ m ∈ ms, ∃ q k, m = ⟨.whole q, .whole k⟩ ∧ g ∣ q ∧ g ∣ k := by
  induction fuel generalizing p n log ms with
  | zero =>
    obtain rfl := Except.ok.inj h
    exact fun m hm => (List.not_mem_nil hm).elim
  | succ fuel ih =>
    obtain ⟨⟨k, hk, hdvd⟩, hrest⟩ :=
      takeSignatures_keeps (fun b => ∃ k, b = .whole k ∧ g ∣ k) (Number.whole p) ⟨n, rfl, hn⟩ hlog
    rw [measuresFrom_whole (Prod.ext hk rfl)] at h
    split at h
    · obtain ⟨rest, hbehind, rfl⟩ := Except.map_eq_ok_iff.mp h
      exact List.forall_mem_cons.mpr
        ⟨⟨p, k, rfl, hp, hdvd⟩, ih (hp.add hdvd) hdvd hrest hbehind⟩
    · obtain rfl := Except.ok.inj h
      exact fun m hm => (List.not_mem_nil hm).elim

/-- With the same beats all along, measures start at their multiples, as long as they start in front
of the end. -/
theorem getElem?_measuresFrom {t : Rat} {n : Int} (hn : 0 < n) (fuel : Nat) {p : Int}
    {log : List (Number × Datum)} (hlog : ∀ entry ∈ log, entry.2 = .whole n) :
    ∃ ms, measuresFrom (.approx (.finite t)) fuel (.whole p) (.whole n) log = .ok ms ∧
      ∀ i : Nat, ms[i]? = if i < fuel ∧ (p + i * n : Rat) < t
        then some ⟨.whole (p + i * n), .whole n⟩ else none := by
  induction fuel generalizing p log with
  | zero => exact ⟨[], rfl, fun i => by simp⟩
  | succ fuel ih =>
    obtain ⟨hk, hrest⟩ := takeSignatures_keeps (· = .whole n) (Number.whole p) rfl hlog
    rw [measuresFrom_whole (Prod.ext hk rfl)]
    by_cases hlt : (p : Rat) < t
    · obtain ⟨ms, hms, hget⟩ := ih (p := p + n) hrest
      rw [if_pos (Number.whole_lt_finite.mpr hlt), hms]
      refine ⟨_, rfl, ?_⟩
      rintro (_ | i)
      · simp [hlt]
      · rw [List.getElem?_cons_succ, hget]
        have hstart : p + n + i * n = p + (i + 1 : Nat) * n := by
          push_cast
          ring
        have hcast : ((p + n : Int) + i * n : Rat) = p + (i + 1 : Nat) * n := by
          exact_mod_cast congrArg (Int.cast (R := Rat)) hstart
        simp only [hstart, hcast, Nat.add_lt_add_iff_right]
    · -- no measure further on starts in front of the end either
      rw [if_neg (mt Number.whole_lt_finite.mp hlt)]
      refine ⟨[], rfl, fun i => ?_⟩
      have hge : t ≤ p + i * n := by
        have : (0 : Rat) ≤ i * n := by positivity
        linarith
      rw [List.getElem?_nil, if_neg fun h => absurd h.2 (not_lt.mpr hge)]

/-! ### Sheets -/

theorem le_measureBound (stop : Number) {log : List (Number × Datum)} {entry : Number × Datum}
    {count : Number} (hmem : entry ∈ log) (hcount : entry.2.toNumber = .ok count) :
    Timebase.stepBound stop.exact count.exact ≤ measureBound stop log := by
  have hmax : ∀ bounds : List Nat, (0 :: bounds).max? = some (bounds.foldl max 0) :=
    fun _ => List.max?_cons'
  refine (List.max?_eq_some_iff.mp (hmax _)).2 _ (List.mem_cons_of_mem _ ?_)
  refine List.mem_map.mpr ⟨entry, hmem, ?_⟩
  have hbeats : beatsOf entry.2 = .ok count := by
    rw [beatsOf, hcount]
    rfl
  rw [hbeats]
  rfl

/-- A measure that starts in front of the end is within the bound. -/
theorem lt_stepBound {t n : Rat} (hn : 0 < n) {i : Nat} (h : i * n < t) :
    i < Timebase.stepBound t n := by
  have hquotient : (i : Rat) < t / n := (lt_div_iff₀ hn).mpr h
  have hceil : (i : Int) < (t / n).ceil := by
    exact_mod_cast hquotient.trans_le Rat.le_ceil
  rw [Timebase.stepBound, if_neg (not_le.mpr hn)]
  omega

variable {s : Sheet Number}

private theorem measures_eq {stop : Number} (hstop : s.stop = .ok stop) {entry : Number × Datum}
    {log : List (Number × Datum)} (hlog : s.timeSignatures = entry :: log) :
    s.measures =
      measuresFrom stop (measureBound stop (entry :: log)) (.whole 0) entry.2 (entry :: log) := by
  rw [measures, hstop, hlog]
  rfl

/-- Under one number of beats all along, the measures that start in front of the end start at its
multiples. -/
theorem getElem?_measures {t : Rat} (hstop : s.stop = .ok (.approx (.finite t))) {n : Int}
    (hn : 0 < n) (hne : s.timeSignatures ≠ [])
    (hlog : ∀ entry ∈ s.timeSignatures, entry.2 = .whole n) :
    ∃ ms, s.measures = .ok ms ∧ ∀ i : Nat, ms[i]? =
      if (i * n : Rat) < t then some ⟨.whole (i * n), .whole n⟩ else none := by
  obtain ⟨entry, log, hs⟩ := List.exists_cons_of_ne_nil hne
  rw [hs] at hlog
  have hentry := hlog entry List.mem_cons_self
  obtain ⟨ms, hms, hget⟩ := getElem?_measuresFrom (t := t) hn
    (measureBound (.approx (.finite t)) (entry :: log)) (p := 0) hlog
  refine ⟨ms, by rw [measures_eq hstop hs, hentry, hms], fun i => ?_⟩
  have hcount : entry.2.toNumber = .ok (.whole n) := by
    rw [hentry]
    rfl
  have hbound (h : (i * n : Rat) < t) : i < measureBound (.approx (.finite t)) (entry :: log) :=
    (lt_stepBound (Int.cast_pos.mpr hn) h).trans_le
      (le_measureBound (.approx (.finite t)) List.mem_cons_self hcount)
  rw [hget]
  simp only [Int.cast_zero, zero_add]
  congr 1
  exact propext ⟨And.right, fun h => ⟨hbound h, h⟩⟩

/-- All measures start at whole beats and have whole beats, multiples of what divides the beats in
the log. -/
theorem whole_of_mem_measures {g : Int} (hne : s.timeSignatures ≠ [])
    (hlog : ∀ entry ∈ s.timeSignatures, ∃ k, entry.2 = .whole k ∧ g ∣ k)
    {ms : List (Measure Number)} (h : s.measures = .ok ms) :
    ∀ m ∈ ms, ∃ q k, m = ⟨.whole q, .whole k⟩ ∧ g ∣ q ∧ g ∣ k := by
  obtain ⟨entry, log, hs⟩ := List.exists_cons_of_ne_nil hne
  have hstop : ∃ stop, s.stop = .ok stop := by
    rw [measures] at h
    obtain ⟨stop, hstop, -⟩ := Except.bind_eq_ok_iff.mp h
    exact ⟨stop, hstop⟩
  obtain ⟨stop, hstop⟩ := hstop
  rw [hs] at hlog
  obtain ⟨n, hn, hdvd⟩ := hlog entry List.mem_cons_self
  rw [measures_eq hstop hs, hn] at h
  exact whole_of_mem_measuresFrom (dvd_zero g) hdvd hlog h

end LeadSheet.Sheet
