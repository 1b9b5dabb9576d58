import LeadSheet.Accompaniment.Strategy
import LeadSheet.Proofs.Accompaniment.Division
import LeadSheet.Proofs.Accompaniment.Placement

/-!
What the strategies play in exact time. The names of their notes lie within two octaves below the
ceiling. The notes start within the stretch of time that the chord holds in and, but for the long
notes of the bossa nova, end within it.
-/
namespace LeadSheet.Accompaniment
open NoteName

/-- A note below a ceiling that is played within a stretch of time. -/
structure Played.Within (n : Played Rat) (top start stop : Rat) : Prop where
  below : Below top n.name
  start_le : start ≤ n.start
  stop_le : n.start + n.duration ≤ stop

/-- A note for a whole division is played within the stretch that is divided. -/
theorem Tiles.within {top start stop : Rat} {number : Nat} {ds : List (Division Rat)}
    (h : Tiles stop start number ds) {d : Division Rat} (hd : d ∈ ds) {name : String}
    (hname : Below top name) {n : Played Rat} (hn : playThrough name d = .ok n) :
    n.Within top start stop := by
  obtain rfl : ⟨name, d.left, d.right - d.left⟩ = n := Except.ok.inj hn
  obtain ⟨hleft, -, hright⟩ := h.mem hd
  exact ⟨hname, hleft, by rwa [add_sub_cancel]⟩

private theorem exists_playThrough (name : String) (d : Division Rat) :
    ∃ n, playThrough name d = .ok n :=
  ⟨⟨name, d.left, d.right - d.left⟩, rfl⟩

/-! ### Roots and fifths -/

theorem chordNote_eq_ok_iff {names : List String} {i : Nat} {name : String} :
    chordNote names i = .ok name ↔ names[i]? = some name := by
  rw [chordNote]
  cases names[i]? with
  | none => simp
  | some n => simp

private theorem exists_chordNote {names : List String} {i : Nat} (h : i < names.length) :
    ∃ name, chordNote names i = .ok name :=
  ⟨names[i], chordNote_eq_ok_iff.mpr (List.getElem?_eq_getElem h)⟩

theorem mem_of_chordNote {names : List String} {i : Nat} {name : String}
    (h : chordNote names i = .ok name) : name ∈ names :=
  List.mem_of_getElem? (chordNote_eq_ok_iff.mp h)

/-- A note of a chord on a root is a spelled pitch within an octave above the root; the first is the
root itself. -/
theorem chordNote_of_notes {r : Int} {shape : String} {names : List String}
    (h : Chord.notes (spell r true) (.named shape) 0 none = .ok names) {i : Nat} {name : String}
    (hn : chordNote names i = .ok name) :
    ∃ p sharpen, name = spell p sharpen ∧ 12 ≤ p ∧ r ≤ p ∧ p < r + 12 ∧ (i = 0 → p = r) := by
  obtain ⟨hr, intervals, sharpen, hs, rfl⟩ := Chord.notes_spell_eq_ok h
  have hget := chordNote_eq_ok_iff.mp hn
  rw [List.getElem?_map] at hget
  obtain ⟨p, hp, rfl⟩ := Option.map_eq_some_iff.mp hget
  obtain ⟨hrp, hpr⟩ := Chord.mem_heights_above hs (List.mem_of_getElem? hp)
  refine ⟨p, sharpen, rfl, hr.trans hrp, hrp, hpr, ?_⟩
  rintro rfl
  rw [List.getElem?_map, (Chord.heights_of_mem (Chord.mem_of_lookup hs)).2.1] at hp
  obtain rfl := Option.some.inj hp
  exact add_zero r

/-- The fifth of a chord on a root, once its pitch is read. -/
theorem fifth_of_notes {r q : Int} {shape fifth : String} {names : List String}
    (h : Chord.notes (spell r true) (.named shape) 0 none = .ok names)
    (hfifth : chordNote names 2 = .ok fifth) (hq : pitch fifth = .ok q) :
    ∃ sharpen, fifth = spell q sharpen ∧ 12 ≤ q ∧ r ≤ q ∧ q < r + 12 := by
  obtain ⟨p, sharpen, rfl, hp, hrp, hpr, -⟩ := chordNote_of_notes h hfifth
  obtain rfl := Except.ok.inj ((pitch_spell_of_le hp sharpen).symm.trans hq)
  exact ⟨sharpen, rfl, hp, hrp, hpr⟩

private theorem below_of_root {r : Int} {top : Rat} {shape name : String} {names : List String}
    (hlow : (r : Rat) + 1 ≤ top) (hhigh : top < r + 13)
    (h : Chord.notes (spell r true) (.named shape) 0 none = .ok names)
    (hname : chordNote names 0 = .ok name) : Below top name := by
  obtain ⟨q, sharpen, rfl, -, -, -, hroot⟩ := chordNote_of_notes h hname
  obtain rfl := hroot rfl
  exact ⟨q, sharpen, rfl, by linarith, by linarith⟩

/-- The notes of a chord an octave below its root lie below the ceiling when some note above the root
reaches it. -/
theorem below_of_le_fifth {r p : Int} {top : Rat} {shape : String} {names : List String}
    (hlow : (r : Rat) + 1 ≤ top) (hpr : p < r + 12) (hle : top ≤ p)
    (h : Chord.notes (spell (r + -octaveSize) true) (.named shape) 0 none = .ok names) {i : Nat}
    {name : String} (hname : chordNote names i = .ok name) : Below top name := by
  obtain ⟨q, sharpen, rfl, -, hrq, hqr, -⟩ := chordNote_of_notes h hname
  have hrq : ((r + -12 : Int) : Rat) ≤ q := Int.cast_le.mpr hrq
  have hqr : (q : Rat) < ((r + -12 + 12 : Int) : Rat) := Int.cast_lt.mpr hqr
  have hpr : (p : Rat) < ((r + 12 : Int) : Rat) := Int.cast_lt.mpr hpr
  push_cast at hrq hqr hpr
  exact ⟨q, sharpen, rfl, by linarith, by linarith⟩

private theorem below_of_rootBelow {root name : String} {top : Number} (htop : top.Exact)
    (h : rootBelow root top = .ok name) : Below top.exact name := by
  obtain ⟨r, rfl, hlow, hhigh⟩ := rootBelow_eq_ok htop h
  exact ⟨r, true, rfl, by linarith, by linarith⟩

/-- The root or the fifth of a chord, as it is the turn of a division. -/
def playTurn {α : Type} [Timebase α] (sheet : Sheet α) (names : List String) (d : Division α) :
    Except Failure (Played α) := do
  playThrough (← chordNote names (if isMultiple d.number
    (Timebase.exact ((knownBeats sheet).getD (Timebase.ofInt 2))) then 0 else 2)) d

private theorem exists_playTurn (sheet : Sheet Rat) {names : List String} (h : 3 ≤ names.length)
    (d : Division Rat) : ∃ n, playTurn sheet names d = .ok n := by
  obtain ⟨name, hname⟩ := exists_chordNote (show (if isMultiple d.number (Timebase.exact
    ((knownBeats sheet).getD (Timebase.ofInt 2))) then 0 else 2) < names.length by split <;> omega)
  exact Except.exists_bind_eq_ok hname (exists_playThrough name d)

/-! ### Syncopation -/

/-- In exact time a note of the bossa nova can always be made. The long ones take half as long again
as their division. -/
theorem playSyncopated_eq (one two : String) (d : Division Rat) :
    playSyncopated one two d = .ok (
      let half := (d.right - d.left) / 2
      match d.number with
      | 0 => [⟨one, d.left, half * 3⟩]
      | 1 => [⟨one, d.left + half, half⟩]
      | 2 => [⟨two, d.left, half * 3⟩]
      | 3 => [⟨two, d.left + half, half⟩]
      | _ => []) := by
  obtain ⟨left, right, number⟩ := d
  have hhalf : Timebase.div (right - left) (Timebase.ofInt 2) = Except.ok ((right - left) / 2) :=
    if_neg (show ((2 : Int) : Rat) ≠ 0 by norm_num)
  rw [playSyncopated]
  refine Except.bind_eq_ok_iff.mpr ⟨right - left, rfl, ?_⟩
  refine Except.bind_eq_ok_iff.mpr ⟨_, hhalf, ?_⟩
  rcases number with _ | _ | _ | _ | _ <;> rfl

/-- The notes of the bossa nova have one of two names and start within their division. -/
theorem mem_playSyncopated {one two : String} {d : Division Rat} (hd : d.left < d.right)
    {played : List (Played Rat)} (h : playSyncopated one two d = .ok played) {n : Played Rat}
    (hn : n ∈ played) : (n.name = one ∨ n.name = two) ∧ d.left ≤ n.start := by
  have hhalf : 0 ≤ (d.right - d.left) / 2 := by linarith
  rw [playSyncopated_eq] at h
  obtain rfl := Except.ok.inj h
  dsimp only at hn
  split at hn
  · obtain rfl := List.mem_singleton.mp hn
    exact ⟨.inl rfl, le_rfl⟩
  · obtain rfl := List.mem_singleton.mp hn
    exact ⟨.inl rfl, le_add_of_nonneg_right hhalf⟩
  · obtain rfl := List.mem_singleton.mp hn
    exact ⟨.inr rfl, le_rfl⟩
  · obtain rfl := List.mem_singleton.mp hn
    exact ⟨.inr rfl, le_add_of_nonneg_right hhalf⟩
  · cases hn

/-- What the bossa nova plays in divisions lies below the ceiling if the two names do, and starts
within the stretch that is divided. The first division is played. -/
theorem Tiles.playSyncopated {top start stop : Rat} {ds : List (Division Rat)}
    (h : Tiles stop start 0 ds) {one two : String} (hone : Below top one) (htwo : Below top two)
    {parts : List (List (Played Rat))}
    (hparts : ds.mapM (Accompaniment.playSyncopated one two) = .ok parts) :
    parts.flatten ≠ [] ∧ ∀ n ∈ parts.flatten, Below top n.name ∧ start ≤ n.start := by
  constructor
  · obtain ⟨d, hd, hnumber⟩ := h.exists_number
    obtain ⟨part, hpart, hp⟩ := Except.exists_mem_of_mapM hparts hd
    rw [playSyncopated_eq, hnumber] at hp
    obtain rfl := Except.ok.inj hp
    exact List.ne_nil_of_mem (List.mem_flatten_of_mem hpart (List.mem_singleton_self _))
  · intro n hn
    obtain ⟨part, hpart, hn⟩ := List.mem_flatten.mp hn
    obtain ⟨d, hd, hp⟩ := Except.exists_of_mem_mapM hparts hpart
    obtain ⟨hleft, hlr, -⟩ := h.mem hd
    obtain ⟨hname, hstart⟩ := mem_playSyncopated hlr hp hn
    refine ⟨?_, hleft.trans hstart⟩
    rcases hname with hname | hname
    · exact hname ▸ hone
    · exact hname ▸ htwo

/-! ### Arpeggios -/

/-- An arpeggio has a note for each of the first four divisions. -/
theorem playArpeggio_eq_ok_iff {sheet : Sheet Rat} {settings : Settings} {symbol : ChordSymbol}
    {start stop : Rat} {ds : List (Division Rat)} (hds : divisions sheet start stop 3 = .ok ds)
    {played : List (Played Rat)} :
    playArpeggio sheet settings symbol start stop = .ok played ↔ ∃ top names first second third,
      ceiling sheet settings start stop = .ok top ∧
      chordBelow symbol.root symbol.shape top = .ok names ∧ chordNote names 0 = .ok first ∧
      chordNote names 1 = .ok second ∧
      chordNote names (if 3 < names.length then 3 else 2) = .ok third ∧
      played = ((ds.take 4).zip [first, second, third, second]).map fun (d, name) =>
        ⟨name, d.left, d.right - d.left⟩ := by
  have hplay (parts : List (Division Rat × String)) :
      (parts.mapM fun (d, name) => playThrough name d) =
        .ok (parts.map fun (d, name) => ⟨name, d.left, d.right - d.left⟩) := List.mapM_pure
  constructor
  · intro h
    obtain ⟨top, htop, h⟩ := Except.bind_eq_ok_iff.mp h
    obtain ⟨names, hnames, h⟩ := Except.bind_eq_ok_iff.mp h
    obtain ⟨first, hfirst, h⟩ := Except.bind_eq_ok_iff.mp h
    obtain ⟨second, hsecond, h⟩ := Except.bind_eq_ok_iff.mp h
    obtain ⟨third, hthird, h⟩ := Except.bind_eq_ok_iff.mp h
    have h := Except.of_bind_eq_ok hds h
    exact ⟨top, names, first, second, third, htop, hnames, hfirst, hsecond, hthird,
      (Except.ok.inj ((hplay _).symm.trans h)).symm⟩
  · rintro ⟨top, names, first, second, third, htop, hnames, hfirst, hsecond, hthird, rfl⟩
    exact Except.bind_eq_ok_iff.mpr ⟨top, htop, Except.bind_eq_ok_iff.mpr ⟨names, hnames,
      Except.bind_eq_ok_iff.mpr ⟨first, hfirst, Except.bind_eq_ok_iff.mpr ⟨second, hsecond,
      Except.bind_eq_ok_iff.mpr ⟨third, hthird, Except.bind_eq_ok_iff.mpr ⟨ds, hds, hplay _⟩⟩⟩⟩⟩⟩

/-- It only needs a chord with three notes. -/
theorem exists_playArpeggio_iff {sheet : Sheet Rat} {settings : Settings} {symbol : ChordSymbol}
    {start stop : Rat} {ds : List (Division Rat)} (hds : divisions sheet start stop 3 = .ok ds) :
    (∃ played, playArpeggio sheet settings symbol start stop = .ok played) ↔
      ∃ top names, ceiling sheet settings start stop = .ok top ∧
        chordBelow symbol.root symbol.shape top = .ok names ∧ 3 ≤ names.length := by
  constructor
  · rintro ⟨played, h⟩
    obtain ⟨top, names, -, -, third, htop, hnames, -, -, hthird, -⟩ :=
      (playArpeggio_eq_ok_iff hds).mp h
    refine ⟨top, names, htop, hnames, ?_⟩
    have hlt := (List.getElem?_eq_some_iff.mp (chordNote_eq_ok_iff.mp hthird)).1
    split at hlt <;> omega
  · rintro ⟨top, names, htop, hnames, hthree⟩
    obtain ⟨first, hfirst⟩ := exists_chordNote (show 0 < names.length by omega)
    obtain ⟨second, hsecond⟩ := exists_chordNote (show 1 < names.length by omega)
    obtain ⟨third, hthird⟩ := exists_chordNote
      (show (if 3 < names.length then 3 else 2) < names.length by split <;> omega)
    exact ⟨_, (playArpeggio_eq_ok_iff hds).mpr
      ⟨top, names, first, second, third, htop, hnames, hfirst, hsecond, hthird, rfl⟩⟩

/-! ### Strategies -/

section
variable {sheet : Sheet Rat} {settings : Settings} {start stop : Rat} {rate : Int} {top : Number}
  (hbeats : ∀ beats ∈ sheet.metadata.beatsPerMeasure, 0 < beats) (hlt : start < stop)
  (hrate : settings.rateNumber = .ok (.whole rate))
  (htop : ceiling sheet settings start stop = .ok top) (hexact : top.Exact)

include hbeats hlt hrate htop hexact

private theorem playRoot_within {root : String} {played : List (Played Rat)}
    (h : playRoot sheet settings root start stop = .ok played) :
    played ≠ [] ∧ ∀ n ∈ played, n.Within top.exact start stop := by
  obtain ⟨ds, hds, htiles⟩ := tiles_divisions hbeats hlt rate
  have h := Except.of_bind_eq_ok htop h
  obtain ⟨name, hname, h⟩ := Except.bind_eq_ok_iff.mp h
  have h := Except.of_bind_eq_ok hrate h
  have h := Except.of_bind_eq_ok hds h
  constructor
  · exact Except.ne_nil_of_mapM h htiles.ne_nil
  · intro n hn
    obtain ⟨d, hd, hp⟩ := Except.exists_of_mem_mapM h hn
    exact htiles.within hd (below_of_rootBelow hexact hname) hp

private theorem playTriad_within {symbol : ChordSymbol} {shape : String} (hshape : symbol.shape = .named shape)
    {played : List (Played Rat)} (h : playTriad sheet settings symbol start stop = .ok played) :
    played ≠ [] ∧ ∀ n ∈ played, n.Within top.exact start stop := by
  obtain ⟨ds, hds, htiles⟩ := tiles_divisions hbeats hlt rate
  have h := Except.of_bind_eq_ok htop h
  obtain ⟨names, hnames, h⟩ := Except.bind_eq_ok_iff.mp h
  rw [hshape] at hnames
  obtain ⟨hlength, hbelow⟩ := chordBelow_eq_ok hexact hnames
  have h := Except.of_bind_eq_ok hrate h
  have h := Except.of_bind_eq_ok hds h
  obtain ⟨parts, hparts, h⟩ := Except.bind_eq_ok_iff.mp h
  obtain rfl := Except.pure_eq_ok_iff.mp h
  constructor
  · obtain ⟨d, hd⟩ := List.exists_mem_of_ne_nil _ htiles.ne_nil
    obtain ⟨part, hpart, hplayed⟩ := Except.exists_mem_of_mapM hparts hd
    have hne : part ≠ [] :=
      Except.ne_nil_of_mapM hplayed (List.ne_nil_of_length_pos (by omega))
    exact fun hnil => hne (List.flatten_eq_nil_iff.mp hnil part hpart)
  · intro n hn
    obtain ⟨part, hpart, hn⟩ := List.mem_flatten.mp hn
    obtain ⟨d, hd, hplayed⟩ := Except.exists_of_mem_mapM hparts hpart
    obtain ⟨name, hname, hp⟩ := Except.exists_of_mem_mapM hplayed hn
    exact htiles.within hd (hbelow name hname) hp

private theorem playRootAndFifth_within {symbol : ChordSymbol} {shape : String}
    (hshape : symbol.shape = .named shape) {played : List (Played Rat)}
    (h : playRootAndFifth sheet settings symbol start stop = .ok played) :
    played ≠ [] ∧ ∀ n ∈ played, n.Within top.exact start stop := by
  obtain ⟨ds, hds, htiles⟩ := tiles_divisions hbeats hlt (1 + rate)
  have h := Except.of_bind_eq_ok htop h
  obtain ⟨root, hroot, h⟩ := Except.bind_eq_ok_iff.mp h
  obtain ⟨r, rfl, hlow, hhigh⟩ := rootBelow_eq_ok hexact hroot
  rw [hshape] at h
  obtain ⟨names, hnames, h⟩ := Except.bind_eq_ok_iff.mp h
  obtain ⟨fifth, hfifth, h⟩ := Except.bind_eq_ok_iff.mp h
  obtain ⟨p, hpitch, h⟩ := Except.bind_eq_ok_iff.mp h
  obtain ⟨sharpen, hspell, hp, hrp, hpr⟩ := fifth_of_notes hnames hfifth hpitch
  obtain ⟨hr12, -⟩ := Chord.notes_spell_eq_ok hnames
  dsimp only at h
  -- one of two chords is played, each by its root and its fifth
  have hchord : ∃ names', (∀ i name, i = 0 ∨ i = 2 → chordNote names' i = .ok name →
      Below top.exact name) ∧ (divisions sheet start stop (.whole (1 + rate)) >>= fun ds =>
        ds.mapM (playTurn sheet names')) = .ok played := by
    split at h
    · next hlt =>
      have hlt := (Number.lt_whole_iff hexact p).mp hlt
      have h := Except.of_bind_eq_ok (a := names) rfl h
      have h := Except.of_bind_eq_ok hrate h
      refine ⟨names, ?_, Except.of_bind_eq_ok (a := Number.whole (1 + rate)) rfl h⟩
      rintro i name (rfl | rfl) hname
      · exact below_of_root hlow hhigh hnames hname
      · obtain rfl := Except.ok.inj (hfifth.symm.trans hname)
        have hrp : (r : Rat) ≤ p := Int.cast_le.mpr hrp
        exact ⟨p, sharpen, hspell, by linarith, hlt⟩
    · next hge =>
      have hle := not_lt.mp fun hlt => hge ((Number.lt_whole_iff hexact p).mpr hlt)
      have h := Except.of_bind_eq_ok (transpose_spell hr12 true _) h
      obtain ⟨names', hnames', h⟩ := Except.bind_eq_ok_iff.mp h
      have h := Except.of_bind_eq_ok hrate h
      refine ⟨names', ?_, Except.of_bind_eq_ok (a := Number.whole (1 + rate)) rfl h⟩
      exact fun i name _ => below_of_le_fifth hlow hpr hle hnames'
  obtain ⟨names', hbelow, h⟩ := hchord
  have h := Except.of_bind_eq_ok hds h
  constructor
  · exact Except.ne_nil_of_mapM h htiles.ne_nil
  · intro n hn
    obtain ⟨d, hd, hp⟩ := Except.exists_of_mem_mapM h hn
    obtain ⟨name, hname, hp⟩ := Except.bind_eq_ok_iff.mp hp
    exact htiles.within hd (hbelow _ name (by split <;> simp) hname) hp

omit hrate in
private theorem playArpeggio_within {symbol : ChordSymbol} {shape : String}
    (hshape : symbol.shape = .named shape) {played : List (Played Rat)}
    (h : playArpeggio sheet settings symbol start stop = .ok played) :
    played ≠ [] ∧ ∀ n ∈ played, n.Within top.exact start stop := by
  obtain ⟨ds, hds, htiles⟩ := tiles_divisions hbeats hlt 3
  obtain ⟨top', names, first, second, third, htop', hnames, hfirst, hsecond, hthird, rfl⟩ :=
    (playArpeggio_eq_ok_iff hds).mp h
  obtain rfl := Except.ok.inj (htop.symm.trans htop')
  rw [hshape] at hnames
  obtain ⟨-, hbelow⟩ := chordBelow_eq_ok hexact hnames
  constructor
  · obtain ⟨d, tail, rfl⟩ := List.exists_cons_of_ne_nil htiles.ne_nil
    exact List.cons_ne_nil _ _
  · intro n hn
    obtain ⟨⟨d, name⟩, hd, rfl⟩ := List.mem_map.mp hn
    obtain ⟨hd, hname⟩ := List.of_mem_zip hd
    refine htiles.within (List.mem_of_mem_take hd) ?_ rfl
    simp only [List.mem_cons, List.not_mem_nil, or_false] at hname
    rcases hname with rfl | rfl | rfl | rfl
    · exact hbelow _ (mem_of_chordNote hfirst)
    · exact hbelow _ (mem_of_chordNote hsecond)
    · exact hbelow _ (mem_of_chordNote hthird)
    · exact hbelow _ (mem_of_chordNote hsecond)

omit hrate in
private theorem playBossaNova_below {symbol : ChordSymbol} {shape : String}
    (hshape : symbol.shape = .named shape) {played : List (Played Rat)}
    (h : playBossaNova sheet settings symbol start stop = .ok played) :
    played ≠ [] ∧ ∀ n ∈ played, Below top.exact n.name ∧ start ≤ n.start := by
  obtain ⟨ds, hds, htiles⟩ := tiles_divisions hbeats hlt 3
  have h := Except.of_bind_eq_ok htop h
  obtain ⟨root, hroot, h⟩ := Except.bind_eq_ok_iff.mp h
  obtain ⟨r, rfl, hlow, hhigh⟩ := rootBelow_eq_ok hexact hroot
  rw [hshape] at h
  obtain ⟨names, hnames, h⟩ := Except.bind_eq_ok_iff.mp h
  obtain ⟨root, hroot, h⟩ := Except.bind_eq_ok_iff.mp h
  have hroot := below_of_root hlow hhigh hnames hroot
  obtain ⟨fifth, hfifth, h⟩ := Except.bind_eq_ok_iff.mp h
  obtain ⟨p, hpitch, h⟩ := Except.bind_eq_ok_iff.mp h
  obtain ⟨sharpen, hspell, hp, hrp, hpr⟩ := fifth_of_notes hnames hfifth hpitch
  dsimp only at h
  have hpair : ∃ one two, Below top.exact one ∧ Below top.exact two ∧
      (divisions sheet start stop (.whole 3) >>= fun ds => do
        let played ← ds.mapM (playSyncopated one two)
        return played.flatten) = .ok played := by
    split at h
    · next hlt =>
      have hptop := (Number.lt_whole_iff hexact p).mp hlt
      have hrp : (r : Rat) ≤ p := Int.cast_le.mpr hrp
      exact ⟨_, _, hroot, ⟨p, sharpen, hspell, by linarith, hptop⟩, h⟩
    · next hge =>
      have hptop := not_lt.mp fun hlt => hge ((Number.lt_whole_iff hexact p).mpr hlt)
      have h := Except.of_bind_eq_ok (hspell ▸ transpose_spell hp sharpen _) h
      have hpr : (p : Rat) < ((r + 12 : Int) : Rat) := Int.cast_lt.mpr hpr
      refine ⟨_, _, ⟨p + -12, true, rfl, ?_, ?_⟩, hroot, h⟩
      · push_cast
        linarith
      · push_cast at hpr ⊢
        linarith
  obtain ⟨one, two, hone, htwo, h⟩ := hpair
  have h := Except.of_bind_eq_ok hds h
  obtain ⟨parts, hparts, h⟩ := Except.bind_eq_ok_iff.mp h
  obtain rfl := Except.pure_eq_ok_iff.mp h
  exact htiles.playSyncopated hone htwo hparts

/-- What any strategy plays lies below the ceiling, starts within the stretch, and ends within it
unless it is a bossa nova. -/
theorem Strategy.below_of_play {strategy : Strategy} {symbol : ChordSymbol} {shape : String}
    (hshape : symbol.shape = .named shape) {played : List (Played Rat)}
    (h : strategy.play sheet settings symbol start stop = .ok played) :
    played ≠ [] ∧ ∀ n ∈ played, Below top.exact n.name ∧ start ≤ n.start ∧
      (strategy ≠ .bossaNova → n.start + n.duration ≤ stop) := by
  have hwithin (hw : played ≠ [] ∧ ∀ n ∈ played, n.Within top.exact start stop) :
      played ≠ [] ∧ ∀ n ∈ played, Below top.exact n.name ∧ start ≤ n.start ∧
        (strategy ≠ .bossaNova → n.start + n.duration ≤ stop) :=
    ⟨hw.1, fun n hn => ⟨(hw.2 n hn).below, (hw.2 n hn).start_le, fun _ => (hw.2 n hn).stop_le⟩⟩
  cases strategy with
  | base => cases h
  | root => exact hwithin (playRoot_within hbeats hlt hrate htop hexact h)
  | triad => exact hwithin (playTriad_within hbeats hlt hrate htop hexact hshape h)
  | rootAndFifth => exact hwithin (playRootAndFifth_within hbeats hlt hrate htop hexact hshape h)
  | arpeggio => exact hwithin (playArpeggio_within hbeats hlt htop hexact hshape h)
  | bossaNova =>
    obtain ⟨hne, hbelow⟩ := playBossaNova_below hbeats hlt htop hexact hshape h
    exact ⟨hne, fun n hn => ⟨(hbelow n hn).1, (hbelow n hn).2, fun hb => absurd rfl hb⟩⟩

end

/-! ### High ceilings -/

/-- A known chord below a high ceiling has a root, and a fifth that can be read. -/
theorem exists_root_and_fifth {root : String} {lowest : Int} {top : Number} {shape : String}
    {intervals : List Int} (hroot : pitch (withOctave root 0) = .ok lowest) (hexact : top.Exact)
    (hs : chordShapes.lookup shape = some intervals) (h36 : 36 ≤ top.exact) :
    ∃ r names p sharpen, rootBelow root top = .ok (spell r true) ∧ 24 ≤ r ∧
      Chord.notes (spell r true) (.named shape) 0 none = .ok names ∧ 3 ≤ names.length ∧
      chordNote names 2 = .ok (spell p sharpen) ∧ 12 ≤ p := by
  obtain ⟨r, hr, hr24, -⟩ := rootBelow_high hroot hexact h36
  obtain ⟨names, hnames, hlength⟩ := Chord.exists_notes_spell (p := r) (by omega) true hs
  obtain ⟨fifth, hfifth⟩ := exists_chordNote (i := 2) hlength
  obtain ⟨p, sharpen, rfl, hp, -⟩ := chordNote_of_notes hnames hfifth
  exact ⟨r, names, p, sharpen, hr, hr24, hnames, hlength, hfifth, hp⟩

section
variable {sheet : Sheet Rat} {settings : Settings} {start stop : Rat} {rate : Int} {top : Number}
  {symbol : ChordSymbol} {lowest : Int} {shape : String} {intervals : List Int}
  (hbeats : ∀ beats ∈ sheet.metadata.beatsPerMeasure, 0 < beats) (hlt : start < stop)
  (hrate : settings.rateNumber = .ok (.whole rate))
  (htop : ceiling sheet settings start stop = .ok top) (hexact : top.Exact)
  (hroot : pitch (withOctave symbol.root 0) = .ok lowest) (hshape : symbol.shape = .named shape)
  (hs : chordShapes.lookup shape = some intervals) (h36 : 36 ≤ top.exact)

include hbeats hlt htop hexact hroot

include hrate in
private theorem exists_playRoot :
    ∃ played, playRoot sheet settings symbol.root start stop = .ok played := by
  obtain ⟨ds, hds, -⟩ := tiles_divisions hbeats hlt rate
  obtain ⟨r, hr, -⟩ := rootBelow_spec hroot hexact
  rw [playRoot]
  exact Except.exists_bind_eq_ok htop <| Except.exists_bind_eq_ok hr <|
    Except.exists_bind_eq_ok hrate <| Except.exists_bind_eq_ok hds <|
    Except.exists_mapM_eq_ok fun d _ => exists_playThrough _ d

include hshape hs h36

include hrate in
private theorem exists_playTriad :
    ∃ played, playTriad sheet settings symbol start stop = .ok played := by
  obtain ⟨ds, hds, -⟩ := tiles_divisions hbeats hlt rate
  obtain ⟨names, hnames, -⟩ := exists_chordBelow hroot hs hexact (by linarith)
  have hpart (d : Division Rat) : ∃ part, names.mapM (fun name => playThrough name d) = .ok part :=
    Except.exists_mapM_eq_ok fun name _ => exists_playThrough name d
  obtain ⟨parts, hparts⟩ := Except.exists_mapM_eq_ok (fun d (_ : d ∈ ds) => hpart d)
  rw [playTriad, hshape]
  exact Except.exists_bind_eq_ok htop <| Except.exists_bind_eq_ok hnames <|
    Except.exists_bind_eq_ok hrate <| Except.exists_bind_eq_ok hds <|
    Except.exists_bind_eq_ok hparts ⟨_, rfl⟩

include hrate in
private theorem exists_playRootAndFifth :
    ∃ played, playRootAndFifth sheet settings symbol start stop = .ok played := by
  obtain ⟨ds, hds, -⟩ := tiles_divisions hbeats hlt (1 + rate)
  obtain ⟨r, names, p, sharpen, hr, hr24, hnames, hlength, hfifth, hp⟩ :=
    exists_root_and_fifth hroot hexact hs h36
  obtain ⟨low, hlow, hlowLength⟩ := Chord.exists_notes_spell (p := r + -octaveSize)
    (by simp only [octaveSize]; omega) true hs
  have hplay {names : List String} (hlength : 3 ≤ names.length) :
      ∃ played, ds.mapM (playTurn sheet names) = .ok played :=
    Except.exists_mapM_eq_ok fun d _ => exists_playTurn sheet hlength d
  have hcount : Number.add 1 (.whole rate) = .ok (.whole (1 + rate)) := rfl
  rw [playRootAndFifth, hshape]
  refine Except.exists_bind_eq_ok htop <| Except.exists_bind_eq_ok hr <|
    Except.exists_bind_eq_ok hnames <| Except.exists_bind_eq_ok hfifth <|
    Except.exists_bind_eq_ok (pitch_spell_of_le hp sharpen) ?_
  dsimp only
  split
  · exact Except.exists_bind_eq_ok (a := names) rfl <| Except.exists_bind_eq_ok hrate <|
      Except.exists_bind_eq_ok hcount <| Except.exists_bind_eq_ok hds <| hplay hlength
  · exact Except.exists_bind_eq_ok (transpose_spell (by omega) true _) <|
      Except.exists_bind_eq_ok hlow <| Except.exists_bind_eq_ok hrate <|
      Except.exists_bind_eq_ok hcount <| Except.exists_bind_eq_ok hds <| hplay hlowLength

private theorem exists_playArpeggio :
    ∃ played, playArpeggio sheet settings symbol start stop = .ok played := by
  obtain ⟨ds, hds, -⟩ := tiles_divisions hbeats hlt 3
  obtain ⟨names, hnames, -⟩ := exists_chordBelow hroot hs hexact (by linarith)
  have hlength := (chordBelow_eq_ok hexact hnames).1
  rw [← hshape] at hnames
  exact (exists_playArpeggio_iff hds).mpr ⟨top, names, htop, hnames, hlength⟩

private theorem exists_playBossaNova :
    ∃ played, playBossaNova sheet settings symbol start stop = .ok played := by
  obtain ⟨ds, hds, -⟩ := tiles_divisions hbeats hlt 3
  obtain ⟨r, names, p, sharpen, hr, -, hnames, hlength, hfifth, hp⟩ :=
    exists_root_and_fifth hroot hexact hs h36
  obtain ⟨root, hrootNote⟩ := exists_chordNote (show 0 < names.length by omega)
  have hplay (one two : String) : ∃ played, (do
      let played ← ds.mapM (playSyncopated one two)
      return played.flatten) = Except.ok played := by
    obtain ⟨parts, hparts⟩ :=
      Except.exists_mapM_eq_ok (fun d (_ : d ∈ ds) => ⟨_, playSyncopated_eq one two d⟩)
    exact Except.exists_bind_eq_ok hparts ⟨_, rfl⟩
  rw [playBossaNova, hshape]
  refine Except.exists_bind_eq_ok htop <| Except.exists_bind_eq_ok hr <|
    Except.exists_bind_eq_ok hnames <| Except.exists_bind_eq_ok hrootNote <|
    Except.exists_bind_eq_ok hfifth <| Except.exists_bind_eq_ok (pitch_spell_of_le hp sharpen) ?_
  dsimp only
  split
  · exact Except.exists_bind_eq_ok (a := (root, _)) rfl <| Except.exists_bind_eq_ok hds <| hplay _ _
  · exact Except.exists_bind_eq_ok (transpose_spell hp sharpen _) <|
      Except.exists_bind_eq_ok (a := (_, root)) rfl <| Except.exists_bind_eq_ok hds <| hplay _ _

include hrate in
/-- In exact time every strategy plays any known chord below a ceiling from the C of octave two
upwards. -/
theorem Strategy.exists_play {strategy : Strategy} (hstrategy : strategy ∈ Strategy.all) :
    ∃ played, strategy.play sheet settings symbol start stop = .ok played := by
  cases strategy with
  | base => exact absurd hstrategy (by decide)
  | root => exact exists_playRoot hbeats hlt hrate htop hexact hroot
  | triad => exact exists_playTriad hbeats hlt hrate htop hexact hroot hshape hs h36
  | rootAndFifth => exact exists_playRootAndFifth hbeats hlt hrate htop hexact hroot hshape hs h36
  | arpeggio => exact exists_playArpeggio hbeats hlt htop hexact hroot hshape hs h36
  | bossaNova => exact exists_playBossaNova hbeats hlt htop hexact hroot hshape hs h36

end

end LeadSheet.Accompaniment
