import LeadSheet.Proofs.Packed.BackReference

/-!
What shortening finds. A reference is best when no position of the window has a longer match and no
more distant one has a match of that length; a look at all positions finds exactly the best
reference. The index leaves out only positions whose matches are too short, so that shortening
writes what it would write with a look at all positions.
-/
namespace LeadSheet.Packed

/-! ### Matches -/

/-- From two positions on there are the same bytes, for a length that a reference can have. -/
def Matches (data : Bytes) (position start length : Nat) : Prop :=
  length ≤ longestMatch ∧
    ∀ k < length, ∃ b, data[start + k]? = some b ∧ data[position + k]? = some b

/-- The positions that a reference at a position can lead to. -/
def InWindow (position start : Nat) : Prop := start < position ∧ position ≤ start + windowSize

private theorem le_commonLength_iff {limit n : Nat} {as bs : Bytes} :
    n ≤ commonLength limit as bs ↔
      n ≤ limit ∧ ∀ k < n, ∃ b, as[k]? = some b ∧ bs[k]? = some b := by
  induction limit, as, bs using commonLength.induct generalizing n with
  | case1 limit b as bs ih =>
    rw [commonLength, if_pos rfl]
    cases n with
    | zero => simp
    | succ n =>
      rw [Nat.succ_le_succ_iff, Nat.succ_le_succ_iff, ih, Nat.forall_lt_succ_left]
      simp only [List.getElem?_cons_zero, List.getElem?_cons_succ, Option.some.injEq,
        exists_eq_left', true_and]
  | case2 limit a as b bs hne =>
    rw [commonLength, if_neg hne]
    cases n with
    | zero => simp
    | succ n =>
      refine iff_of_false (Nat.not_succ_le_zero n) ?_
      rintro ⟨-, hall⟩
      obtain ⟨c, ha, hb⟩ := hall 0 (Nat.succ_pos n)
      exact hne (Option.some.inj (ha.trans hb.symm))
  | case3 limit as bs h =>
    have hzero : commonLength limit as bs = 0 := by
      rw [commonLength]
      exact h
    rw [hzero]
    cases n with
    | zero => simp
    | succ n =>
      refine iff_of_false (Nat.not_succ_le_zero n) ?_
      rintro ⟨hn, hall⟩
      -- a limit and a first byte on both sides are what the first case asks for
      obtain ⟨limit, rfl⟩ := Nat.exists_eq_add_one.mpr (Nat.zero_lt_of_lt hn)
      obtain ⟨c, ha, hb⟩ := hall 0 (Nat.succ_pos n)
      cases as with
      | nil => cases ha
      | cons a as =>
        cases bs with
        | nil => cases hb
        | cons b bs => exact h limit a as b bs rfl rfl rfl

private theorem le_commonLength_drop_iff {data : Bytes} {position start n : Nat} :
    n ≤ commonLength longestMatch (data.drop start) (data.drop position) ↔
      Matches data position start n := by
  simp [le_commonLength_iff, Matches]

private theorem Matches.mono {data : Bytes} {position start m n : Nat}
    (h : Matches data position start n)
    (hm : m ≤ n) : Matches data position start m :=
  ⟨hm.trans h.1, fun k hk => h.2 k (hk.trans_le hm)⟩

/-- The first bytes of a match are those by which positions are indexed. -/
theorem Matches.take_eq {data : Bytes} {position start : Nat}
    (h : Matches data position start shortestMatch) :
    (data.drop start).take shortestMatch = (data.drop position).take shortestMatch := by
  apply List.ext_getElem?
  intro k
  by_cases hk : k < shortestMatch
  · obtain ⟨b, hs, hp⟩ := h.2 k hk
    rw [List.getElem?_take_of_lt hk, List.getElem?_take_of_lt hk, List.getElem?_drop,
      List.getElem?_drop, hs, hp]
  · rw [List.getElem?_take_eq_none (not_lt.mp hk), List.getElem?_take_eq_none (not_lt.mp hk)]

/-! ### The first of the longest -/

section Longer
variable {position : Nat} {bytes : Bytes}

/-- Either nothing is longer than what was found, or what is found in the end is the match at a
candidate: longer than all before it, and not shorter than any behind it. -/
theorem foldl_longer_split (candidates : List (Nat × Bytes)) (found : Reference) :
    (candidates.foldl (longer position bytes) found = found ∧
      ∀ c ∈ candidates, (matchAt position bytes c).length ≤ found.length) ∨
    ∃ before c after, candidates = before ++ c :: after ∧
      candidates.foldl (longer position bytes) found = matchAt position bytes c ∧
      found.length < (matchAt position bytes c).length ∧
      (∀ x ∈ before, (matchAt position bytes x).length < (matchAt position bytes c).length) ∧
      ∀ x ∈ after, (matchAt position bytes x).length ≤ (matchAt position bytes c).length := by
  induction candidates generalizing found with
  | nil => exact .inl ⟨rfl, by simp⟩
  | cons first rest ih =>
    rw [List.foldl_cons]
    by_cases hl : found.length < (matchAt position bytes first).length
    · have hlonger : longer position bytes found first = matchAt position bytes first := if_pos hl
      rw [hlonger]
      rcases ih (matchAt position bytes first) with ⟨he, hrest⟩ | ⟨before, c, after, rfl, he, hc, hb, ha⟩
      · exact .inr ⟨[], first, rest, rfl, he, hl, by simp, hrest⟩
      · refine .inr ⟨first :: before, c, after, rfl, he, hl.trans hc, ?_, ha⟩
        exact List.forall_mem_cons.mpr ⟨hc, hb⟩
    · have hlonger : longer position bytes found first = found := if_neg hl
      rw [hlonger]
      rcases ih found with ⟨he, hrest⟩ | ⟨before, c, after, rfl, he, hc, hb, ha⟩
      · exact .inl ⟨he, List.forall_mem_cons.mpr ⟨not_lt.mp hl, hrest⟩⟩
      · refine .inr ⟨first :: before, c, after, rfl, he, hc, ?_, ha⟩
        exact List.forall_mem_cons.mpr ⟨(not_lt.mp hl).trans_lt hc, hb⟩

/-- What is found with and without some candidates is the same, or too short in both cases. -/
def Alike (found found' : Reference) : Prop :=
  found = found' ∨ found.length < shortestMatch ∧ found'.length < shortestMatch

private theorem Alike.longer {found found' : Reference} (h : Alike found found') (c : Nat × Bytes) :
    Alike (Packed.longer position bytes found c) (Packed.longer position bytes found' c) := by
  rcases h with rfl | ⟨h, h'⟩
  · exact .inl rfl
  · simp only [Packed.longer]
    split_ifs with hl hl'
    · exact .inl rfl
    · exact .inr ⟨(not_lt.mp hl').trans_lt h', h'⟩
    · exact .inr ⟨h, (not_lt.mp hl).trans_lt h⟩
    · exact .inr ⟨h, h'⟩

private theorem Alike.longer_left {found found' : Reference} (h : Alike found found')
    {c : Nat × Bytes}
    (hc : commonLength longestMatch c.2 bytes < shortestMatch) :
    Alike (Packed.longer position bytes found c) found' := by
  simp only [Packed.longer]
  split_ifs with hl
  · rcases h with rfl | ⟨-, h'⟩
    · exact .inr ⟨hc, hl.trans hc⟩
    · exact .inr ⟨hc, h'⟩
  · exact h

/-- Candidates whose matches are too short can be left out. -/
theorem longestAmong_filter {candidates : List (Nat × Bytes)} {p : Nat × Bytes → Bool}
    (h : ∀ c ∈ candidates, p c = false → commonLength longestMatch c.2 bytes < shortestMatch) :
    longestAmong position bytes candidates =
      longestAmong position bytes (candidates.filter p) := by
  have halike {found found' : Reference} (hf : Alike found found') :
      Alike (candidates.foldl (longer position bytes) found)
        ((candidates.filter p).foldl (longer position bytes) found') := by
    induction candidates generalizing found found' with
    | nil => exact hf
    | cons c rest ih =>
      obtain ⟨hc, hrest⟩ := List.forall_mem_cons.mp h
      cases hp : p c with
      | true =>
        rw [List.filter_cons_of_pos hp]
        exact ih hrest (hf.longer c)
      | false =>
        rw [List.filter_cons_of_neg (by simp [hp])]
        exact ih hrest (hf.longer_left (hc hp))
  simp only [longestAmong]
  rcases halike (.inl rfl : Alike ⟨0, 0⟩ ⟨0, 0⟩) with he | ⟨hs, hs'⟩
  · rw [he]
  · rw [if_neg (not_le.mpr hs), if_neg (not_le.mpr hs')]

end Longer

/-! ### All positions of the window -/

/-- The positions of the window before a position, ascending, with the bytes from there on. -/
def windowPlaces (data : Bytes) (position : Nat) : List (Nat × Bytes) :=
  ((List.range position).filter fun i => position - windowSize ≤ i).map fun i => (i, data.drop i)

private theorem mem_windowPlaces {data : Bytes} {position : Nat} {c : Nat × Bytes} :
    c ∈ windowPlaces data position ↔ InWindow position c.1 ∧ c.2 = data.drop c.1 := by
  simp only [windowPlaces, InWindow, List.mem_map, List.mem_filter, List.mem_range, decide_eq_true_eq,
    Nat.sub_le_iff_le_add]
  constructor
  · rintro ⟨i, hi, rfl⟩
    exact ⟨hi, rfl⟩
  · rintro ⟨hi, hc⟩
    exact ⟨c.1, hi, hc ▸ rfl⟩

private theorem pairwise_windowPlaces (data : Bytes) (position : Nat) :
    (windowPlaces data position).Pairwise fun a b => a.1 < b.1 := by
  rw [windowPlaces, List.pairwise_map]
  exact List.pairwise_lt_range.filter _

/-- A reference to a match in the window: to a longest one and, of the longest, to the most distant
one. -/
structure Reference.Best (data : Bytes) (position : Nat) (r : Reference) : Prop where
  fits : r.Fits
  le_position : r.offset ≤ position
  isMatch : Matches data position (position - r.offset) r.length
  longest : ∀ start n, InWindow position start → Matches data position start n → n ≤ r.length
  mostDistant : ∀ start, InWindow position start → Matches data position start r.length →
    position - start ≤ r.offset

namespace Reference.Best
variable {data : Bytes} {position : Nat} {r r' : Reference}

private theorem inWindow (h : r.Best data position) : InWindow position (position - r.offset) := by
  obtain ⟨hpos, hfar, -, -⟩ := h.fits
  have hle := h.le_position
  rw [InWindow]
  omega

private theorem unique (h : r.Best data position) (h' : r'.Best data position) : r = r' := by
  have hlength : r.length = r'.length :=
    le_antisymm (h'.longest _ _ h.inWindow h.isMatch) (h.longest _ _ h'.inWindow h'.isMatch)
  have hle := h'.mostDistant _ h.inWindow (hlength ▸ h.isMatch)
  have hle' := h.mostDistant _ h'.inWindow (hlength ▸ h'.isMatch)
  rw [Nat.sub_sub_self h.le_position] at hle
  rw [Nat.sub_sub_self h'.le_position] at hle'
  have hoffset : r.offset = r'.offset := le_antisymm hle hle'
  cases r
  cases r'
  cases hoffset
  cases hlength
  rfl

end Reference.Best

section Split
variable {data : Bytes} {position : Nat} {before after : List (Nat × Bytes)} {c : Nat × Bytes}
  (hsplit : windowPlaces data position = before ++ c :: after)
  (hb : ∀ x ∈ before, (matchAt position (data.drop position) x).length <
    (matchAt position (data.drop position) c).length)
  (ha : ∀ x ∈ after, (matchAt position (data.drop position) x).length ≤
    (matchAt position (data.drop position) c).length)
include hsplit hb

include ha in
/-- What comes first of the longest is as long as any match in the window. -/
theorem Matches.le_of_split {start n : Nat} (hm : Matches data position start n)
    (hw : InWindow position start) : n ≤ (matchAt position (data.drop position) c).length := by
  have hx : (start, data.drop start) ∈ before ++ c :: after :=
    hsplit ▸ mem_windowPlaces.mpr ⟨hw, rfl⟩
  refine (le_commonLength_drop_iff.mpr hm).trans ?_
  rw [List.mem_append, List.mem_cons] at hx
  rcases hx with hx | rfl | hx
  · exact (hb _ hx).le
  · exact le_rfl
  · exact ha _ hx

/-- A position in front of it has no match that is as long. -/
theorem Matches.start_le_of_split {start : Nat}
    (hm : Matches data position start (matchAt position (data.drop position) c).length)
    (hw : InWindow position start) : c.1 ≤ start := by
  have hx : (start, data.drop start) ∈ before ++ c :: after :=
    hsplit ▸ mem_windowPlaces.mpr ⟨hw, rfl⟩
  have hascend := hsplit ▸ pairwise_windowPlaces data position
  rw [List.mem_append, List.mem_cons] at hx
  rcases hx with hx | hx | hx
  · exact absurd (le_commonLength_drop_iff.mpr hm) (not_le.mpr (hb _ hx))
  · rw [← hx]
  · exact (List.rel_of_pairwise_cons (List.pairwise_append.mp hascend).2.1 hx).le

include ha in
private theorem best_of_split
    (hs : shortestMatch ≤ (matchAt position (data.drop position) c).length) :
    (matchAt position (data.drop position) c).Best data position := by
  have hc : c ∈ windowPlaces data position := hsplit ▸ List.mem_append_right _ List.mem_cons_self
  obtain ⟨hin, hdrop⟩ := mem_windowPlaces.mp hc
  have hstart : position - (matchAt position (data.drop position) c).offset = c.1 :=
    Nat.sub_sub_self hin.1.le
  refine ⟨⟨?_, ?_, hs, ?_⟩, Nat.sub_le _ _, ?_, ?_, ?_⟩
  · exact Nat.sub_pos_of_lt hin.1
  · exact Nat.sub_le_iff_le_add'.mpr hin.2
  · exact (commonLength_spec longestMatch c.2 (data.drop position)).1
  · rw [hstart]
    apply le_commonLength_drop_iff.mp
    rw [← hdrop]
    exact le_rfl
  · intro start n hw hm
    exact hm.le_of_split hsplit hb ha hw
  · intro start hw hm
    exact Nat.sub_le_sub_left (hm.start_le_of_split hsplit hb hw) position

end Split

/-- A look at all positions finds nothing only where there is no match, and else the best one. -/
theorem findMatch_spec (data : Bytes) (position : Nat) :
    (findMatch data position = none ∧
      ∀ start, InWindow position start → ¬ Matches data position start shortestMatch) ∨
    ∃ r, findMatch data position = some r ∧ r.Best data position := by
  have hfind : findMatch data position =
      longestAmong position (data.drop position) (windowPlaces data position) := rfl
  rw [hfind]
  simp only [longestAmong]
  rcases @foldl_longer_split position (data.drop position) (windowPlaces data position) ⟨0, 0⟩ with
    ⟨he, hshort⟩ | ⟨before, c, after, hsplit, he, -, hb, ha⟩
  · refine .inl ⟨by rw [he]; rfl, ?_⟩
    intro start hw hm
    have hzero := hshort (start, data.drop start) (mem_windowPlaces.mpr ⟨hw, rfl⟩)
    exact absurd ((le_commonLength_drop_iff.mpr hm).trans hzero) (by decide)
  · rw [he]
    split_ifs with hs
    · exact .inr ⟨_, rfl, best_of_split hsplit hb ha hs⟩
    · refine .inl ⟨rfl, ?_⟩
      intro start hw hm
      exact hs (hm.le_of_split hsplit hb ha hw)

private theorem findMatch_eq_some_iff {data : Bytes} {position : Nat} {r : Reference} :
    findMatch data position = some r ↔ r.Best data position := by
  rcases findMatch_spec data position with ⟨he, hnone⟩ | ⟨r', he, hbest⟩
  · rw [he]
    refine ⟨fun h => (by cases h), fun hbest => ?_⟩
    exact absurd (hbest.isMatch.mono hbest.fits.2.2.1) (hnone _ hbest.inWindow)
  · rw [he, Option.some_inj]
    exact ⟨fun h => h ▸ hbest, fun h => hbest.unique h⟩

/-- Of two matches of one length the more distant one is taken. -/
example : findMatch [1, 2, 3, 9, 1, 2, 3, 1, 2, 3] 7 = some ⟨7, 3⟩ := by decide

private theorem findMatch_eq_none_iff {data : Bytes} {position : Nat} :
    findMatch data position = none ↔
      ∀ start, InWindow position start → ¬ Matches data position start shortestMatch := by
  rcases findMatch_spec data position with ⟨he, hnone⟩ | ⟨r, he, hbest⟩
  · exact ⟨fun _ => hnone, fun _ => he⟩
  · rw [he]
    refine ⟨fun h => (by cases h), fun hnone => ?_⟩
    exact absurd (hbest.isMatch.mono hbest.fits.2.2.1) (hnone _ hbest.inWindow)

/-! ### The index -/

private theorem takeWhile_eq_filter {α : Type} {p : α → Bool} {l : List α}
    (h : l.Pairwise fun a b => p b = true → p a = true) : l.takeWhile p = l.filter p := by
  induction l with
  | nil => rfl
  | cons a l ih =>
    obtain ⟨ha, hl⟩ := List.pairwise_cons.mp h
    cases hp : p a with
    | true => rw [List.takeWhile_cons_of_pos hp, List.filter_cons_of_pos hp, ih hl]
    | false =>
      have hnone : ∀ b ∈ l, ¬ p b = true := fun b hb hpb => by simp [ha b hb hpb] at hp
      rw [List.takeWhile_cons_of_neg (by simp [hp]), List.filter_cons_of_neg (by simp [hp]),
        List.filter_eq_nil_iff.mpr hnone]

/-- The candidates of an index are the positions of the window with the same first bytes. -/
theorem MatchIndex.candidates_eq {index : MatchIndex} {data : Bytes} {position : Nat}
    (h : index.Lists data position) :
    index.candidates position (data.drop position) = (windowPlaces data position).filter fun c =>
      c.2.take shortestMatch = (data.drop position).take shortestMatch := by
  have hdescend : ((List.range position).reverse.filter fun i =>
      (data.drop i).take shortestMatch = (data.drop position).take shortestMatch).Pairwise
        fun i j => decide (position - windowSize ≤ j) = true →
          decide (position - windowSize ≤ i) = true := by
    apply List.Pairwise.filter
    rw [List.pairwise_reverse]
    refine List.pairwise_lt_range.imp ?_
    intro i j hij
    rw [decide_eq_true_eq, decide_eq_true_eq]
    omega
  rw [candidates, h, placesOf, List.takeWhile_map, ← List.map_reverse, windowPlaces,
    List.filter_map]
  simp only [Function.comp_def]
  rw [takeWhile_eq_filter hdescend, List.filter_filter, List.filter_filter, ← List.filter_reverse,
    List.reverse_reverse]
  exact congrArg _ (List.filter_congr fun i _ => Bool.and_comm ..)

private theorem longestAmong_candidates {index : MatchIndex} {data : Bytes} {position : Nat}
    (h : index.Lists data position) :
    longestAmong position (data.drop position) (index.candidates position (data.drop position)) =
      findMatch data position := by
  rw [MatchIndex.candidates_eq h]
  refine (longestAmong_filter ?_).symm
  intro c hc hkey
  obtain ⟨-, hdrop⟩ := mem_windowPlaces.mp hc
  rw [decide_eq_false_iff_not] at hkey
  by_contra hshort
  rw [hdrop] at hshort hkey
  exact hkey (le_commonLength_drop_iff.mp (not_lt.mp hshort)).take_eq

/-! ### Shortening -/

/-- Shortens the bytes from a position on, with a look at all positions of the window. -/
def shortenGreedily (data : Bytes) (position : Nat) : Bytes :=
  match _ : data[position]? with
  | none => []
  | some b =>
    match _ : findMatch data position with
    | none => writeLiteral b ++ shortenGreedily data (position + 1)
    | some r => writeReference r ++ shortenGreedily data (position + r.length)
termination_by data.length - position
decreasing_by
  · next hb _ =>
    obtain ⟨hlt, -⟩ := List.getElem?_eq_some_iff.mp hb
    omega
  · next hb hr =>
    obtain ⟨hlt, -⟩ := List.getElem?_eq_some_iff.mp hb
    obtain ⟨-, -, hlong, -⟩ := (findMatch_eq_some_iff.mp hr).fits
    rw [shortestMatch] at hlong
    omega

private theorem shortenGreedily_of_le {data : Bytes} {position : Nat} (h : data.length ≤ position) :
    shortenGreedily data position = [] := by
  rw [shortenGreedily]
  split
  · rfl
  · next hb => simp [List.getElem?_eq_none h] at hb

section
variable {data : Bytes} {position : Nat} {b : UInt8} (hb : data[position]? = some b)
include hb

private theorem shortenGreedily_literal (hr : findMatch data position = none) :
    shortenGreedily data position = writeLiteral b ++ shortenGreedily data (position + 1) := by
  rw [shortenGreedily]
  split
  · simp_all
  · split
    · simp_all
    · simp_all

private theorem shortenGreedily_reference {r : Reference} (hr : findMatch data position = some r) :
    shortenGreedily data position =
      writeReference r ++ shortenGreedily data (position + r.length) := by
  rw [shortenGreedily]
  split
  · simp_all
  · split
    · simp_all
    · simp_all

end

/-- Behind what was written before, shortening writes what it would write with a look at all
positions. -/
theorem shortenFrom_eq {index : MatchIndex} {data : Bytes} {position : Nat}
    (hi : index.Lists data position) (before : Bytes) :
    shortenFrom index position before (data.drop position) =
      before.reverse ++ shortenGreedily data position := by
  generalize hbytes : data.drop position = bytes
  induction index, position, before, bytes using shortenFrom.induct with
  | case1 index position before =>
    rw [shortenFrom, shortenGreedily_of_le (List.drop_eq_nil_iff.mp hbytes), List.append_nil]
  | case2 index position before b rest hn ih =>
    have hnone : findMatch data position = none := by
      rw [← longestAmong_candidates hi, hbytes, hn]
    have htail := ih (hbytes ▸ MatchIndex.lists_add hi) (drop_of_drop_eq_cons hbytes Nat.one_pos)
    rw [shortenFrom, hn, shortenGreedily_literal (getElem?_of_drop_eq_cons hbytes) hnone]
    dsimp only
    rw [htail]
    simp
  | case3 index position before b rest r hs ih =>
    have hsome : findMatch data position = some r := by
      rw [← longestAmong_candidates hi, hbytes, hs]
    have hlong : 0 < r.length :=
      Nat.zero_lt_of_lt (findMatch_eq_some_iff.mp hsome).fits.2.2.1
    have htail :=
      ih (hbytes ▸ MatchIndex.lists_addRun r.length hi) (drop_of_drop_eq_cons hbytes hlong)
    rw [shortenFrom, hs, shortenGreedily_reference (getElem?_of_drop_eq_cons hbytes) hsome]
    dsimp only
    rw [htail]
    simp

/-- Shortening writes what it would write with a look at all positions of the window. At every
position that look finds the best reference, and none only where no match is long enough. -/
theorem shorten_eq_shortenGreedily (data : Bytes) :
    shorten data = shortenGreedily data 0 ∧ ∀ position,
      (∀ r, findMatch data position = some r ↔ r.Best data position) ∧
        (findMatch data position = none ↔
          ∀ start, InWindow position start → ¬ Matches data position start shortestMatch) := by
  refine ⟨?_, fun position => ⟨fun r => findMatch_eq_some_iff, findMatch_eq_none_iff⟩⟩
  have h := shortenFrom_eq (MatchIndex.lists_empty data) []
  rwa [List.drop_zero, List.reverse_nil, List.nil_append] at h

end LeadSheet.Packed
