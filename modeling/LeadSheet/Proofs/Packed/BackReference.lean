import LeadSheet.Packed.BackReference
import LeadSheet.Proofs.Text.Utf8
import Mathlib.Data.List.TakeWhile

/-! Shortened bytes as a row of pieces. Every piece fits its code, and playing the pieces one
behind the other gives the bytes that were shortened. -/
namespace LeadSheet.Packed

/-- What a byte or a reference in shortened bytes stands for. -/
inductive Piece where
  | literal (b : UInt8)
  | escaped (b : UInt8)
  | short (offset length : Nat)
  | medium (offset length : Nat)
  deriving DecidableEq, Repr

namespace Piece

/-- The bytes that a piece is written with. -/
def bytes : Piece → Bytes
  | literal b => [b]
  | escaped b => [0xFF, b]
  | short offset length => [UInt8.ofNat (0xA0 + offset - 1), UInt8.ofNat (length - 3)]
  | medium offset length =>
    [UInt8.ofNat (0xC0 + length - 3), UInt8.ofNat (offset / 256), UInt8.ofNat (offset % 256)]

/-- What its code has room for. A byte is escaped where it would be read as something else. -/
def Fits : Piece → Prop
  | literal b => ¬(0xA0 ≤ b ∧ b ≤ 0xDF) ∧ b ≠ 0xFF
  | escaped b => (0xA0 ≤ b ∧ b ≤ 0xDF) ∨ b = 0xFF
  | short offset length => 1 ≤ offset ∧ offset ≤ 32 ∧ 3 ≤ length ∧ length ≤ 10
  | medium offset length => 1 ≤ offset ∧ offset ≤ 4095 ∧ 3 ≤ length ∧ length ≤ 34

/-- How far before the end of the output a piece reaches. -/
def reach : Piece → Nat
  | literal _ | escaped _ => 0
  | short offset _ | medium offset _ => offset

/-- The output with what a piece adds to it. -/
def play (out : Array UInt8) : Piece → Array UInt8
  | literal b | escaped b => out.push b
  | short offset length | medium offset length => copyBack offset length out

def ofByte (b : UInt8) : Piece := if isReference b || b = escapeCode then escaped b else literal b

def ofReference (r : Reference) : Piece :=
  if r.offset ≤ 32 ∧ r.length ≤ 10 then short r.offset r.length else medium r.offset r.length

/-- Pieces, played behind an output that they all reach into, give another output. -/
inductive Plays : Array UInt8 → List Piece → Array UInt8 → Prop where
  | nil (out : Array UInt8) : Plays out [] out
  | cons {out last : Array UInt8} {piece : Piece} {rest : List Piece} :
    piece.Fits → piece.reach ≤ out.size → Plays (piece.play out) rest last →
      Plays out (piece :: rest) last

private theorem Plays.fits {out last : Array UInt8} {pieces : List Piece}
    (h : Plays out pieces last) :
    ∀ piece ∈ pieces, piece.Fits := by
  induction h with
  | nil => simp
  | cons hf _ _ ih => exact List.forall_mem_cons.mpr ⟨hf, ih⟩

end Piece

/-! ### Writing -/

private theorem isReference_iff (b : UInt8) : isReference b = true ↔ 0xA0 ≤ b ∧ b ≤ 0xDF := by
  simp only [isReference, isShortReference, isMediumReference, Bool.or_eq_true, Bool.and_eq_true,
    decide_eq_true_eq, UInt8.le_iff_toNat_le]
  simp
  omega

private theorem writeLiteral_eq (b : UInt8) : writeLiteral b = (Piece.ofByte b).bytes := by
  unfold writeLiteral Piece.ofByte
  split <;> rfl

private theorem Piece.ofByte_fits (b : UInt8) : (Piece.ofByte b).Fits := by
  unfold Piece.ofByte
  split
  · next h =>
    rw [Bool.or_eq_true, isReference_iff, decide_eq_true_eq] at h
    exact h
  · next h =>
    rw [Bool.or_eq_true, isReference_iff, decide_eq_true_eq] at h
    exact not_or.mp h

/-- References that have a code. -/
def Reference.Fits (r : Reference) : Prop :=
  1 ≤ r.offset ∧ r.offset ≤ windowSize ∧ shortestMatch ≤ r.length ∧ r.length ≤ longestMatch

private theorem writeReference_eq {r : Reference} (h : r.Fits) :
    writeReference r = (Piece.ofReference r).bytes := by
  obtain ⟨ho, hw, hs, hl⟩ := h
  simp only [windowSize, shortestMatch, longestMatch] at hw hs hl
  simp only [writeReference, referenceCodes, Piece.ofReference, shortestMatch, Bool.and_eq_true,
    decide_eq_true_eq]
  by_cases hr : r.offset ≤ 32 ∧ r.length ≤ 10
  · rw [if_pos (by omega), if_pos hr]
    simp only [List.map_cons, List.map_nil, Piece.bytes]
    rw [show ((0xA0 : Int) + r.offset - 1).toNat = 0xA0 + r.offset - 1 by omega,
      show ((r.length : Int) - (3 : Nat)).toNat = r.length - 3 by omega]
  · rw [if_neg (by omega), if_neg hr]
    simp only [List.map_cons, List.map_nil, Piece.bytes]
    rw [show ((0xC0 : Int) + r.length - (3 : Nat)).toNat = 0xC0 + r.length - 3 by omega,
      show ((r.offset : Int) / 256 % 16).toNat = r.offset / 256 by omega,
      show ((r.offset : Int) % 256).toNat = r.offset % 256 by omega]

private theorem Piece.ofReference_fits {r : Reference} (h : r.Fits) :
    (Piece.ofReference r).Fits := by
  obtain ⟨ho, hw, hs, hl⟩ := h
  simp only [windowSize, shortestMatch, longestMatch] at hw hs hl
  unfold Piece.ofReference
  split
  · next hr => exact ⟨ho, hr.1, hs, hr.2⟩
  · exact ⟨ho, hw, hs, hl⟩

@[simp] theorem Piece.reach_ofByte (b : UInt8) : (Piece.ofByte b).reach = 0 := by
  unfold Piece.ofByte
  split <;> rfl

@[simp] theorem Piece.play_ofByte (b : UInt8) (out : Array UInt8) :
    (Piece.ofByte b).play out = out.push b := by
  unfold Piece.ofByte
  split <;> rfl

@[simp] theorem Piece.reach_ofReference (r : Reference) :
    (Piece.ofReference r).reach = r.offset := by
  unfold Piece.ofReference
  split <;> rfl

@[simp] theorem Piece.play_ofReference (r : Reference) (out : Array UInt8) :
    (Piece.ofReference r).play out = copyBack r.offset r.length out := by
  unfold Piece.ofReference
  split <;> rfl

/-! ### Matches -/

/-- The common length keeps to its limit and to the bytes that are left, and up to it the bytes are
the same. -/
theorem commonLength_spec (limit : Nat) (as bs : Bytes) :
    commonLength limit as bs ≤ limit ∧ commonLength limit as bs ≤ bs.length ∧
      ∀ k < commonLength limit as bs, as[k]? = bs[k]? := by
  induction limit, as, bs using commonLength.induct with
  | case1 limit as b bs ih =>
    rw [commonLength, if_pos rfl]
    obtain ⟨hl, hb, he⟩ := ih
    refine ⟨Nat.succ_le_succ hl, Nat.succ_le_succ hb, ?_⟩
    intro k hk
    cases k with
    | zero => rfl
    | succ k => exact he k (Nat.lt_of_succ_lt_succ hk)
  | case2 limit a as b bs hne =>
    rw [commonLength, if_neg hne]
    simp
  | case3 limit as bs h =>
    rw [commonLength]
    · simp
    · exact h

/-- The match at a candidate. -/
def matchAt (position : Nat) (bytes : Bytes) (candidate : Nat × Bytes) : Reference :=
  ⟨position - candidate.1, commonLength longestMatch candidate.2 bytes⟩

private theorem foldl_longer (position : Nat) (bytes : Bytes) (candidates : List (Nat × Bytes))
    (found : Reference) :
    candidates.foldl (longer position bytes) found = found ∨
      ∃ candidate ∈ candidates,
        candidates.foldl (longer position bytes) found = matchAt position bytes candidate := by
  induction candidates generalizing found with
  | nil => exact .inl rfl
  | cons candidate rest ih =>
    rw [List.foldl_cons]
    rcases ih (longer position bytes found candidate) with he | ⟨other, hm, he⟩
    · rw [he]
      by_cases hl : found.length < commonLength longestMatch candidate.2 bytes
      · exact .inr ⟨candidate, List.mem_cons_self, if_pos hl⟩
      · exact .inl (if_neg hl)
    · exact .inr ⟨other, List.mem_cons_of_mem _ hm, he⟩

/-- A match that is found is the match at one of the candidates. -/
theorem exists_of_longestAmong {position : Nat} {bytes : Bytes} {candidates : List (Nat × Bytes)}
    {r : Reference} (h : longestAmong position bytes candidates = some r) :
    shortestMatch ≤ r.length ∧ ∃ candidate ∈ candidates, r = matchAt position bytes candidate := by
  simp only [longestAmong] at h
  split at h
  · next hs =>
    obtain rfl := Option.some.inj h
    refine ⟨hs, ?_⟩
    rcases foldl_longer position bytes candidates ⟨0, 0⟩ with he | he
    · rw [he] at hs
      exact absurd hs (by decide)
    · exact he
  · exact absurd h (by simp)

/-! ### The index of positions -/

/-- The positions in front of another one that a key belongs to, the nearest first, with the bytes
from there on. -/
def placesOf (data : Bytes) (position : Nat) (key : Bytes) : List (Nat × Bytes) :=
  ((List.range position).reverse.filter fun i => (data.drop i).take shortestMatch = key).map
    fun i => (i, data.drop i)

/-- An index that holds exactly the positions in front of another one. -/
def MatchIndex.Lists (index : MatchIndex) (data : Bytes) (position : Nat) : Prop :=
  ∀ key, index.getD key [] = placesOf data position key

namespace MatchIndex

theorem lists_empty (data : Bytes) : Lists ∅ data 0 := by
  intro key
  rw [Std.HashMap.getD_empty]
  rfl

theorem lists_add {index : MatchIndex} {data : Bytes} {position : Nat}
    (h : index.Lists data position) :
    (index.add position (data.drop position)).Lists data (position + 1) := by
  intro key
  rw [add, Std.HashMap.getD_insert, h, h, placesOf, placesOf, placesOf, List.range_succ,
    List.reverse_append, List.reverse_singleton, List.singleton_append, List.filter_cons]
  by_cases hk : (data.drop position).take shortestMatch = key
  · subst hk
    simp
  · simp [hk]

theorem lists_addRun {index : MatchIndex} {data : Bytes} {position : Nat} (n : Nat)
    (h : index.Lists data position) :
    (index.addRun position (data.drop position) n).Lists data (position + n) := by
  induction n generalizing index position with
  | zero => exact h
  | succ n ih =>
    rw [addRun, List.drop_drop]
    have hn := ih (lists_add h)
    rwa [Nat.add_right_comm, Nat.add_assoc] at hn

private theorem mem_candidates {index : MatchIndex} {data : Bytes} {position : Nat} {bytes : Bytes}
    (h : index.Lists data position) {candidate : Nat × Bytes}
    (hc : candidate ∈ index.candidates position bytes) :
    candidate.1 < position ∧ position ≤ candidate.1 + windowSize ∧
      candidate.2 = data.drop candidate.1 := by
  rw [candidates, List.mem_reverse] at hc
  have hw := List.mem_takeWhile_imp hc
  have hm := List.takeWhile_subset _ hc
  rw [h, placesOf, List.mem_map] at hm
  obtain ⟨i, hi, rfl⟩ := hm
  rw [List.mem_filter, List.mem_reverse, List.mem_range] at hi
  rw [decide_eq_true_eq] at hw
  exact ⟨hi.1, by omega, rfl⟩

end MatchIndex

/-- What is found among the candidates of an index has a code, and the bytes that it stands for
come next. -/
theorem fits_of_longestAmong {index : MatchIndex} {data : Bytes} {position : Nat} {r : Reference}
    (hi : index.Lists data position)
    (h : longestAmong position (data.drop position)
      (index.candidates position (data.drop position)) = some r) :
    r.Fits ∧ r.offset ≤ position ∧ position + r.length ≤ data.length ∧
      ∀ k < r.length, data[position - r.offset + k]? = data[position + k]? := by
  obtain ⟨hs, candidate, hc, rfl⟩ := exists_of_longestAmong h
  obtain ⟨hlt, hw, hd⟩ := MatchIndex.mem_candidates hi hc
  obtain ⟨hl, hb, he⟩ := commonLength_spec longestMatch candidate.2 (data.drop position)
  rw [List.length_drop] at hb
  refine ⟨⟨?_, ?_, hs, hl⟩, Nat.sub_le _ _, ?_, ?_⟩
  · exact Nat.le_sub_of_add_le (by omega)
  · exact Nat.sub_le_iff_le_add'.mpr hw
  · have hlong : 3 ≤ commonLength longestMatch candidate.2 (data.drop position) := hs
    change position + commonLength longestMatch candidate.2 (data.drop position) ≤ data.length
    omega
  · intro k hk
    have hk := he k hk
    rw [hd, List.getElem?_drop, List.getElem?_drop] at hk
    rwa [matchAt, show position - (position - candidate.1) = candidate.1 by omega]

/-! ### Playing -/

private theorem push_take {data : Bytes} {position : Nat} {b : UInt8}
    (h : data[position]? = some b) :
    (data.take position).toArray.push b = (data.take (position + 1)).toArray := by
  rw [List.take_add_one, h]
  simp

/-- Copied bytes are the next ones where they agree with those that are copied, also when the copy
overlaps itself. -/
theorem copyBack_take {data : Bytes} {offset : Nat} (ho : 1 ≤ offset) (n : Nat) {position : Nat}
    (hp : offset ≤ position) (hn : position + n ≤ data.length)
    (he : ∀ k < n, data[position - offset + k]? = data[position + k]?) :
    copyBack offset n (data.take position).toArray = (data.take (position + n)).toArray := by
  induction n generalizing position with
  | zero => rfl
  | succ n ih =>
    have hlt : position < data.length := by omega
    have hb : (data.take position).toArray.getD ((data.take position).toArray.size - offset) 0 =
        data[position] := by
      have hfirst := he 0 (Nat.succ_pos n)
      rw [Nat.add_zero, Nat.add_zero, List.getElem?_eq_getElem hlt] at hfirst
      rw [List.size_toArray, List.length_take, Nat.min_eq_left (by omega),
        Array.getD_eq_getD_getElem?, List.getElem?_toArray, List.getElem?_take_of_lt (by omega),
        hfirst]
      rfl
    rw [copyBack, hb, push_take (List.getElem?_eq_getElem hlt),
      ih (by omega) (by omega) (fun k hk => ?_)]
    · rw [Nat.add_right_comm, Nat.add_assoc]
    · have hnext := he (k + 1) (by omega)
      rwa [show position + 1 - offset + k = position - offset + (k + 1) by omega,
        show position + 1 + k = position + (k + 1) by omega]

private theorem follow?_eq {out : Array UInt8} {offset : Nat} (ho : 1 ≤ offset)
    (hr : offset ≤ out.size)
    (length : Nat) : follow? out offset length = some (copyBack offset length out) := by
  rw [follow?, if_neg]
  simp
  omega

private theorem shortCode_spec {offset : Nat} (h : 1 ≤ offset ∧ offset ≤ 32) :
    UInt8.ofNat (0xA0 + offset - 1) ≠ escapeCode ∧
      isShortReference (UInt8.ofNat (0xA0 + offset - 1)) = true ∧
        (UInt8.ofNat (0xA0 + offset - 1)).toNat - 0xA0 + 1 = offset := by
  have hcode : (UInt8.ofNat (0xA0 + offset - 1)).toNat = 0xA0 + offset - 1 :=
    Text.toNat_byte (by omega)
  simp only [isShortReference, Bool.and_eq_true, decide_eq_true_eq, UInt8.le_iff_toNat_le, ne_eq,
    ← UInt8.toNat_inj, hcode, escapeCode, UInt8.reduceToNat]
  omega

private theorem mediumCode_spec {length : Nat} (h : 3 ≤ length ∧ length ≤ 34) :
    UInt8.ofNat (0xC0 + length - 3) ≠ escapeCode ∧
      ¬ isShortReference (UInt8.ofNat (0xC0 + length - 3)) = true ∧
        isMediumReference (UInt8.ofNat (0xC0 + length - 3)) = true ∧
          (UInt8.ofNat (0xC0 + length - 3)).toNat - 0xC0 + shortestMatch = length := by
  have hcode : (UInt8.ofNat (0xC0 + length - 3)).toNat = 0xC0 + length - 3 :=
    Text.toNat_byte (by omega)
  simp only [isShortReference, isMediumReference, Bool.and_eq_true, decide_eq_true_eq,
    UInt8.le_iff_toNat_le, ne_eq, ← UInt8.toNat_inj, hcode, escapeCode, shortestMatch,
    UInt8.reduceToNat]
  omega

/-- Reading a piece plays it. -/
theorem restoreFrom_bytes (size : Nat) {out : Array UInt8} {piece : Piece} (rest : Bytes)
    (hf : piece.Fits) (hr : piece.reach ≤ out.size) :
    restoreFrom size out (piece.bytes ++ rest) = restoreFrom size (piece.play out) rest := by
  cases piece with
  | literal b =>
    obtain ⟨hn, he⟩ := hf
    have hb : isReference b = false := by rw [Bool.eq_false_iff, Ne, isReference_iff]; exact hn
    obtain ⟨hs, hm⟩ := Bool.or_eq_false_iff.mp hb
    rw [Piece.bytes, List.singleton_append, restoreFrom.eq_def]
    simp only [if_neg (show b ≠ escapeCode from he), hs, hm]
    rfl
  | escaped b =>
    rw [Piece.bytes, List.cons_append, List.singleton_append, restoreFrom.eq_def]
    rfl
  | short offset length =>
    obtain ⟨ho, ho', hl, hl'⟩ := hf
    obtain ⟨he, hs, hoffset⟩ := shortCode_spec ⟨ho, ho'⟩
    have hlength : (UInt8.ofNat (length - 3)).toNat + shortestMatch = length := by
      rw [Text.toNat_byte (by omega), shortestMatch]
      omega
    rw [Piece.bytes, List.cons_append, List.singleton_append, restoreFrom, if_neg he, if_pos hs,
      hoffset, hlength, follow?_eq ho hr]
    rfl
  | medium offset length =>
    obtain ⟨ho, ho', hl, hl'⟩ := hf
    obtain ⟨he, hs, hm, hlength⟩ := mediumCode_spec ⟨hl, hl'⟩
    have hoffset : (UInt8.ofNat (offset / 256)).toNat * 256 + (UInt8.ofNat (offset % 256)).toNat =
        offset := by
      rw [Text.toNat_byte (by omega), Text.toNat_byte (by omega), Nat.div_add_mod']
    rw [Piece.bytes, List.cons_append, List.cons_append, List.singleton_append, restoreFrom,
      if_neg he, if_neg hs, if_pos hm]
    dsimp only
    rw [hoffset, hlength, follow?_eq ho hr]
    rfl

private theorem restoreFrom_of_plays (size : Nat) {out last : Array UInt8} {pieces : List Piece}
    (h : Piece.Plays out pieces last) :
    restoreFrom size out (pieces.flatMap Piece.bytes) = .ok last := by
  induction h with
  | nil out => rfl
  | cons hf hr _ ih => rw [List.flatMap_cons, restoreFrom_bytes size _ hf hr, ih]

section
variable {data rest : Bytes} {position : Nat} {b : UInt8} (h : data.drop position = b :: rest)
include h

theorem getElem?_of_drop_eq_cons : data[position]? = some b := by
  rw [← List.head?_drop, h]
  rfl

theorem drop_of_drop_eq_cons {n : Nat} (hn : 0 < n) :
    data.drop (position + n) = rest.drop (n - 1) := by
  rw [← @List.tail_cons _ b rest, ← h, List.tail_drop, List.drop_drop]
  congr 1
  omega

end

/-- The pieces of shortened bytes play what is left of the data behind the part already there. -/
theorem exists_pieces_shortenFrom {index : MatchIndex} {data : Bytes} {position : Nat}
    (hi : index.Lists data position) (before : Bytes) :
    ∃ pieces : List Piece,
      shortenFrom index position before (data.drop position) =
          before.reverse ++ pieces.flatMap Piece.bytes ∧
        Piece.Plays (data.take position).toArray pieces data.toArray := by
  generalize hb : data.drop position = bytes
  induction index, position, before, bytes using shortenFrom.induct with
  | case1 index position before =>
    rw [shortenFrom]
    refine ⟨[], by simp, ?_⟩
    rw [List.take_of_length_le (List.drop_eq_nil_iff.mp hb)]
    exact .nil _
  | case2 index position before b rest hn ih =>
    obtain ⟨pieces, he, hp⟩ :=
      ih (hb ▸ MatchIndex.lists_add hi) (drop_of_drop_eq_cons hb Nat.one_pos)
    refine ⟨Piece.ofByte b :: pieces, ?_, ?_⟩
    · rw [shortenFrom, hn, he]
      simp [writeLiteral_eq]
    · refine .cons (Piece.ofByte_fits b) (by simp) ?_
      rwa [Piece.play_ofByte, push_take (getElem?_of_drop_eq_cons hb)]
  | case3 index position before b rest r hs ih =>
    rw [← hb] at hs
    obtain ⟨hf, ho, hl, he⟩ := fits_of_longestAmong hi hs
    have hlong : 0 < r.length := Nat.zero_lt_of_lt hf.2.2.1
    obtain ⟨pieces, hw, hp⟩ :=
      ih (hb ▸ MatchIndex.lists_addRun r.length hi) (drop_of_drop_eq_cons hb hlong)
    refine ⟨Piece.ofReference r :: pieces, ?_, ?_⟩
    · rw [hb] at hs
      rw [shortenFrom, hs]
      dsimp only
      rw [hw, List.reverse_append, List.reverse_reverse, List.append_assoc, List.flatMap_cons,
        writeReference_eq hf]
    · refine .cons (Piece.ofReference_fits hf) ?_ ?_
      · rw [Piece.reach_ofReference, List.size_toArray, List.length_take]
        omega
      · rwa [Piece.play_ofReference, copyBack_take hf.1 r.length ho hl he]

/-- Restoring undoes shortening. The shortened bytes are a row of pieces that play the data; in it
every reference fits its code, and every byte that would be read as something else is escaped. -/
theorem restore_shorten (data : Bytes) :
    restore (shorten data) = .ok data ∧
      ∃ pieces : List Piece,
        shorten data = pieces.flatMap Piece.bytes ∧ Piece.Plays #[] pieces data.toArray ∧
          ∀ piece ∈ pieces, piece.Fits := by
  obtain ⟨pieces, he, hp⟩ := exists_pieces_shortenFrom (MatchIndex.lists_empty data) []
  rw [List.drop_zero, List.reverse_nil, List.nil_append] at he
  refine ⟨?_, pieces, he, hp, hp.fits⟩
  rw [restore, shorten, he]
  exact congrArg (Except.map Array.toList) (restoreFrom_of_plays _ hp)

end LeadSheet.Packed
