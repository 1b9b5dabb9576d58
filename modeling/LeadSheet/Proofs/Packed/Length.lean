import LeadSheet.Proofs.Packed.BackReference
import LeadSheet.Proofs.Packed.Expansion

/-!
How long bytes get when they are shortened and when they are restored. No reference takes more bytes
than the stretch that it stands for, so that shortened bytes outgrow the data by the escaped ones at
most. A reference of two bytes stands for 258 bytes at most, and nothing stands for more.
-/
namespace LeadSheet.Packed

/-- A byte that is written behind an escape byte where no reference stands for it. -/
def isEscaped (b : UInt8) : Bool := (0xA0 ≤ b && b ≤ 0xDF) || b = 0xFF

/-- The length of bytes with every byte escaped that has to be. -/
def escapedLength (data : Bytes) : Nat := data.length + data.countP isEscaped

/-! ### Shortened bytes -/

private theorem escapedLength_push (out : Array UInt8) (b : UInt8) :
    escapedLength (out.push b).toList =
      escapedLength out.toList + (if isEscaped b then 2 else 1) := by
  rw [escapedLength, escapedLength, Array.toList_push, List.length_append, List.countP_append,
    List.length_singleton, List.countP_singleton]
  split <;> omega

/-- Every byte that is copied counts. -/
theorem escapedLength_copyBack (offset n : Nat) (out : Array UInt8) :
    escapedLength out.toList + n ≤ escapedLength (copyBack offset n out).toList := by
  induction n generalizing out with
  | zero => exact le_rfl
  | succ n ih =>
    have htail := ih (out.push (out.getD (out.size - offset) 0))
    rw [escapedLength_push] at htail
    rw [copyBack]
    split at htail <;> omega

/-- What a piece plays is as long as the piece, with escaped bytes counted twice. -/
theorem Piece.Fits.length_bytes_le {piece : Piece} (h : piece.Fits) (out : Array UInt8) :
    escapedLength out.toList + piece.bytes.length ≤ escapedLength (piece.play out).toList := by
  cases piece with
  | literal b =>
    rw [Piece.play, escapedLength_push, Piece.bytes, List.length_singleton]
    split <;> omega
  | escaped b =>
    have hb : isEscaped b = true := by
      rw [isEscaped, Bool.or_eq_true, Bool.and_eq_true, decide_eq_true_eq, decide_eq_true_eq,
        decide_eq_true_eq]
      exact h
    rw [Piece.play, escapedLength_push, if_pos hb]
    exact le_rfl
  | short offset length =>
    obtain ⟨-, -, hlength, -⟩ := h
    exact (Nat.add_le_add_left (Nat.le_of_succ_le hlength) _).trans (escapedLength_copyBack ..)
  | medium offset length =>
    obtain ⟨-, -, hlength, -⟩ := h
    exact (Nat.add_le_add_left hlength _).trans (escapedLength_copyBack ..)

private theorem Piece.Plays.length_bytes_le {out last : Array UInt8} {pieces : List Piece}
    (h : Plays out pieces last) :
    escapedLength out.toList + (pieces.flatMap Piece.bytes).length ≤ escapedLength last.toList := by
  induction h with
  | nil => exact le_rfl
  | @cons out _ _ _ hfits _ _ ih =>
    have hpiece := hfits.length_bytes_le out
    rw [List.flatMap_cons, List.length_append]
    omega

private theorem length_shorten_le (data : Bytes) : (shorten data).length ≤ escapedLength data := by
  obtain ⟨pieces, hbytes, hplays⟩ := exists_pieces_shortenFrom (MatchIndex.lists_empty data) []
  rw [List.drop_zero, List.reverse_nil, List.nil_append] at hbytes
  have hle := hplays.length_bytes_le
  rw [shorten, hbytes]
  exact (Nat.le_add_left _ _).trans hle

/-! ### Restored bytes -/

private theorem size_copyBack (offset n : Nat) (out : Array UInt8) :
    (copyBack offset n out).size = out.size + n := by
  induction n generalizing out with
  | zero => rfl
  | succ n ih =>
    rw [copyBack, ih, Array.size_push]
    omega

private theorem size_of_follow? {out next : Array UInt8} {offset length : Nat}
    (h : follow? out offset length = some next) : next.size = out.size + length := by
  rw [follow?] at h
  split at h
  · cases h
  · obtain rfl := Option.some.inj h
    exact size_copyBack offset length out

/-- Every byte adds 129 bytes at most, since a reference has two of them at least. -/
theorem size_restoreFrom_le {size : Nat} {out last : Array UInt8} {bytes : Bytes}
    (h : restoreFrom size out bytes = .ok last) : last.size ≤ out.size + 129 * bytes.length := by
  fun_induction restoreFrom size out bytes with
  | case1 out =>
    obtain rfl := Except.ok.inj h
    exact Nat.le_add_right _ _
  | case2 | case4 | case5 | case7 | case9 => cases h
  | case3 out c rest ih =>
    have hrest := ih h
    rw [Array.size_push] at hrest
    simp only [List.length_cons]
    omega
  | case6 out b he hs n rest next hf ih =>
    have hrest := ih h
    rw [size_of_follow? hf, shortestMatch] at hrest
    have hn := n.toNat_lt
    simp only [List.length_cons]
    omega
  | case8 out b he hs hm high low rest offset next hf ih =>
    have hrest := ih h
    rw [size_of_follow? hf, shortestMatch] at hrest
    have hb := b.toNat_lt
    simp only [List.length_cons]
    omega
  | case10 out b rest he hs hm ih =>
    have hrest := ih h
    rw [Array.size_push] at hrest
    rw [List.length_cons]
    omega

/-- Shortened bytes are no more than the data and the escape bytes that it needs when nothing is
replaced. Restored bytes are no more than 129 for each one. -/
theorem length_shorten_restore_le (data : Bytes) :
    (shorten data).length ≤ data.length + data.countP isEscaped ∧
      ∀ restored, restore data = .ok restored → restored.length ≤ 129 * data.length := by
  refine ⟨length_shorten_le data, fun restored h => ?_⟩
  obtain ⟨out, hout, rfl⟩ := Except.map_eq_ok_iff.mp h
  have hle := size_restoreFrom_le hout
  rwa [Array.size_empty, Nat.zero_add] at hle

/-- A reference of two bytes to the byte before it. -/
theorem length_shorten_restore_le_repeated :
    restore [0x41, 0xA0, 0x05] = .ok (List.replicate 9 0x41) ∧
      (List.replicate 9 (0x41 : UInt8)).length ≤ 129 * 3 := by
  have h : restore [0x41, 0xA0, 0x05] = .ok (List.replicate 9 0x41) := by decide +kernel
  exact ⟨h, (length_shorten_restore_le [0x41, 0xA0, 0x05]).2 _ h⟩

end LeadSheet.Packed
