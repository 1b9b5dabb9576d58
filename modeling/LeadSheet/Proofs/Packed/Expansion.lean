import LeadSheet.Proofs.Packed.Unpacking

/-!
Restoring bytes with places that are asked for whether there is a byte or not. A place behind the
end is the only failure that is not a fault of the data, and it is caught.
-/
namespace LeadSheet.Packed

/-- Puts bytes from a place on behind the end, one after the other. -/
def copyFrom (place : Int) : Nat → Array UInt8 → Except Failure (Array UInt8)
  | 0, out => .ok out
  | n + 1, out => do copyFrom (place + 1) n (out.push (← byteAt out place))

/-- Follows a reference that has been read up to a position. -/
def followFrom (position : Nat) (out : Array UInt8) (offset length : Nat) :
    Except Failure (Array UInt8) := do
  let start : Int := out.size - offset
  if start < 0 ∨ offset = 0 then throw (.packing (.badReference position))
  copyFrom start length out

/-- Restores the bytes from a position on behind those restored before. -/
def expandFrom (data : Array UInt8) (position : Nat) (out : Array UInt8) :
    Except Failure (Array UInt8) :=
  if position < data.size then do
    let b ← byteAt data position
    if b = escapeCode then
      expandFrom data (position + 2) (out.push (← byteAt data (position + 1 : Nat)))
    else if isShortReference b then
      let length := (← byteAt data (position + 1 : Nat)).toNat + shortestMatch
      expandFrom data (position + 2)
        (← followFrom (position + 2) out (b.toNat - 0xA0 + 1) length)
    else if isMediumReference b then
      let high ← byteAt data (position + 1 : Nat)
      let low ← byteAt data (position + 2 : Nat)
      expandFrom data (position + 3)
        (← followFrom (position + 3) out (high.toNat * 256 + low.toNat)
          (b.toNat - 0xC0 + shortestMatch))
    else expandFrom data (position + 1) (out.push b)
  else .ok out
termination_by data.size - position

/-- What is done about a place where there is no byte. -/
def catchEnd {α : Type} (result : Except Failure α) : Except Failure α :=
  match result with
  | .error .outOfRange => .error (.packing .endOfReferences)
  | result => result

/-- Replaces references by the stretches of bytes that they stand for. -/
def expand (data : Bytes) : Except Failure Bytes :=
  (catchEnd (expandFrom data.toArray 0 #[])).map Array.toList

private theorem byteAt_natCast (data : Array UInt8) (i : Nat) :
    byteAt data i = match data[i]? with
      | some b => .ok b
      | none => .error .outOfRange := by
  have hi : ¬ (i : Int) < 0 := by omega
  cases h : data[i]? with
  | none => simp only [byteAt, if_neg hi, Int.toNat_natCast, h]
  | some b => simp only [byteAt, if_neg hi, Int.toNat_natCast, h]

/-- A reference that does not lead to before the start is followed without a failure. -/
theorem copyFrom_eq {offset : Nat} (h0 : 0 < offset) (n : Nat) {out : Array UInt8}
    (h : offset ≤ out.size) :
    copyFrom (out.size - offset) n out = .ok (copyBack offset n out) := by
  induction n generalizing out with
  | zero => rfl
  | succ n ih =>
    have hp : (out.size : Int) - offset = (out.size - offset : Nat) := by omega
    have hb : byteAt out (out.size - offset : Nat) = .ok (out.getD (out.size - offset) 0) := by
      rw [byteAt_natCast, Array.getD_eq_getD_getElem?, Array.getElem?_eq_getElem (by omega)]
      rfl
    have hs : ∀ b, ((out.size : Int) - offset) + 1 = (out.push b).size - offset := by
      intro b
      rw [Array.size_push]
      omega
    rw [copyFrom, hp, hb, copyBack, ← ih (by rw [Array.size_push]; omega), ← hs, hp]
    rfl

private theorem followFrom_eq (position : Nat) (out : Array UInt8) (offset length : Nat) :
    followFrom position out offset length = match follow? out offset length with
      | none => .error (.packing (.badReference position))
      | some out => .ok out := by
  rw [followFrom, follow?]
  dsimp only
  by_cases h : (out.size : Int) - offset < 0 ∨ offset = 0
  · have hf : (decide (offset = 0) || decide (out.size < offset)) = true := by
      rw [Bool.or_eq_true, decide_eq_true_eq, decide_eq_true_eq]
      omega
    rw [if_pos h, if_pos hf]
    rfl
  · have hf : ¬ (decide (offset = 0) || decide (out.size < offset)) = true := by
      rw [Bool.or_eq_true, decide_eq_true_eq, decide_eq_true_eq]
      omega
    rw [if_neg h, if_neg hf]
    exact copyFrom_eq (by omega) length (by omega)

private theorem of_drop_eq_cons {data : Array UInt8} {position : Nat} {b : UInt8} {rest : Bytes}
    (h : data.toList.drop position = b :: rest) :
    byteAt data position = .ok b ∧ data.toList.drop (position + 1) = rest ∧
      data.size = position + 1 + rest.length := by
  have hl := congrArg List.length h
  rw [List.length_drop, List.length_cons, Array.length_toList] at hl
  refine ⟨?_, ?_, by omega⟩
  · rw [byteAt_natCast, ← Array.getElem?_toList, ← List.head?_drop, h]
    rfl
  · rw [← List.drop_drop, h]
    rfl

private theorem of_drop_eq_nil {data : Array UInt8} {position : Nat}
    (h : data.toList.drop position = []) :
    byteAt data position = .error .outOfRange ∧ ¬ position < data.size := by
  rw [List.drop_eq_nil_iff, Array.length_toList] at h
  refine ⟨?_, by omega⟩
  rw [byteAt_natCast, Array.getElem?_eq_none h]

/-- Restoring with a look at the first byte. -/
theorem expandFrom_cons {data : Array UInt8} {position : Nat} {b : UInt8} {rest : Bytes}
    (h : data.toList.drop position = b :: rest) (out : Array UInt8) :
    expandFrom data position out =
      if b = escapeCode then do
        expandFrom data (position + 2) (out.push (← byteAt data (position + 1 : Nat)))
      else if isShortReference b then do
        let length := (← byteAt data (position + 1 : Nat)).toNat + shortestMatch
        expandFrom data (position + 2)
          (← followFrom (position + 2) out (b.toNat - 0xA0 + 1) length)
      else if isMediumReference b then do
        let high ← byteAt data (position + 1 : Nat)
        let low ← byteAt data (position + 2 : Nat)
        expandFrom data (position + 3)
          (← followFrom (position + 3) out (high.toNat * 256 + low.toNat)
            (b.toNat - 0xC0 + shortestMatch))
      else expandFrom data (position + 1) (out.push b) := by
  obtain ⟨hb, -, hs⟩ := of_drop_eq_cons h
  rw [expandFrom, if_pos (by omega), hb]
  rfl

/-- Restoring fails in no other way than by a fault of the data. -/
theorem expandFrom_eq {data : Array UInt8} {position : Nat} {out : Array UInt8} {bytes : Bytes}
    (h : data.toList.drop position = bytes) :
    catchEnd (expandFrom data position out) = packed (restoreFrom data.size out bytes) := by
  fun_induction restoreFrom data.size out bytes generalizing position with
  | case1 out =>
    rw [expandFrom, if_neg (of_drop_eq_nil h).2]
    rfl
  | case2 out =>
    rw [expandFrom_cons h, if_pos rfl, (of_drop_eq_nil (of_drop_eq_cons h).2.1).1]
    rfl
  | case3 out c rest ih =>
    obtain ⟨hc, hr, -⟩ := of_drop_eq_cons (of_drop_eq_cons h).2.1
    rw [expandFrom_cons h, if_pos rfl, hc]
    exact ih hr
  | case4 out b he hs =>
    rw [expandFrom_cons h, if_neg he, if_pos hs, (of_drop_eq_nil (of_drop_eq_cons h).2.1).1]
    rfl
  | case5 out b he hs n rest hf =>
    obtain ⟨hn, hr, hl⟩ := of_drop_eq_cons (of_drop_eq_cons h).2.1
    rw [expandFrom_cons h, if_neg he, if_pos hs, hn]
    change catchEnd (followFrom _ _ _ _ >>= _) = _
    rw [followFrom_eq, hf, show position + 2 = data.size - rest.length by omega]
    rfl
  | case6 out b he hs n rest next hf ih =>
    obtain ⟨hn, hr, hl⟩ := of_drop_eq_cons (of_drop_eq_cons h).2.1
    rw [expandFrom_cons h, if_neg he, if_pos hs, hn]
    change catchEnd (followFrom _ _ _ _ >>= _) = _
    rw [followFrom_eq, hf]
    exact ih hr
  | case7 out b he hs hm high low rest offset =>
    rename_i hf
    obtain ⟨hh, hr, -⟩ := of_drop_eq_cons (of_drop_eq_cons h).2.1
    obtain ⟨hl, hr, hsize⟩ := of_drop_eq_cons hr
    rw [expandFrom_cons h, if_neg he, if_neg hs, if_pos hm, hh, hl]
    change catchEnd (followFrom _ _ _ _ >>= _) = _
    rw [followFrom_eq, hf, show position + 3 = data.size - rest.length by omega]
    rfl
  | case8 out b he hs hm high low rest offset next =>
    rename_i hf ih
    obtain ⟨hh, hr, -⟩ := of_drop_eq_cons (of_drop_eq_cons h).2.1
    obtain ⟨hl, hr, -⟩ := of_drop_eq_cons hr
    rw [expandFrom_cons h, if_neg he, if_neg hs, if_pos hm, hh, hl]
    change catchEnd (followFrom _ _ _ _ >>= _) = _
    rw [followFrom_eq, hf]
    exact ih hr
  | case9 out b rest he hs hm hshort =>
    rw [expandFrom_cons h, if_neg he, if_neg hs, if_pos hm]
    have hr := (of_drop_eq_cons h).2.1
    match rest, hshort, hr with
    | [], _, hr =>
      rw [(of_drop_eq_nil hr).1]
      rfl
    | [high], _, hr =>
      obtain ⟨hh, hr, -⟩ := of_drop_eq_cons hr
      rw [hh, (of_drop_eq_nil hr).1]
      rfl
    | high :: low :: rest, hshort, _ => exact (hshort high low rest rfl).elim
  | case10 out b rest he hs hm ih =>
    rw [expandFrom_cons h, if_neg he, if_neg hs, if_neg hm]
    exact ih (of_drop_eq_cons h).2.1

theorem expand_eq (data : Bytes) : expand data = packed (restore data) := by
  have h : catchEnd (expandFrom data.toArray 0 #[]) =
      packed (restoreFrom data.toArray.size #[] data) := expandFrom_eq rfl
  rw [expand, h, restore, List.size_toArray]
  cases restoreFrom data.length #[] data <;> rfl

end LeadSheet.Packed
