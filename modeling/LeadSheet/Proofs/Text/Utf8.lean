import LeadSheet.Proofs.Outcome
import LeadSheet.Text.Utf8

/-! Reading UTF-8 gives back the text that was written, and writing the bytes that were read. -/
namespace LeadSheet.Text

theorem toNat_byte {n : Nat} (h : n < 256) : (UInt8.ofNat n).toNat = n :=
  UInt8.toNat_ofNat_of_lt h

/-- The code points of characters: none is a surrogate or above the last. -/
theorem toNat_valid (c : Char) : c.toNat < 0xD800 ∨ (0xDFFF < c.toNat ∧ c.toNat < 0x110000) :=
  c.valid

private theorem continuation {n : Nat} (h : n < 64) :
    isContinuation (UInt8.ofNat (0x80 + n)) = true := by
  simp only [isContinuation, Bool.and_eq_true, decide_eq_true_eq, UInt8.le_iff_toNat_le,
    UInt8.lt_iff_toNat_lt, toNat_byte (show 0x80 + n < 256 by omega), UInt8.reduceToNat]
  omega

private theorem fits {a b : Nat} (ha : a < 256) (hb : b < 64)
    (h : (a = 0xE0 → 0x20 ≤ b) ∧ (a = 0xED → b < 0x20) ∧ (a = 0xF0 → 0x10 ≤ b) ∧
      (a = 0xF4 → b < 0x10)) :
    fitsSecond (UInt8.ofNat a) (UInt8.ofNat (0x80 + b)) = true := by
  simp only [fitsSecond, continuation hb, Bool.true_and, Bool.and_eq_true, Bool.or_eq_true,
    bne_iff_ne, ne_eq, decide_eq_true_eq, ← UInt8.toNat_inj, UInt8.le_iff_toNat_le,
    UInt8.lt_iff_toNat_lt, toNat_byte ha, toNat_byte (show 0x80 + b < 256 by omega),
    UInt8.reduceToNat]
  omega

private theorem utf8Char_one {high a : Nat} (ha : a < 64) :
    utf8Char high [UInt8.ofNat (0x80 + a)] = Char.ofNat (high * 64 + a) := by
  rw [utf8Char, List.foldl_cons, List.foldl_nil, toNat_byte (by omega), Nat.add_sub_cancel_left]

private theorem utf8Char_cons {high a : Nat} (ha : a < 64) (tail : List UInt8) :
    utf8Char high (UInt8.ofNat (0x80 + a) :: tail) = utf8Char (high * 64 + a) tail := by
  rw [utf8Char, List.foldl_cons, toNat_byte (by omega), Nat.add_sub_cancel_left]
  rfl

private theorem start_spec {a : Nat} (hl : 0xC2 ≤ a) (hu : a < 0xF5) :
    ¬ UInt8.ofNat a < 0x80 ∧
      ¬ (decide (UInt8.ofNat a < 0xC2) || decide (0xF5 ≤ UInt8.ofNat a)) = true ∧
        (UInt8.ofNat a < 0xE0 ↔ a < 0xE0) ∧ (UInt8.ofNat a < 0xF0 ↔ a < 0xF0) := by
  simp only [Bool.or_eq_true, decide_eq_true_eq, UInt8.lt_iff_toNat_lt, UInt8.le_iff_toNat_le,
    toNat_byte (show a < 256 by omega), UInt8.reduceToNat, iff_self, and_true]
  omega

/-! Characters of two, three and four bytes, by the bits that their bytes hold. -/

private theorem utf8DecodeFrom_two (position : Nat) {a b : Nat} (ha : 2 ≤ a ∧ a < 0x20)
    (hb : b < 64)
    (rest : List UInt8) :
    utf8DecodeFrom position (UInt8.ofNat (0xC0 + a) :: UInt8.ofNat (0x80 + b) :: rest) =
      (utf8DecodeFrom (position + 2) rest).map (Char.ofNat (a * 64 + b) :: ·) := by
  have hf : fitsSecond (UInt8.ofNat (0xC0 + a)) (UInt8.ofNat (0x80 + b)) = true :=
    fits (by omega) hb (by omega)
  obtain ⟨h1, h2, h3, -⟩ := start_spec (a := 0xC0 + a) (by omega) (by omega)
  rw [utf8DecodeFrom.eq_def]
  dsimp only
  rw [if_neg h1, if_neg h2, hf, if_neg (by decide), if_pos (h3.mpr (by omega)),
    toNat_byte (by omega), Nat.add_sub_cancel_left, utf8Char_one hb]

private theorem utf8DecodeFrom_three (position : Nat) {a b c : Nat} (ha : a < 0x10) (hb : b < 64)
    (hc : c < 64) (h : (a = 0 → 0x20 ≤ b) ∧ (a = 0xD → b < 0x20)) (rest : List UInt8) :
    utf8DecodeFrom position
        (UInt8.ofNat (0xE0 + a) :: UInt8.ofNat (0x80 + b) :: UInt8.ofNat (0x80 + c) :: rest) =
      (utf8DecodeFrom (position + 3) rest).map (Char.ofNat ((a * 64 + b) * 64 + c) :: ·) := by
  have hf : fitsSecond (UInt8.ofNat (0xE0 + a)) (UInt8.ofNat (0x80 + b)) = true :=
    fits (by omega) hb (by omega)
  obtain ⟨h1, h2, h3, h4⟩ := start_spec (a := 0xE0 + a) (by omega) (by omega)
  rw [utf8DecodeFrom.eq_def]
  dsimp only
  rw [if_neg h1, if_neg h2, hf, if_neg (by decide), if_neg (h3.not.mpr (by omega)),
    continuation hc, if_neg (by decide), if_pos (h4.mpr (by omega)), toNat_byte (by omega),
    Nat.add_sub_cancel_left, utf8Char_cons hb, utf8Char_one hc]

private theorem utf8DecodeFrom_four (position : Nat) {a b c d : Nat} (ha : a < 5) (hb : b < 64)
    (hc : c < 64) (hd : d < 64) (h : (a = 0 → 0x10 ≤ b) ∧ (a = 4 → b < 0x10))
    (rest : List UInt8) :
    utf8DecodeFrom position (UInt8.ofNat (0xF0 + a) :: UInt8.ofNat (0x80 + b) ::
        UInt8.ofNat (0x80 + c) :: UInt8.ofNat (0x80 + d) :: rest) =
      (utf8DecodeFrom (position + 4) rest).map
        (Char.ofNat (((a * 64 + b) * 64 + c) * 64 + d) :: ·) := by
  have hf : fitsSecond (UInt8.ofNat (0xF0 + a)) (UInt8.ofNat (0x80 + b)) = true :=
    fits (by omega) hb (by omega)
  obtain ⟨h1, h2, h3, h4⟩ := start_spec (a := 0xF0 + a) (by omega) (by omega)
  rw [utf8DecodeFrom.eq_def]
  dsimp only
  rw [if_neg h1, if_neg h2, hf, if_neg (by decide), if_neg (h3.not.mpr (by omega)),
    continuation hc, if_neg (by decide), if_neg (h4.not.mpr (by omega)), continuation hd,
    if_neg (by decide), toNat_byte (by omega), Nat.add_sub_cancel_left, utf8Char_cons hb,
    utf8Char_cons hc, utf8Char_one hd]

/-- The bytes of a character are read as this character, whatever follows them. -/
theorem utf8DecodeFrom_bytes (position : Nat) (c : Char) (rest : List UInt8) :
    ∃ next, utf8DecodeFrom position (utf8Bytes c ++ rest) =
      (utf8DecodeFrom next rest).map (c :: ·) := by
  have hv := toNat_valid c
  generalize hn : c.toNat = n at hv
  have hc : Char.ofNat n = c := by rw [← hn, Char.ofNat_toNat]
  simp only [utf8Bytes, hn, show Nat.pow 64 0 = 1 from rfl, show Nat.pow 64 1 = 64 from rfl,
    show Nat.pow 64 2 = 64 * 64 from rfl, Nat.div_one]
  by_cases h1 : n < 0x80
  · have ha : UInt8.ofNat n < 0x80 := by
      rw [UInt8.lt_iff_toNat_lt, toNat_byte (by omega)]
      exact h1
    refine ⟨position + 1, ?_⟩
    rw [if_pos h1, List.singleton_append, utf8DecodeFrom.eq_def]
    dsimp only
    rw [if_pos ha, toNat_byte (by omega), hc]
  by_cases h2 : n < 0x800
  · have he : n / 64 * 64 + n % 64 = n := by omega
    refine ⟨position + 2, ?_⟩
    rw [if_neg h1, if_pos h2]
    refine (utf8DecodeFrom_two position (by omega) (by omega) rest).trans ?_
    rw [he, hc]
  by_cases h3 : n < 0x10000
  · have he : (n / (64 * 64) * 64 + n / 64 % 64) * 64 + n % 64 = n := by omega
    refine ⟨position + 3, ?_⟩
    rw [if_neg h1, if_neg h2, if_pos h3]
    refine (utf8DecodeFrom_three position (by omega) (by omega) (by omega) (by omega) rest).trans ?_
    rw [he, hc]
  · have he : ((n / (64 * 64 * 64) * 64 + n / (64 * 64) % 64) * 64 + n / 64 % 64) * 64 + n % 64 =
        n := by omega
    refine ⟨position + 4, ?_⟩
    rw [if_neg h1, if_neg h2, if_neg h3]
    refine (utf8DecodeFrom_four position (by omega) (by omega) (by omega) (by omega) (by omega)
      rest).trans ?_
    rw [he, hc]

private theorem utf8DecodeFrom_encode (position : Nat) (cs : List Char) :
    utf8DecodeFrom position (utf8Encode cs) = .ok cs := by
  induction cs generalizing position with
  | nil => rfl
  | cons c cs ih =>
    obtain ⟨next, he⟩ := utf8DecodeFrom_bytes position c (utf8Encode cs)
    rw [utf8Encode, List.flatMap_cons]
    rw [utf8Encode] at he
    rw [he, ← utf8Encode, ih]
    rfl

/-- Every text has a UTF-8 form that is read as this text. -/
theorem utf8Decode_encode (cs : List Char) : utf8Decode (utf8Encode cs) = .ok cs :=
  utf8DecodeFrom_encode 0 cs

/-! ### Bytes that were read -/

/-- A number that is the code point of a character. -/
theorem toNat_ofNat {n : Nat} (h : n < 0xD800 ∨ (0xDFFF < n ∧ n < 0x110000)) :
    (Char.ofNat n).toNat = n := by
  rw [Char.ofNat, dif_pos h]
  rfl

private theorem isContinuation_iff (b : UInt8) :
    isContinuation b = true ↔ 0x80 ≤ b.toNat ∧ b.toNat < 0xC0 := by
  simp only [isContinuation, Bool.and_eq_true, decide_eq_true_eq, UInt8.le_iff_toNat_le,
    UInt8.lt_iff_toNat_lt, UInt8.reduceToNat]

private theorem fitsSecond_iff (a b : UInt8) : fitsSecond a b = true ↔
    (0x80 ≤ b.toNat ∧ b.toNat < 0xC0) ∧ (a.toNat = 0xE0 → 0xA0 ≤ b.toNat) ∧
      (a.toNat = 0xED → b.toNat < 0xA0) ∧ (a.toNat = 0xF0 → 0x90 ≤ b.toNat) ∧
        (a.toNat = 0xF4 → b.toNat < 0x90) := by
  simp only [fitsSecond, isContinuation, Bool.and_eq_true, Bool.or_eq_true, bne_iff_ne, ne_eq,
    decide_eq_true_eq, ← UInt8.toNat_inj, UInt8.le_iff_toNat_le, UInt8.lt_iff_toNat_lt,
    UInt8.reduceToNat]
  omega

theorem ofNat_eq {b : UInt8} {n : Nat} (h : n = b.toNat) : UInt8.ofNat n = b := by
  rw [h, UInt8.ofNat_toNat]

/-- The bytes of a character of several bytes, by its code point. -/
theorem utf8Bytes_ofNat {n : Nat} (h : n < 0xD800 ∨ (0xDFFF < n ∧ n < 0x110000)) :
    utf8Bytes (Char.ofNat n) =
      if n < 0x80 then [UInt8.ofNat n]
      else if n < 0x800 then [UInt8.ofNat (0xC0 + n / 64), UInt8.ofNat (0x80 + n % 64)]
      else if n < 0x10000 then
        [UInt8.ofNat (0xE0 + n / 4096), UInt8.ofNat (0x80 + n / 64 % 64),
          UInt8.ofNat (0x80 + n % 64)]
      else
        [UInt8.ofNat (0xF0 + n / 262144), UInt8.ofNat (0x80 + n / 4096 % 64),
          UInt8.ofNat (0x80 + n / 64 % 64), UInt8.ofNat (0x80 + n % 64)] := by
  simp only [utf8Bytes, toNat_ofNat h]
  simp

/-- The bytes of the character that two bytes are read as are these bytes. -/
theorem utf8Bytes_two {a b : UInt8} (ha : 0xC2 ≤ a.toNat ∧ a.toNat < 0xE0)
    (hb : fitsSecond a b = true) : utf8Bytes (utf8Char (a.toNat - 0xC0) [b]) = [a, b] := by
  rw [fitsSecond_iff] at hb
  simp only [utf8Char, List.foldl_cons, List.foldl_nil]
  rw [utf8Bytes_ofNat (by omega), if_neg (by omega), if_pos (by omega)]
  simp only [List.cons.injEq, and_true]
  exact ⟨ofNat_eq (by omega), ofNat_eq (by omega)⟩

private theorem utf8Bytes_three {a b c : UInt8} (ha : 0xE0 ≤ a.toNat ∧ a.toNat < 0xF0)
    (hb : fitsSecond a b = true) (hc : isContinuation c = true) :
    utf8Bytes (utf8Char (a.toNat - 0xE0) [b, c]) = [a, b, c] := by
  rw [fitsSecond_iff] at hb
  rw [isContinuation_iff] at hc
  simp only [utf8Char, List.foldl_cons, List.foldl_nil]
  rw [utf8Bytes_ofNat (by omega), if_neg (by omega), if_neg (by omega), if_pos (by omega)]
  simp only [List.cons.injEq, and_true]
  exact ⟨ofNat_eq (by omega), ofNat_eq (by omega), ofNat_eq (by omega)⟩

private theorem utf8Bytes_four {a b c d : UInt8} (ha : 0xF0 ≤ a.toNat ∧ a.toNat < 0xF5)
    (hb : fitsSecond a b = true) (hc : isContinuation c = true) (hd : isContinuation d = true) :
    utf8Bytes (utf8Char (a.toNat - 0xF0) [b, c, d]) = [a, b, c, d] := by
  rw [fitsSecond_iff] at hb
  rw [isContinuation_iff] at hc hd
  simp only [utf8Char, List.foldl_cons, List.foldl_nil]
  rw [utf8Bytes_ofNat (by omega), if_neg (by omega), if_neg (by omega), if_neg (by omega)]
  simp only [List.cons.injEq, and_true]
  exact ⟨ofNat_eq (by omega), ofNat_eq (by omega), ofNat_eq (by omega), ofNat_eq (by omega)⟩

private theorem utf8Bytes_one {a : UInt8} (ha : a < 0x80) :
    utf8Bytes (Char.ofNat a.toNat) = [a] := by
  have ha : a.toNat < 0x80 := UInt8.lt_iff_toNat_lt.mp ha
  rw [utf8Bytes_ofNat (by omega), if_pos ha, UInt8.ofNat_toNat]

private theorem utf8Encode_cons (c : Char) (cs : List Char) :
    utf8Encode (c :: cs) = utf8Bytes c ++ utf8Encode cs :=
  List.flatMap_cons

private theorem start_bounds {a : UInt8} (hs : ¬ (decide (a < 0xC2) || decide (0xF5 ≤ a)) = true) :
    0xC2 ≤ a.toNat ∧ a.toNat < 0xF5 := by
  simp only [Bool.or_eq_true, decide_eq_true_eq, UInt8.lt_iff_toNat_lt, UInt8.le_iff_toNat_le,
    UInt8.reduceToNat] at hs
  omega

/-- Bytes that are read as a text are the bytes of this text: no text has two forms. -/
theorem utf8Encode_of_decodeFrom {position : Nat} {bytes : List UInt8} {cs : List Char}
    (h : utf8DecodeFrom position bytes = .ok cs) : utf8Encode cs = bytes := by
  fun_induction utf8DecodeFrom position bytes generalizing cs with
  | case1 =>
    cases h
    rfl
  | case2 position a rest ha ih =>
    obtain ⟨tail, ht, rfl⟩ := Except.map_eq_ok_iff.mp h
    rw [utf8Encode_cons, utf8Bytes_one ha, ih ht]
    rfl
  | case6 position a h1 hs b rest hb h2 ih =>
    obtain ⟨tail, ht, rfl⟩ := Except.map_eq_ok_iff.mp h
    have ha := start_bounds hs
    have h2 : a.toNat < 0xE0 := UInt8.lt_iff_toNat_lt.mp h2
    rw [utf8Encode_cons, utf8Bytes_two ⟨ha.1, h2⟩ (by simpa using hb), ih ht]
    rfl
  | case9 position a h1 hs b hb h2 c rest hc h3 ih =>
    obtain ⟨tail, ht, rfl⟩ := Except.map_eq_ok_iff.mp h
    have h2 := Nat.not_lt.mp (UInt8.lt_iff_toNat_lt.not.mp h2)
    have h3 : a.toNat < 0xF0 := UInt8.lt_iff_toNat_lt.mp h3
    rw [utf8Encode_cons, utf8Bytes_three ⟨h2, h3⟩ (by simpa using hb) (by simpa using hc), ih ht]
    rfl
  | case12 position a h1 hs b hb h2 c hc h3 d rest hd ih =>
    obtain ⟨tail, ht, rfl⟩ := Except.map_eq_ok_iff.mp h
    have ha := start_bounds hs
    have h3 := Nat.not_lt.mp (UInt8.lt_iff_toNat_lt.not.mp h3)
    rw [utf8Encode_cons, utf8Bytes_four ⟨h3, ha.2⟩ (by simpa using hb) (by simpa using hc)
      (by simpa using hd), ih ht]
    rfl
  | _ => cases h

/-- A text that is read from bytes has these bytes. -/
theorem utf8Encode_of_decode {bytes : List UInt8} {cs : List Char}
    (h : utf8Decode bytes = .ok cs) : utf8Encode cs = bytes :=
  utf8Encode_of_decodeFrom h

end LeadSheet.Text
