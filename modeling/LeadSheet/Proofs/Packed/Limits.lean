import LeadSheet.Proofs.Markup.DigitLimit
import LeadSheet.Proofs.Packed.Share

/-!
What packed data has no room for, and that nothing else keeps the tokens of a text from being
packed.
-/
namespace LeadSheet
open Packed

/-- A failure of packing. -/
def Failure.IsPacking (e : Failure) : Prop := ∃ fault, e = .packing fault

/-- The number of bytes of a text. -/
def byteLength (text : String) : Nat := (Text.utf8Encode text.toList).length

namespace Packed

theorem yields_packed {α : Type} {x : Except PackFault α} {good : α → Prop} {bad : Prop}
    (h : x.Yields good fun _ => bad) :
    (packed x).Yields good fun e => bad ∧ e.IsPacking := by
  cases h with
  | ok h => exact .ok h
  | error h => exact .error ⟨h, _, rfl⟩

/-! ### Numbers and texts -/

/-- The first byte of a number is the sign of negative ones for every 128th number only. -/
theorem head?_writeNat (n : Nat) :
    (writeNat n).head? = some negativeCode ↔ 128 ≤ n ∧ n % 128 = 20 := by
  have hc : negativeCode = UInt8.ofNat 148 := rfl
  rw [writeNat]
  by_cases hn : n < 128
  · rw [if_pos hn, List.head?_cons, Option.some_inj, hc, ← UInt8.toNat_inj,
      Text.toNat_byte (by omega), Text.toNat_byte (by omega)]
    omega
  · rw [if_neg hn, List.head?_cons, Option.some_inj, hc, ← UInt8.toNat_inj,
      Text.toNat_byte (by omega), Text.toNat_byte (by omega)]
    omega

private theorem yields_writeSigned (n : Int) :
    (writeSigned n).Yields (fun _ => ¬ (128 ≤ n ∧ n % 128 = 20))
      fun _ => 128 ≤ n ∧ n % 128 = 20 := by
  have hs := head?_writeNat n.toNat
  rw [writeSigned]
  by_cases hn : n < 0
  · rw [if_pos hn]
    exact .ok (by omega)
  rw [if_neg hn]
  dsimp only
  by_cases hh : (writeNat n.toNat).head? = some negativeCode
  · rw [if_pos hh]
    have hl := hs.mp hh
    exact .error (by omega)
  · rw [if_neg hh]
    have hl := hs.not.mp hh
    exact .ok (by omega)

private theorem yields_writeText (text : String) {size : Nat} (limit : Nat)
    (hl : 256 ^ size = limit + 1) :
    (writeText text size).Yields (fun _ => ¬ limit < byteLength text)
      fun _ => limit < byteLength text := by
  rw [writeText, show Nat.pow 256 size = limit + 1 from hl]
  by_cases h : limit + 1 ≤ (Text.utf8Encode text.toList).length
  · rw [if_pos h]
    exact .error h
  · rw [if_neg h]
    exact .ok h

/-! ### Tokens -/

private theorem writeToken_chord (name : String) :
    writeToken (.chord ("$" ++ name)) = (packed (writeText name 1)).map (0x0F :: ·) := by
  have hn : String.ofList (("$" ++ name).toList.drop 1) = name := by
    rw [String.toList_append]
    exact String.ofList_toList
  rw [writeToken, hn]
  rfl

private theorem writeToken_string (text : String) :
    writeToken (.string text) = (packed (writeText text 2)).map (stringCode :: ·) := rfl

theorem yields_chord (name : String) :
    (writeToken (.chord ("$" ++ name))).Yields (fun _ => ¬ 255 < byteLength name)
      fun e => 255 < byteLength name ∧ e.IsPacking := by
  rw [writeToken_chord]
  exact (yields_packed (yields_writeText name 255 (by decide))).map fun _ => id

theorem yields_string (text : String) :
    (writeToken (.string text)).Yields (fun _ => ¬ 65535 < byteLength text)
      fun e => 65535 < byteLength text ∧ e.IsPacking := by
  rw [writeToken_string]
  exact (yields_packed (yields_writeText text 65535 (by decide))).map fun _ => id

theorem yields_keySignature (count : Int) :
    (writeToken (.command (Token.commandText (.keySignature count)))).Yields
      (fun _ => ¬ (128 ≤ count ∧ count % 128 = 20))
      fun e => (128 ≤ count ∧ count % 128 = 20) ∧ e.IsPacking := by
  rw [writeToken, writeCommand_keySignature]
  exact (yields_packed (yields_writeSigned count)).map fun _ => id

private theorem yields_writeField (field : String × String) :
    (writeField field).Yields
      (fun _ => ¬ (255 < byteLength field.1 ∨ 255 < byteLength field.2))
      fun _ => 255 < byteLength field.1 ∨ 255 < byteLength field.2 := by
  rw [writeField]
  refine Except.Yields.bind ((yields_writeText field.1 255 (by decide)).mono (fun _ => id) fun _ => .inl) ?_
  intro key hk
  refine Except.Yields.bind ((yields_writeText field.2 255 (by decide)).mono (fun _ => id) fun _ => .inr) ?_
  intro value hv
  exact .ok (not_or.mpr ⟨hk, hv⟩)

/-- Fields that cannot be packed together. -/
def FieldsOversized (fields : List (String × String)) : Prop :=
  255 < fields.length ∨ ∃ field ∈ fields, 255 < byteLength field.1 ∨ 255 < byteLength field.2

theorem yields_writeHead (fields : List (String × String)) :
    (writeHead fields).Yields (fun _ => ¬ FieldsOversized fields)
      fun _ => FieldsOversized fields := by
  rw [writeHead]
  by_cases he : fields.isEmpty = true
  · rw [if_pos he, List.isEmpty_iff.mp he]
    refine .ok ?_
    rintro (h | ⟨field, h, -⟩) <;> cases h
  rw [if_neg he]
  by_cases hl : 255 < fields.length
  · rw [if_pos hl]
    exact .error (.inl hl)
  rw [if_neg hl]
  refine Except.Yields.bind ((Except.yields_mapM fun field _ => yields_writeField field).mono
    (fun _ => id) fun _ => .inr) ?_
  rintro chunks ⟨hf, -⟩
  refine .ok ?_
  rintro (h | ⟨field, hm, h⟩)
  · exact hl h
  · obtain ⟨_, _, hn⟩ := hf field hm
    exact hn h

section
variable {text : String}

/-- Without a number that has too many digits, the tokens are those of a reader without a limit. -/
theorem checkedTokens_eq (h : ∀ l ∈ (Document.read text).lexemes, l.excess? = none) :
    checkedTokens text = .ok (tokens text) := by
  rw [checkedTokens, Document.tokenExcess?_eq_none_iff.mpr h]

private theorem checkedTokens_eq_error {count : Nat}
    (h : (Document.read text).tokenExcess? = some count) :
    checkedTokens text = .error (.tooManyDigits count) := by
  rw [checkedTokens, h]

/-- Every number of a text that has tokens is below the power of ten that the limit says. -/
theorem lt_of_checkedTokens {found : List Token} (h : checkedTokens text = .ok found) {l : Located}
    (hl : l ∈ (Document.read text).lexemes) {word : Word} (hw : l.lexeme = .word word) :
    ∀ n ∈ word.longNumbers, n < 10 ^ Text.digitLimit := by
  cases hd : (Document.read text).tokenExcess? with
  | none =>
    exact Located.lt_of_excess? (Reading.sound_of_mem_lexemes hl)
      (Document.tokenExcess?_eq_none_iff.mp hd l hl) hw
  | some count =>
    rw [checkedTokens_eq_error hd] at h
    cases h

/-- A text is shortened as if there were no limit, unless it has a number with too many digits. -/
theorem checkedCompress_eq_ok_iff {references : Bool} {short : String} :
    checkedCompress text references = .ok short ↔
      (∀ l ∈ (Document.read text).lexemes, l.excess? = none) ∧
        compress text references = .ok short := by
  rw [checkedCompress, Except.bind_eq_ok_iff]
  constructor
  · rintro ⟨_, htokens, h⟩
    cases hd : (Document.read text).tokenExcess? with
    | some count =>
      rw [checkedTokens_eq_error hd] at htokens
      cases htokens
    | none => exact ⟨Document.tokenExcess?_eq_none_iff.mp hd, h⟩
  · rintro ⟨hfit, h⟩
    exact ⟨tokens text, checkedTokens_eq hfit, h⟩

end

end Packed
end LeadSheet
