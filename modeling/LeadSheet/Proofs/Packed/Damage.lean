import LeadSheet.Proofs.Packed.Expansion
import LeadSheet.Proofs.Packed.Repacking

/-!
What comes of a short string that may be damaged, with nothing taken for granted in any of the
stages: a text, or a fault of the packed data.
-/
namespace LeadSheet
open Packed

/-- The text of a short string, from data in which anything may be missing. -/
def unpackText (text : String) (references : Bool) : Except Failure String := do
  let bytes ← packed (readBase64 text.toList)
  let bytes ← if references then expand bytes else pure bytes
  let tokens ← unpack bytes
  TokenFields.write (tokens.map .ofToken)

private theorem unpackText_eq (text : String) (references : Bool) :
    unpackText text references = packed (decompress text references) := by
  have hw (bytes : Bytes) : (do TokenFields.write ((← unpack bytes).map .ofToken)) =
      packed (do return Token.write (← decode bytes)) := by
    rw [unpack_eq]
    cases hd : decode bytes with
    | error fault => rfl
    | ok tokens =>
      obtain ⟨fields, others, rfl, -, ho⟩ := of_decode hd
      exact TokenFields.write_map_ofToken (sound_of_unpack ho)
  rw [unpackText, decompress]
  cases readBase64 text.toList with
  | error fault => rfl
  | ok bytes =>
    cases references with
    | false => exact hw bytes
    | true =>
      change (expand bytes >>= fun bytes => _) = packed (restore bytes >>= fun bytes => _)
      rw [expand_eq]
      cases restore bytes with
      | error fault => rfl
      | ok bytes => exact hw bytes

/-- Whatever a short string is, there is a text or a fault of the packed data: no table, no row of
letters and no place in the data is missing where one is asked for. -/
theorem unpackText_text_or_fault (text : String) (references : Bool) :
    unpackText text references = packed (decompress text references) ∧
      ((∃ result, unpackText text references = .ok result) ∨
        ∃ fault, unpackText text references = .error (.packing fault)) := by
  refine ⟨unpackText_eq text references, ?_⟩
  rw [unpackText_eq]
  cases decompress text references with
  | ok result => exact .inl ⟨result, rfl⟩
  | error fault => exact .inr ⟨fault, rfl⟩

end LeadSheet
