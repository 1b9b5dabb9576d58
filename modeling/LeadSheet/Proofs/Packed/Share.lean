import LeadSheet.Packed.Share
import LeadSheet.Proofs.Packed.BackReference
import LeadSheet.Proofs.Packed.Base64
import LeadSheet.Proofs.Packed.Token

/-! Short strings of texts: what they are made of, and what text comes back from them. -/
namespace LeadSheet

/-- The fields of a text are its first tokens, and the others are no fields. -/
theorem tokens_eq (text : String) :
    ∃ fields others, tokens text = fieldTokens fields ++ others ∧
      (∀ token ∈ others, token.Sound) ∧
        ∀ token ∈ others, ∀ key value, token ≠ Token.field key value := by
  refine ⟨(Document.read text).fields, _, rfl, ?_, ?_⟩
  · intro token ht
    exact sound_of_mem_tokens (List.mem_append_right _ ht)
  · intro token ht
    obtain ⟨l, -, hl⟩ := List.mem_filterMap.mp ht
    exact Token.ofLexeme?_ne_field hl

/-- The tokens of a text are read back from their bytes. -/
theorem Packed.decode_tokens {text : String} {bytes : Bytes}
    (h : encode (tokens text) = .ok bytes) :
    decode bytes = .ok ((tokens text).map Token.normal) := by
  obtain ⟨fields, others, ht, hs, hf⟩ := tokens_eq text
  rw [ht] at h ⊢
  rw [decode_encode hs hf h, List.map_append]
  congr 2
  rw [fieldTokens, List.map_map]
  rfl

/-- The short string of a text consists of letters, digits, `-` and `_`, and the text written from
the tokens comes back from it, with and without back-references. -/
theorem decompress_compress {text short : String} {references : Bool}
    (h : compress text references = .ok short) :
    (∀ c ∈ short.toList, c.isAlphanum = true ∨ c = '-' ∨ c = '_') ∧
      decompress short references = .ok (Token.write (tokens text)) := by
  obtain ⟨bytes, hb, h⟩ := Except.bind_eq_ok_iff.mp h
  cases h
  constructor
  · intro c hc
    rw [String.toList_ofList] at hc
    exact Packed.alphabet_spec c (Packed.mem_alphabet_of_mem hc)
  · have hw : (do return Token.write (← Packed.decode bytes)) =
        .ok (Token.write (tokens text)) := by
      rw [Packed.decode_tokens hb]
      exact congrArg Except.ok (Token.write_normal _)
    rw [decompress, String.toList_ofList, Packed.readBase64_writeBase64]
    cases references with
    | false => exact hw
    | true =>
      change (Packed.restore (Packed.shorten bytes) >>= fun bytes => do
        return Token.write (← Packed.decode bytes)) = _
      rw [(Packed.restore_shorten bytes).1]
      exact hw

theorem decompress_compress_refrain :
    ∃ short, compress "c4 d4 e4 c4 d4 e4 c4 d4 e4" true = .ok short ∧
      decompress short true = .ok "c4 d4 e4 c4 d4 e4 c4 d4 e4" := by
  have he : Packed.encode (tokens "c4 d4 e4 c4 d4 e4 c4 d4 e4") =
      .ok [76, 77, 16, 60, 61, 62, 60, 61, 62, 60, 61, 62] := by rfl
  have hc : compress "c4 d4 e4 c4 d4 e4 c4 d4 e4" true = .ok (String.ofList (Packed.writeBase64
      (Packed.shorten [76, 77, 16, 60, 61, 62, 60, 61, 62, 60, 61, 62]))) := by
    rw [compress, he]
    rfl
  have ht : Token.write (tokens "c4 d4 e4 c4 d4 e4 c4 d4 e4") = "c4 d4 e4 c4 d4 e4 c4 d4 e4" := by
    rfl
  exact ⟨_, hc, (decompress_compress hc).2.trans (congrArg Except.ok ht)⟩

end LeadSheet
