import LeadSheet.Packed.TokenData
import LeadSheet.Proofs.Packed.Token

/-! Sound tokens as plain data have the texts and the bytes of the tokens. -/
namespace LeadSheet.TokenFields
open Packed

/-! ### Texts -/

private theorem optionalText_map (text : Option String) :
    optionalText ((text.map Datum.text).getD .none) = .ok (text.getD "") := by
  cases text with
  | none => rfl
  | some text =>
    by_cases h : text = ""
    · rw [h]
      rfl
    · have hh : (Datum.text text).holds = true := decide_eq_true h
      rw [Option.map_some, Option.getD_some, optionalText, if_pos hh]
      rfl

private theorem holds_whole (n : Int) : (Datum.whole n).holds = !decide (n = 0) := rfl

/-- A count that is zero may be left out. -/
theorem countOf_map {α : Type} (n : Option Int) (next : Int → Except Failure α) :
    (if ((n.map Datum.whole).getD .none).holds then
      ((n.map Datum.whole).getD .none).toInt >>= next else pure 0 >>= next) =
        next (n.getD 0) := by
  cases n with
  | none => rfl
  | some n =>
    rw [Option.map_some, Option.getD_some, holds_whole]
    by_cases h : n = 0
    · rw [h]
      rfl
    · rw [decide_eq_false h]
      rfl

private theorem shownUnlessNone_map (before : String) (n : Option Int) :
    shownUnlessNone before ((n.map Datum.whole).getD .none) =
      (n.map fun n => before ++ toString n).getD "" := by
  cases n with
  | none => rfl
  | some n => rfl

private theorem timingText_withTiming (f : TokenFields) (t : TokenTiming) :
    (f.withTiming t).timingText = .ok t.text := by
  rw [timingText, withTiming]
  dsimp only
  rw [optionalText_map, shownUnlessNone_map]
  refine (countOf_map t.dots _).trans ?_
  cases hs : t.start with
  | none => rw [TokenTiming.text, hs]; rfl
  | some n => rw [TokenTiming.text, hs]; rfl

private theorem mapM_toText_character (cs : List Char) :
    (cs.map Datum.character).mapM Datum.toText = .ok (cs.map fun c => String.ofList [c]) := by
  induction cs with
  | nil => rfl
  | cons c cs ih =>
    rw [List.map_cons, List.mapM_cons, ih]
    rfl

private theorem join_characters (cs : List Char) :
    String.join (cs.map fun c => String.ofList [c]) = String.ofList cs := by
  rw [← String.toList_inj, String.toList_join, String.toList_ofList, List.flatMap_map]
  induction cs with
  | nil => rfl
  | cons c cs ih => rw [List.flatMap_cons, ih, String.toList_ofList, List.singleton_append]

/-- The data of a token has the text of the token. -/
theorem text_ofToken {token : Token} (h : token.Sound) : (ofToken token).text = .ok token.text := by
  cases token with
  | field | command | chord | opening | closing | bar => rfl
  | note written letter accidental octave timing =>
    have ho : (octave.map fun n => "" ++ toString n).getD "" = (octave.map toString).getD "" := by
      cases octave <;> simp
    have hk : ¬ (ofToken (.note written letter accidental octave timing)).kind = .text "rest" :=
      show ¬ Datum.text "note" = .text "rest" by decide
    change (ofToken (.note written letter accidental octave timing)).noteText = _
    rw [noteText, if_neg hk, ofToken, timingText_withTiming, withTiming]
    dsimp only
    rw [optionalText_map, shownUnlessNone_map, ho]
    rfl
  | rest written timing =>
    have hk : (ofToken (.rest written timing)).kind = .text "rest" := rfl
    change (ofToken (.rest written timing)).noteText = _
    rw [noteText, if_pos hk, ofToken, timingText_withTiming]
    rfl
  | string text =>
    have hp : (Datum.text text).parts = .ok (text.toList.map Datum.character) := rfl
    change (do return Token.stringText (String.join (← (← (Datum.text text).parts).mapM
      Datum.toText))) = _
    rw [hp]
    change (do return Token.stringText (String.join (← (text.toList.map Datum.character).mapM
      Datum.toText))) = _
    rw [mapM_toText_character]
    change Except.ok (Token.stringText (String.join _)) = _
    rw [join_characters, String.ofList_toList]
    rfl
  | other => exact h.elim

private theorem gap_ofToken {before token : Token} (hb : before.Sound) (ht : token.Sound) :
    gap (ofToken before).kind (ofToken token).kind = Token.gap before token := by
  cases before with
  | other => exact hb.elim
  | _ =>
    cases token with
    | other => exact ht.elim
    | _ => rfl

private theorem textsBehind_map_ofToken {before : Token} (hb : before.Sound) {tokens : List Token}
    (hs : ∀ token ∈ tokens, token.Sound) :
    textsBehind (ofToken before).kind (tokens.map ofToken) =
      .ok (Token.textsBehind before tokens) := by
  induction tokens generalizing before with
  | nil => rfl
  | cons token tokens ih =>
    obtain ⟨ht, hs⟩ := List.forall_mem_cons.mp hs
    rw [List.map_cons, textsBehind, text_ofToken ht, ih ht hs, gap_ofToken hb ht]
    rfl

/-- The text written from the data of tokens is the text written from the tokens. -/
theorem write_map_ofToken {tokens : List Token} (hs : ∀ token ∈ tokens, token.Sound) :
    write (tokens.map ofToken) = .ok (Token.write tokens) := by
  cases tokens with
  | nil => rfl
  | cons token tokens =>
    obtain ⟨ht, hs⟩ := List.forall_mem_cons.mp hs
    rw [List.map_cons, write, text_ofToken ht, textsBehind_map_ofToken ht hs]
    rfl

/-! ### Packing -/

private theorem soughtName_map (name : Option String) :
    soughtName ((name.map Datum.text).getD .none) = .ok name := by
  cases name <;> rfl

private theorem toInt_map (n : Option Int) :
    ((n.map Datum.whole).getD .none).toOption.mapM Datum.toInt = .ok n := by
  cases n <;> rfl

private theorem timing_withTiming (f : TokenFields) {t : TokenTiming} (h : t.Sound) :
    (f.withTiming t).timing = .ok t := by
  obtain ⟨multiplier, dots, start⟩ := t
  have hm (next : Option String → Except Failure TokenTiming) :
      (if ((multiplier.map Datum.text).getD .none).holds then
        (some <$> ((multiplier.map Datum.text).getD .none).toText) >>= next
        else pure none >>= next) = next multiplier := by
    cases multiplier with
    | none => rfl
    | some text =>
      obtain ⟨scaling, n, ht⟩ := h.multiplier text rfl
      have hn : text ≠ "" := by
        rw [ht, Ne, ← String.toList_inj, String.toList_ofList]
        exact List.cons_ne_nil _ _
      rw [if_pos (show ((some text).map Datum.text |>.getD .none).holds = true from
        decide_eq_true hn)]
      rfl
  have hd (next : Option Int → Except Failure TokenTiming) :
      (if ((dots.map Datum.whole).getD .none).holds then
        (some <$> ((dots.map Datum.whole).getD .none).toInt) >>= next
        else pure none >>= next) = next dots := by
    cases dots with
    | none => rfl
    | some n =>
      have hn : n ≠ 0 := fun h0 => by
        have := h.dots n rfl
        omega
      have hh : (Datum.whole n).holds = true := by
        rw [holds_whole, decide_eq_false hn]
        rfl
      rw [if_pos (show ((some n).map Datum.whole |>.getD .none).holds = true from hh)]
      rfl
  rw [timing, withTiming]
  dsimp only
  rw [toInt_map]
  exact (hm _).trans (hd _)

/-- The data of a token is packed as the token is. -/
theorem toToken_ofToken {token : Token} (h : token.Sound) :
    ∃ same, (ofToken token).toToken = .ok same ∧ writeToken same = writeToken token := by
  cases token with
  | field | opening | closing | bar | command | string | chord => exact ⟨_, rfl, rfl⟩
  | note written letter accidental octave timing =>
    refine ⟨.note "" letter accidental octave timing, ?_, by simp only [writeToken]⟩
    have ht : (ofToken (.note written letter accidental octave timing)).timing = .ok timing :=
      timing_withTiming _ h.2.2.2
    change (do
      let sign ← soughtName ((accidental.map Datum.text).getD .none)
      let name ← packedText (.text letter)
      let number ← ((octave.map Datum.whole).getD .none).toOption.mapM Datum.toInt
      return Token.note "" name sign number
        (← (ofToken (.note written letter accidental octave timing)).timing)) = _
    rw [ht, soughtName_map, toInt_map]
    rfl
  | rest written timing =>
    refine ⟨.rest "" timing, ?_, by simp only [writeToken]⟩
    have ht : (ofToken (.rest written timing)).timing = .ok timing := timing_withTiming _ h
    change (do return Token.rest "" (← (ofToken (.rest written timing)).timing)) = _
    rw [ht]
    rfl
  | other => exact h.elim

/-- Whether a token is a field. -/
def isField : Token → Bool
  | .field .. => true
  | _ => false

private theorem kind_ofToken {token : Token} (h : token.Sound) :
    decide ((ofToken token).kind = .text "frontmatter") = isField token := by
  cases token with
  | other => exact h.elim
  | _ => rfl

private theorem mapM_toToken_fields {tokens : List Token} (hs : ∀ token ∈ tokens, token.Sound) :
    ((tokens.map ofToken).filter fun f => f.kind = .text "frontmatter").mapM toToken =
      .ok (tokens.filter isField) := by
  induction tokens with
  | nil => rfl
  | cons token tokens ih =>
    obtain ⟨ht, hs'⟩ := List.forall_mem_cons.mp hs
    rw [List.map_cons, List.filter_cons, kind_ofToken ht, List.filter_cons]
    cases token with
    | field key value =>
      rw [isField, if_pos rfl, if_pos rfl, List.mapM_cons, ih hs']
      rfl
    | _ =>
      rw [isField, if_neg (by decide), if_neg (by decide)]
      · exact ih hs'
      · nofun

private theorem fieldsOf_filter (tokens : List Token) :
    fieldsOf (tokens.filter isField) = fieldsOf tokens := by
  induction tokens with
  | nil => rfl
  | cons token tokens ih =>
    cases token with
    | field key value => exact congrArg ((key, value) :: ·) ih
    | _ => exact ih

/-- The bytes of a token among others: fields have none here. -/
theorem writeToken_ofToken {token : Token} (h : token.Sound) :
    (do
      if (ofToken token).kind = .text "frontmatter" then return []
      Packed.writeToken (← (ofToken token).toToken) : Except Failure Bytes) =
      writeToken token := by
  obtain ⟨same, ht, hw⟩ := toToken_ofToken h
  have hk := kind_ofToken h
  by_cases hf : (ofToken token).kind = .text "frontmatter"
  · rw [decide_eq_true hf] at hk
    rw [if_pos hf]
    cases token with
    | field => rfl
    | _ => cases hk
  · rw [if_neg hf, ht, ← hw]
    rfl

/-- The data of tokens has the bytes of the tokens. -/
theorem encode_map_ofToken {tokens : List Token} (hs : ∀ token ∈ tokens, token.Sound) :
    encode (tokens.map ofToken) = Packed.encode tokens := by
  have hw : (tokens.map ofToken).mapM (fun f => do
      if f.kind = .text "frontmatter" then return []
      Packed.writeToken (← f.toToken)) = tokens.mapM writeToken := by
    induction tokens with
    | nil => rfl
    | cons token tokens ih =>
      obtain ⟨ht, hs⟩ := List.forall_mem_cons.mp hs
      rw [List.map_cons, List.mapM_cons, List.mapM_cons, ih hs, writeToken_ofToken ht]
  rw [encode, mapM_toToken_fields hs]
  change (Packed.packed (Packed.writeHead (Packed.fieldsOf (tokens.filter isField))) >>= _) = _
  rw [fieldsOf_filter, hw]
  rfl

end LeadSheet.TokenFields
