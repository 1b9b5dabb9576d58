import LeadSheet.Proofs.Markup.Lexeme

/-!
The tokens that texts and packed data have are the sound ones: their texts are in their shortest
form. What a note or rest was written with may be replaced by this form.
-/
namespace LeadSheet

/-- A timing that can be written and packed. -/
structure TokenTiming.Sound (t : TokenTiming) : Prop where
  multiplier : ∀ text ∈ t.multiplier, ∃ (scaling : Scaling) (n : Nat),
    text = String.ofList (scaling.toChar :: (toString n).toList)
  dots : ∀ n ∈ t.dots, 0 < n
  start : ∀ n ∈ t.start, 0 ≤ n

private theorem TokenTiming.sound_ofWritten (t : WrittenTiming) :
    (TokenTiming.ofWritten t).Sound where
  multiplier := by
    intro text h
    obtain ⟨⟨scaling, n⟩, -, rfl⟩ := Option.map_eq_some_iff.mp h
    exact ⟨scaling, n, rfl⟩
  dots := by
    intro n h
    rw [ofWritten] at h
    by_cases h0 : t.dots = 0
    · rw [if_pos h0] at h
      cases h
    · rw [if_neg h0] at h
      cases h
      omega
  start := by
    intro n h
    obtain ⟨n, -, rfl⟩ := Option.map_eq_some_iff.mp h
    exact Int.natCast_nonneg n

/-- Words that are commands. -/
def Word.isCommand : Word → Bool
  | note _ | rest _ => false
  | _ => true

namespace Token

/-- A token that can be written and packed. -/
def Sound : Token → Prop
  | field _ _ | string _ => True
  | note _ letter accidental octave timing =>
    (∃ l : Letter, letter = String.ofList [l.toChar.toLower]) ∧
      (∀ sign ∈ accidental, ∃ mark : Mark, sign = String.ofList [mark.toChar]) ∧
        (∀ n ∈ octave, 0 ≤ n ∧ n ≤ 9) ∧ timing.Sound
  | rest _ timing => timing.Sound
  | command text => ∃ w : Word, w.isCommand = true ∧ w.Valid ∧ text = commandText w
  | chord text => ∃ name, text = "$" ++ name
  | opening text => text = "\x7b"
  | closing text => text = "\x7d"
  | bar text => text = "|"
  | other _ _ => False

private theorem sound_ofWord (written : String) {w : Word} (hw : w.Valid) :
    (ofWord written w).Sound := by
  cases w with
  | note n =>
    refine ⟨⟨n.letter, rfl⟩, ?_, ?_, TokenTiming.sound_ofWritten _⟩
    · intro sign h
      obtain ⟨mark, -, rfl⟩ := Option.map_eq_some_iff.mp h
      exact ⟨mark, rfl⟩
    · intro octave h
      obtain ⟨n, hn, rfl⟩ := Option.map_eq_some_iff.mp h
      have := hw.1 n hn
      exact ⟨Int.natCast_nonneg n, by rw [Int.ofNat_eq_natCast]; omega⟩
  | rest timing => exact TokenTiming.sound_ofWritten timing
  | keySignature | timeSignature | tempo | measure | track | clef => exact ⟨_, rfl, hw, rfl⟩

theorem sound_ofLexeme? {l : Located} (hl : l.Sound) {token : Token}
    (h : ofLexeme? l = some token) : token.Sound := by
  rw [ofLexeme?] at h
  rw [Located.Sound] at hl
  split at h
  · next word he =>
    rw [he] at hl
    cases h
    exact sound_ofWord _ (Word.valid_of_read? hl)
  · cases h
    exact ⟨_, rfl⟩
  · cases h
    rfl
  · cases h
    rfl
  · cases h
    rfl
  · cases h
    trivial
  · cases h

theorem ofLexeme?_ne_field {l : Located} {token : Token} (h : ofLexeme? l = some token) :
    ∀ key value, token ≠ .field key value := by
  rintro key value rfl
  rw [ofLexeme?] at h
  split at h
  · next word _ => cases word <;> cases h
  all_goals cases h

/-- The token as it is when what it was written with is lost. -/
def normal : Token → Token
  | note _ letter accidental octave timing =>
    note (noteText letter accidental octave timing) letter accidental octave timing
  | rest _ timing => rest (restText timing) timing
  | token => token

@[simp] theorem text_normal (token : Token) : token.normal.text = token.text := by
  cases token <;> rfl

/-- The normal form of a word is what its shortest form is read as. -/
theorem normal_ofWord (written : String) (word : Word) :
    (ofWord written word).normal = ofWord (ofWord written word).text word := by
  cases word <;> rfl

private theorem gap_normal (a b : Token) : gap a.normal b.normal = gap a b := by
  cases a <;> cases b <;> rfl

private theorem textsBehind_normal (before : Token) (tokens : List Token) :
    textsBehind before.normal (tokens.map normal) = textsBehind before tokens := by
  induction tokens generalizing before with
  | nil => rfl
  | cons token tail ih => rw [List.map_cons, textsBehind, textsBehind, gap_normal, text_normal, ih]

/-- What tokens were written with does not change the text that is written from them. -/
theorem write_normal (tokens : List Token) : write (tokens.map normal) = write tokens := by
  cases tokens with
  | nil => rfl
  | cons token tail => rw [List.map_cons, write, write, text_normal, textsBehind_normal]

theorem toList_write_singleton (token : Token) : (write [token]).toList = token.text.toList := by
  rw [write, textsBehind, String.toList_join, List.flatMap_singleton]

theorem toList_write_cons (token next : Token) (tail : List Token) :
    (write (token :: next :: tail)).toList =
      token.text.toList ++ ((gap token next).toList ++ (write (next :: tail)).toList) := by
  rw [write, write, textsBehind]
  simp only [String.toList_join, List.flatMap_cons]

end Token

/-- The tokens of fields. -/
def fieldTokens (fields : List (String × String)) : List Token :=
  fields.map fun (key, value) => .field key value

/-- The tokens of a text are sound. -/
theorem sound_of_mem_tokens {text : String} {token : Token} (h : token ∈ tokens text) :
    token.Sound := by
  rw [tokens, Document.tokens, List.mem_append] at h
  rcases h with h | h
  · obtain ⟨field, -, rfl⟩ := List.mem_map.mp h
    trivial
  · obtain ⟨l, hl, ht⟩ := List.mem_filterMap.mp h
    exact Token.sound_ofLexeme? (Reading.sound_of_mem_lexemes hl) ht

end LeadSheet
