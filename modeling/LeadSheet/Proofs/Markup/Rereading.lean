import LeadSheet.Proofs.Markup.Field

/-!
Reading the text that is written from the tokens of a text. The reader comes to the same fields and
lexemes again; only the text that made no sense is gone, and strings stand in double quotes.

Between two lexemes the reader may not know yet that the last word is over: the character behind it
tells. It behaves as if it knew.
-/
namespace LeadSheet.Reading

/-- A lexeme as it is when it is written again. -/
def requoted : Lexeme → Lexeme
  | .quoted text _ _ => .quoted text '"' true
  | lexeme => lexeme

/-- What a lexeme is written with, and what is read from that. Skipped text is not written. -/
def rewritten? (l : Located) : Option (List Char × Lexeme) :=
  (Token.ofLexeme? l).map fun token => (token.text.toList, requoted l.lexeme)

namespace Reader

/-- A reader between two lexemes, with no text that makes no sense before it. -/
def behind (position depth : Nat) (found : List Located) : Reader :=
  ⟨position, depth, .between, [], found⟩

/-- A reader that is behind a lexeme, or will be as soon as it knows that a word is over. -/
def Reaches (r : Reader) (position depth : Nat) (found : List Located) : Prop :=
  r = behind position depth found ∨
    (r.endWord = behind position depth found ∧
      ∃ chars, r.mode = .word chars ∨ r.mode = .chord chars)

variable {position depth : Nat} {found : List Located}

private theorem takeRun_position (r : Reader) (run : List Char) :
    (r.takeRun run).position = r.position := by
  rw [takeRun]
  split
  · rfl
  · rw [emit, flush]
    split <;> rfl

theorem endWord_position (r : Reader) : r.endWord.position = r.position := by
  rw [endWord]
  split
  · exact takeRun_position r _
  · dsimp only
    split
    · rw [emit, flush]
      split <;> rfl
    · exact takeRun_position _ _
  · rfl

/-- A character that ends words finds the reader behind the last lexeme. -/
theorem Reaches.feed_eq {r : Reader} (h : r.Reaches position depth found) {c : Char}
    (hc : endsWord c = true) : r.feed c = (behind position depth found).feed c := by
  rcases h with rfl | ⟨he, chars, hm⟩
  · rfl
  · have hp := endWord_position r
    rw [he] at hp
    have ht : (behind position depth found).take c = (behind position depth found).delimit c := by
      rw [take]
      exact if_pos hc
    have hr : r.take c = r.endWord.delimit c := by
      rw [take.eq_def]
      rcases hm with hm | hm
      · rw [hm]
        exact if_pos hc
      · rw [hm]
        exact if_pos hc
    rw [feed, feed, hr, he, ht, ← hp]

theorem Reaches.finish_eq {r : Reader} (h : r.Reaches position depth found) :
    r.finish = behind position depth found := by
  rcases h with rfl | ⟨he, chars, hm⟩
  · rfl
  · have hf : r.finish = r.endWord.flush r.position := by
      rw [finish.eq_def]
      rcases hm with hm | hm
      · rw [hm]
      · rw [hm]
    rw [hf, he]
    rfl

theorem feed_blank {c : Char} (hc : Text.isBlank c = true) :
    (behind position depth found).feed c = behind (position + 1) depth found := by
  have he : endsWord c = true := by rw [endsWord, hc, Bool.true_or]
  have hd : (behind position depth found).delimit c = behind position depth found := by
    rw [delimit.eq_def]
    split
    · exact absurd hc (by decide)
    · exact absurd hc (by decide)
    · exact absurd hc (by decide)
    · exact absurd hc (by decide)
    · exact absurd hc (by decide)
    · exact absurd hc (by decide)
    · exact absurd hc (by decide)
    · rfl
  have ht : (behind position depth found).take c = (behind position depth found).delimit c :=
    if_pos he
  rw [feed, ht, hd]
  rfl

/-- Inside a block, a closing brace closes it. -/
theorem feed_closing (position depth : Nat) (found : List Located) :
    (behind position (depth + 1) found).feed '\x7d' =
      behind (position + 1) depth (⟨position, ['\x7d'], .closing⟩ :: found) := rfl

/-- Characters of a word or chord that has begun are kept. -/
theorem foldl_run {mode : List Char → Mode} (hm : mode = .word ∨ mode = .chord)
    (chars cs : List Char) (h : ∀ c ∈ cs, endsWord c = false) :
    cs.foldl feed ⟨position, depth, mode chars, [], found⟩ =
      ⟨position + cs.length, depth, mode (cs.reverse ++ chars), [], found⟩ := by
  induction cs generalizing position chars with
  | nil => rfl
  | cons c cs ih =>
    have hn : ¬ endsWord c = true := by
      rw [h c (List.mem_cons_self ..)]
      decide
    have hc : feed ⟨position, depth, mode chars, [], found⟩ c =
        ⟨position + 1, depth, mode (c :: chars), [], found⟩ := by
      rcases hm with rfl | rfl
      · rw [feed, take]
        dsimp only
        rw [if_neg hn]
      · rw [feed, take]
        dsimp only
        rw [if_neg hn]
    rw [List.foldl_cons, hc, ih _ fun d hd => h d (List.mem_cons_of_mem _ hd), List.length_cons,
      List.reverse_cons, List.append_assoc, Nat.add_right_comm, Nat.add_assoc]
    rfl

theorem reaches_word {cs : List Char} {word : Word} (hn : cs ≠ [])
    (h : ∀ c ∈ cs, endsWord c = false) (hw : Word.read? cs = some word) :
    (cs.foldl feed (behind position depth found)).Reaches (position + cs.length) depth
      (⟨position, cs, .word word⟩ :: found) := by
  obtain ⟨c, cs, rfl⟩ := List.exists_cons_of_ne_nil hn
  have hc : (behind position depth found).feed c =
      ⟨position + 1, depth, .word [c], [], found⟩ := by
    rw [feed, take, behind]
    dsimp only
    rw [if_neg (by rw [h c (List.mem_cons_self ..)]; decide)]
  have hl : lastWord (c :: cs) = ([], some (c :: cs, word)) := by rw [lastWord, hw]
  rw [List.foldl_cons, hc, foldl_run (.inl rfl) _ _ fun d hd => h d (List.mem_cons_of_mem _ hd)]
  refine .inr ⟨?_, _, .inl rfl⟩
  rw [endWord]
  dsimp only
  rw [List.reverse_append, List.reverse_reverse, List.reverse_singleton, List.singleton_append,
    takeRun, hl]
  simp [skip, emit, flush, behind, Nat.add_assoc, Nat.add_comm 1]

private theorem endsWord_of_isNameChar {c : Char} (h : isNameChar c = true) :
    endsWord c = false := by
  have hv : 0x2F < c.toNat ∧ c.toNat < 0x7B := by
    rw [isNameChar, Bool.or_eq_true, decide_eq_true_eq] at h
    rcases h with h | rfl
    · change (c.isUpper || c.isLower || c.isDigit) = true at h
      rw [Bool.or_eq_true, Bool.or_eq_true] at h
      rcases h with (h | h) | h
      · have hb : 65 ≤ c.toNat ∧ c.toNat ≤ 90 := of_decide_eq_true h
        omega
      · obtain ⟨hl, hu⟩ := (Bool.and_eq_true ..).mp h
        have hl : 97 ≤ c.toNat := of_decide_eq_true hl
        have hu : c.toNat ≤ 122 := of_decide_eq_true hu
        omega
      · obtain ⟨hl, hu⟩ := (Bool.and_eq_true ..).mp h
        have hl : 48 ≤ c.toNat := of_decide_eq_true hl
        have hu : c.toNat ≤ 57 := of_decide_eq_true hu
        omega
    · decide
  have hn : ∀ d ∈ "\x7b\x7d|#$\"'".toList, ¬ (0x2F < d.toNat ∧ d.toNat < 0x7B) :=
    List.all_iff_forall_prop.mp (by decide)
  rw [endsWord, Text.isBlank_of_visible (by omega) (by omega), Bool.false_or]
  apply Bool.eq_false_iff.mpr
  intro he
  rw [List.contains_iff_mem] at he
  exact hn c he hv

private theorem reaches_chord {name : String} (hn : name.toList ≠ [])
    (h : name.toList.all isNameChar = true) :
    (('$' :: name.toList).foldl feed (behind position depth found)).Reaches
      (position + ('$' :: name.toList).length) depth
      (⟨position, '$' :: name.toList, .chord name⟩ :: found) := by
  have hc : (behind position depth found).feed '$' =
      ⟨position + 1, depth, .chord [], [], found⟩ := rfl
  have he (c : Char) (hc : c ∈ name.toList) : endsWord c = false :=
    endsWord_of_isNameChar (List.all_eq_true.mp h c hc)
  rw [List.foldl_cons, hc, foldl_run (.inr rfl) _ _ he]
  refine .inr ⟨?_, _, .inr rfl⟩
  rw [endWord]
  dsimp only
  rw [List.append_nil, List.reverse_reverse, if_pos]
  · simp [emit, flush, behind, Nat.add_assoc, Nat.add_comm 1]
  · rw [Bool.and_eq_true, decide_eq_true_eq]
    exact ⟨hn, h⟩

/-- Inside a string, an escaped character stands for itself. -/
theorem foldl_escape (written chars : List Char) (c : Char) :
    (Token.escape c).foldl feed ⟨position, depth, .quoted '"' written chars false, [], found⟩ =
      ⟨position + (Token.escape c).length, depth,
        .quoted '"' ((Token.escape c).reverse ++ written) (c :: chars) false, [], found⟩ := by
  rw [Token.escape]
  by_cases hn : c = '\n'
  · rw [if_pos hn, hn]
    rfl
  · rw [if_neg hn]
    by_cases hb : c = '\\' ∨ c = '"'
    · rw [if_pos (by simpa using hb)]
      rcases hb with rfl | rfl <;> rfl
    · rw [if_neg (by simpa using hb)]
      rw [not_or] at hb
      rw [List.foldl_cons, List.foldl_nil, feed, take]
      dsimp only
      rw [quote]
      dsimp only
      rw [if_neg (by decide), if_neg hb.2, if_neg hb.1]
      rfl

private theorem foldl_escaped (written chars cs : List Char) :
    (cs.flatMap Token.escape).foldl feed
        ⟨position, depth, .quoted '"' written chars false, [], found⟩ =
      ⟨position + (cs.flatMap Token.escape).length, depth,
        .quoted '"' ((cs.flatMap Token.escape).reverse ++ written) (cs.reverse ++ chars) false, [],
        found⟩ := by
  induction cs generalizing position written chars with
  | nil => rfl
  | cons c cs ih =>
    rw [List.flatMap_cons, List.foldl_append, foldl_escape, ih, List.length_append,
      List.reverse_append, List.reverse_cons, List.append_assoc, List.append_assoc, Nat.add_assoc]
    rfl

private theorem reaches_string (text : String) :
    ((Token.stringText text).toList.foldl feed (behind position depth found)).Reaches
      (position + (Token.stringText text).toList.length) depth
      (⟨position, (Token.stringText text).toList, .quoted text '"' true⟩ :: found) := by
  have hc : (behind position depth found).feed '"' =
      ⟨position + 1, depth, .quoted '"' ['"'] [] false, [], found⟩ := rfl
  have ht : (Token.stringText text).toList =
      '"' :: (text.toList.flatMap Token.escape ++ ['"']) := String.toList_ofList
  rw [ht, List.foldl_cons, hc, List.foldl_append, foldl_escaped, List.append_nil, List.foldl_cons,
    List.foldl_nil, feed, take]
  dsimp only
  rw [quote]
  dsimp only
  rw [if_neg (by decide), if_pos rfl, List.reverse_reverse, String.ofList_toList]
  refine .inl ?_
  simp [emit, flush, behind, Nat.add_assoc, Nat.add_comm 1]

/-- The text of a token leads the reader over the lexeme of the token. -/
theorem reaches_token {l : Located} (hl : l.Sound) {token : Token}
    (ht : Token.ofLexeme? l = some token) {inside : Nat}
    (hd : l.lexeme.depthBehind? depth = some inside) :
    (token.text.toList.foldl feed (behind position depth found)).Reaches
      (position + token.text.toList.length) inside
      (⟨position, token.text.toList, requoted l.lexeme⟩ :: found) := by
  obtain ⟨start, written, lexeme⟩ := l
  cases lexeme with
  | word word =>
    cases ht
    cases hd
    have hw := Word.valid_of_read? hl
    rw [Word.text_ofWord]
    exact reaches_word (Word.shortest_ne_nil word hw) (Word.endsWord_shortest hw)
      (Word.read?_shortest hw)
  | chord name =>
    cases ht
    cases hd
    have ht : (Token.chord ("$" ++ name)).text.toList = '$' :: name.toList := String.toList_append
    rw [ht]
    exact reaches_chord hl.2.1 hl.2.2
  | opening =>
    cases ht
    cases hd
    exact .inl rfl
  | closing =>
    cases ht
    rw [Lexeme.depthBehind?] at hd
    by_cases h0 : depth = 0
    · rw [if_pos h0] at hd
      cases hd
    · rw [if_neg h0] at hd
      cases hd
      obtain ⟨inside, rfl⟩ := Nat.exists_eq_succ_of_ne_zero h0
      exact .inl (feed_closing position inside found)
  | bar =>
    cases ht
    cases hd
    exact .inl rfl
  | quoted text q closed =>
    cases ht
    cases hd
    exact reaches_string text
  | skipped => cases ht

/-- Behind an opening brace the reader knows where it is. -/
theorem foldl_opening :
    (Token.opening "\x7b").text.toList.foldl feed (behind position depth found) =
      behind (position + 1) (depth + 1) (⟨position, ['\x7b'], .opening⟩ :: found) := rfl

end Reader

private theorem gap_spec {token next : Token} (h : ∀ key value, token ≠ .field key value) :
    Token.gap token next = " " ∨ (Token.gap token next = "" ∧
      ((∃ text, token = .opening text) ∨ ∃ text, next = .closing text)) := by
  cases token with
  | opening text => exact .inr ⟨rfl, .inl ⟨text, rfl⟩⟩
  | field key value => exact absurd rfl (h key value)
  | _ =>
    cases next with
    | closing text => exact .inr ⟨rfl, .inr ⟨text, rfl⟩⟩
    | _ => exact .inl rfl

private theorem eq_opening_of_ofLexeme? {l : Located} {text : String}
    (h : Token.ofLexeme? l = some (.opening text)) : text = "\x7b" ∧ l.lexeme = .opening := by
  obtain ⟨start, written, lexeme⟩ := l
  cases lexeme with
  | word word => cases word <;> cases h
  | opening =>
    cases h
    exact ⟨rfl, rfl⟩
  | _ => cases h

/-- Only skipped text has no token. -/
theorem eq_skipped_of_ofLexeme? {l : Located} (h : Token.ofLexeme? l = none) :
    l.lexeme = .skipped := by
  obtain ⟨start, written, lexeme⟩ := l
  cases lexeme with
  | skipped => rfl
  | _ => cases h

private theorem depthBehind?_of_ofLexeme? {l : Located} (h : Token.ofLexeme? l = none)
    (depth : Nat) :
    l.lexeme.depthBehind? depth = some depth := by
  rw [eq_skipped_of_ofLexeme? h]
  rfl

namespace Reader

/-- What stands between two tokens brings the reader behind the lexeme of the first one. -/
theorem foldl_gap {r : Reader} {position depth : Nat} {found : List Located}
    (hr : r.Reaches position depth found) {token next : Token} (tail : List Token)
    (hf : ∀ key value, token ≠ .field key value)
    (ho : ∀ text, token = .opening text → r = behind position depth found) (hn : next.Sound) :
    ∃ stop, ((Token.gap token next).toList ++ (Token.write (next :: tail)).toList).foldl feed r =
      (Token.write (next :: tail)).toList.foldl feed (behind stop depth found) := by
  rcases @gap_spec token next hf with hg | ⟨hg, ⟨text, ht⟩ | ⟨text, rfl⟩⟩
  · refine ⟨position + 1, ?_⟩
    rw [hg, List.foldl_append]
    change List.foldl feed (feed r ' ') _ = _
    rw [hr.feed_eq (by decide), feed_blank (by decide)]
  · refine ⟨position, ?_⟩
    rw [hg, ho text ht]
    rfl
  · refine ⟨position, ?_⟩
    cases hn
    have hw : ∃ cs, (Token.write (.closing "\x7d" :: tail)).toList = '\x7d' :: cs := by
      cases tail with
      | nil => exact ⟨_, Token.toList_write_singleton _⟩
      | cons token tail => exact ⟨_, Token.toList_write_cons _ token tail⟩
    obtain ⟨cs, hw⟩ := hw
    rw [hg, hw]
    change List.foldl feed (feed r '\x7d') cs = List.foldl feed (feed _ '\x7d') cs
    rw [hr.feed_eq (by decide)]

/-- The text of a token and what stands behind it bring the reader to the next token. -/
theorem finish_write_cons {l : Located} (hl : l.Sound) {token : Token}
    (ht : Token.ofLexeme? l = some token) {depth inside : Nat}
    (hd : l.lexeme.depthBehind? depth = some inside) {tail : List Token}
    (hs : ∀ next ∈ tail, next.Sound) (position : Nat) (found : List Located) :
    ∃ stop, ((Token.write (token :: tail)).toList.foldl feed
        (behind position depth found)).finish =
      ((Token.write tail).toList.foldl feed (behind stop inside
        (⟨position, token.text.toList, requoted l.lexeme⟩ :: found))).finish := by
  have hr : (token.text.toList.foldl feed (behind position depth found)).Reaches
      (position + token.text.toList.length) inside
      (⟨position, token.text.toList, requoted l.lexeme⟩ :: found) := reaches_token hl ht hd
  cases tail with
  | nil =>
    refine ⟨position + token.text.toList.length, ?_⟩
    rw [Token.toList_write_singleton, hr.finish_eq]
    rfl
  | cons next tail =>
    have ho (text : String) (he : token = .opening text) :
        token.text.toList.foldl feed (behind position depth found) =
          behind (position + token.text.toList.length) inside
            (⟨position, token.text.toList, requoted l.lexeme⟩ :: found) := by
      rw [he] at ht
      obtain ⟨rfl, hlex⟩ := eq_opening_of_ofLexeme? ht
      rw [hlex] at hd ⊢
      cases hd
      rw [he, foldl_opening]
      rfl
    obtain ⟨stop, hg⟩ := foldl_gap hr tail (Token.ofLexeme?_ne_field ht) ho
      (hs next (List.mem_cons_self ..))
    refine ⟨stop, ?_⟩
    rw [Token.toList_write_cons, List.foldl_append, hg]

/-- From the text that is written for lexemes the reader finds them again. -/
theorem found_write {ls : List Located} (hs : ∀ l ∈ ls, l.Sound) {depth : Nat}
    (hd : (depthBehind? depth (ls.map Located.lexeme)).isSome = true) (position : Nat)
    (found : List Located) :
    ∃ news : List Located, ((Token.write (ls.filterMap Token.ofLexeme?)).toList.foldl feed
        (behind position depth found)).finish.found = news.reverse ++ found ∧
      news.map (fun l => (l.written, l.lexeme)) = ls.filterMap rewritten? := by
  induction ls generalizing position depth found with
  | nil => exact ⟨[], rfl, rfl⟩
  | cons l ls ih =>
    have hl := hs l (List.mem_cons_self ..)
    have hls := fun k hk => hs k (List.mem_cons_of_mem l hk)
    rw [List.map_cons, depthBehind?, List.foldlM_cons] at hd
    obtain ⟨inside, hi⟩ : ∃ inside, l.lexeme.depthBehind? depth = some inside := by
      cases hi : l.lexeme.depthBehind? depth with
      | none => rw [hi] at hd; cases hd
      | some inside => exact ⟨inside, rfl⟩
    rw [hi] at hd
    cases ht : Token.ofLexeme? l with
    | none =>
      have hr : rewritten? l = none := by rw [rewritten?, ht, Option.map_none]
      rw [List.filterMap_cons_none ht, List.filterMap_cons_none hr]
      rw [depthBehind?_of_ofLexeme? ht] at hi
      cases hi
      exact ih hls hd position found
    | some token =>
      have hr : rewritten? l = some (token.text.toList, requoted l.lexeme) := by
        rw [rewritten?, ht, Option.map_some]
      have htail : ∀ next ∈ ls.filterMap Token.ofLexeme?, next.Sound := fun next hn => by
        obtain ⟨k, hk, hkn⟩ := List.mem_filterMap.mp hn
        exact Token.sound_ofLexeme? (hls k hk) hkn
      obtain ⟨stop, he⟩ := finish_write_cons hl ht hi htail position found
      obtain ⟨news, hf, hn⟩ := ih hls hd stop
        (⟨position, token.text.toList, requoted l.lexeme⟩ :: found)
      rw [List.filterMap_cons_some ht, List.filterMap_cons_some hr, he, hf]
      refine ⟨⟨position, token.text.toList, requoted l.lexeme⟩ :: news, ?_, ?_⟩
      · rw [List.reverse_cons, List.append_assoc, List.singleton_append]
      · rw [List.map_cons, hn]

end Reader

private theorem text_ne_nil {l : Located} (hl : l.Sound) {token : Token}
    (ht : Token.ofLexeme? l = some token) : token.text.toList ≠ [] := by
  obtain ⟨start, written, lexeme⟩ := l
  cases lexeme with
  | word word =>
    cases ht
    rw [Word.text_ofWord]
    exact Word.shortest_ne_nil word (Word.valid_of_read? hl)
  | chord name =>
    cases ht
    rw [Token.text, String.toList_append]
    exact List.cons_ne_nil _ _
  | opening | closing | bar =>
    cases ht
    exact List.cons_ne_nil _ _
  | quoted text q closed =>
    cases ht
    rw [Token.text, Token.stringText, String.toList_ofList]
    exact List.cons_ne_nil _ _
  | skipped => cases ht

/-- No token starts with a blank or with the sign of a field. -/
theorem head_text {l : Located} (hl : l.Sound) {token : Token}
    (ht : Token.ofLexeme? l = some token) {c : Char} (hc : c ∈ token.text.toList.head?) :
    Text.isBlank c = false ∧ c ≠ '#' := by
  obtain ⟨start, written, lexeme⟩ := l
  cases lexeme with
  | word word =>
    cases ht
    rw [Word.text_ofWord] at hc
    have he := Word.endsWord_shortest (Word.valid_of_read? hl) c (List.mem_of_mem_head? hc)
    rw [endsWord, Bool.or_eq_false_iff] at he
    refine ⟨he.1, ?_⟩
    rintro rfl
    exact absurd he.2 (by decide)
  | chord name =>
    cases ht
    rw [Token.text, String.toList_append] at hc
    cases hc
    decide
  | opening | closing | bar =>
    cases ht
    cases hc
    decide
  | quoted text q closed =>
    cases ht
    rw [Token.text, Token.stringText, String.toList_ofList] at hc
    cases hc
    decide
  | skipped => cases ht

private theorem head_write {ls : List Located} (hs : ∀ l ∈ ls, l.Sound) {c : Char}
    (hc : c ∈ (Token.write (ls.filterMap Token.ofLexeme?)).toList.head?) :
    Text.isBlank c = false ∧ c ≠ '#' := by
  cases ht : ls.filterMap Token.ofLexeme? with
  | nil => rw [ht] at hc; cases hc
  | cons token tail =>
    obtain ⟨l, hl, hlt⟩ := List.mem_filterMap.mp (ht ▸ List.mem_cons_self .. : token ∈ _)
    refine head_text (hs l hl) hlt ?_
    have hn := text_ne_nil (hs l hl) hlt
    obtain ⟨d, ds, hd⟩ := List.exists_cons_of_ne_nil hn
    rw [ht] at hc
    cases tail with
    | nil => rwa [Token.toList_write_singleton] at hc
    | cons next tail =>
      rw [Token.toList_write_cons, hd] at hc
      rw [hd]
      exact hc

/-- The first token closes no block. -/
theorem head_ne_closing {ls : List Located}
    (hd : (depthBehind? 0 (ls.map Located.lexeme)).isSome = true) (text : String) :
    (ls.filterMap Token.ofLexeme?).head? ≠ some (.closing text) := by
  induction ls with
  | nil => exact fun h => by cases h
  | cons l ls ih =>
    rw [List.map_cons, depthBehind?, List.foldlM_cons] at hd
    cases ht : Token.ofLexeme? l with
    | none =>
      rw [depthBehind?_of_ofLexeme? ht] at hd
      rw [List.filterMap_cons_none ht]
      exact ih hd
    | some token =>
      rw [List.filterMap_cons_some ht]
      rintro ⟨⟩
      obtain ⟨start, written, lexeme⟩ := l
      cases lexeme with
      | word word => cases word <;> cases ht
      | closing => cases hd
      | _ => cases ht

/-- The text written for fields and lexemes has these fields and lexemes again. -/
theorem read_write_of_sound {fs : List (String × String)}
    (hf : ∀ field ∈ fs, IsField field.1.toList field.2.toList) {ls : List Located}
    (hs : ∀ l ∈ ls, l.Sound)
    (hd : (depthBehind? 0 (ls.map Located.lexeme)).isSome = true) {text : String}
    (ht : text = Token.write (fieldTokens fs ++ ls.filterMap Token.ofLexeme?)) :
    (Document.read text).fields = fs ∧
      (Document.read text).lexemes.map (fun l => (l.written, l.lexeme)) =
        ls.filterMap rewritten? := by
  have hr : fields text.toList = (fs, (Token.write (ls.filterMap Token.ofLexeme?)).toList) := by
    rw [ht]
    exact fieldsUpTo_write hf (fun c => head_write hs) (head_ne_closing hd) (Nat.le_refl _)
  obtain ⟨news, hn, hm⟩ := Reader.found_write hs hd
    (text.toList.length - (Token.write (ls.filterMap Token.ofLexeme?)).toList.length) []
  rw [Document.read, hr]
  refine ⟨rfl, ?_⟩
  change (List.reverse (List.foldl Reader.feed (Reader.behind _ 0 []) _).finish.found).map _ = _
  rw [hn, List.append_nil, List.reverse_reverse, hm]

/-- The text written from the tokens of a text has the same fields and lexemes again. -/
theorem read_write (text : String) :
    (Document.read (Token.write (tokens text))).fields = (Document.read text).fields ∧
      (Document.read (Token.write (tokens text))).lexemes.map (fun l => (l.written, l.lexeme)) =
        (Document.read text).lexemes.filterMap rewritten? :=
  read_write_of_sound (fun _ => isField_of_mem_fields) (fun _ => sound_of_mem_lexemes)
    (depthBehind?_lexemes _ _) rfl

/-- What a lexeme is written with again has its token in normal form, wherever it stands. -/
theorem ofLexeme?_rewritten (l : Located) :
    ((rewritten? l).bind fun (written, lexeme) => Token.ofLexeme? ⟨0, written, lexeme⟩) =
      (Token.ofLexeme? l).map Token.normal := by
  obtain ⟨start, written, lexeme⟩ := l
  cases lexeme with
  | word word =>
    change some (Token.ofWord (String.ofList (Token.ofWord _ word).text.toList) word) = some _
    rw [String.ofList_toList, Token.normal_ofWord]
  | chord | opening | closing | bar | quoted | skipped => rfl

end LeadSheet.Reading

namespace LeadSheet

/-- The text written from the tokens of a text has these tokens again, each note and rest in its
normal form. Writing a text a second time changes nothing. -/
theorem tokens_write_tokens (text : String) :
    tokens (Token.write (tokens text)) = (tokens text).map Token.normal ∧
      Token.write (tokens (Token.write (tokens text))) = Token.write (tokens text) := by
  have ht : tokens (Token.write (tokens text)) = (tokens text).map Token.normal := by
    obtain ⟨hfields, hlexemes⟩ := Reading.read_write text
    -- a token does not depend on the place of its lexeme
    have hothers :=
      calc (Document.read (Token.write (tokens text))).lexemes.filterMap Token.ofLexeme?
          = ((Document.read (Token.write (tokens text))).lexemes.map
              fun l => (l.written, l.lexeme)).filterMap
                fun (written, lexeme) => Token.ofLexeme? ⟨0, written, lexeme⟩ := by
            rw [List.filterMap_map]
            rfl
        _ = (Document.read text).lexemes.filterMap fun l =>
              (Reading.rewritten? l).bind fun (written, lexeme) =>
                Token.ofLexeme? ⟨0, written, lexeme⟩ := by
            rw [hlexemes, List.filterMap_filterMap]
        _ = ((Document.read text).lexemes.filterMap Token.ofLexeme?).map Token.normal := by
            rw [funext Reading.ofLexeme?_rewritten, List.map_filterMap]
    have hkept : (fieldTokens (Document.read text).fields).map Token.normal =
        fieldTokens (Document.read text).fields := List.map_map
    change fieldTokens (Document.read (Token.write (tokens text))).fields ++ _ = _
    rw [hothers, hfields, ← hkept, ← List.map_append]
    rfl
  exact ⟨ht, by rw [ht, Token.write_normal]⟩

/-- Comments and blanks are dropped, numbers and letters have one form. -/
example : Token.write (tokens "# key: v \nC+5*02 \x7d\x7b d | 'E' \x7d # end") =
    "# key: v\nc+5*2 \x7bd | \"E\"\x7d" := by rfl

end LeadSheet
