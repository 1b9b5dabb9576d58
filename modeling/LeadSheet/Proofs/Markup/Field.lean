import LeadSheet.Proofs.Markup.Token

/-!
Fields. The key of a field is a name, and its value is one line without blanks around it; such a
field is read from the line that is written for it.
-/
namespace LeadSheet.Reading

/-- A key and a value that a line can hold. -/
structure IsField (key value : List Char) : Prop where
  start : ∃ c ∈ key.head?, isKeyStart c = true
  name : ∀ c ∈ key, isNameChar c = true
  line : '\n' ∉ value
  trimmed : Text.trim value = value

/-- The characters of a field. -/
def fieldChars (key value : List Char) : List Char :=
  '#' :: ' ' :: (key ++ ':' :: ' ' :: value)

private theorem isField_of_field? {cs rest : List Char} {key value : String}
    (h : field? cs = some (key, value, rest)) : IsField key.toList value.toList := by
  rw [field?.eq_def] at h
  split at h
  · next cs =>
    dsimp only at h
    split at h
    · next tail hd =>
      split at h
      · next hk =>
        cases h
        rw [String.toList_ofList, String.toList_ofList]
        refine ⟨?_, ?_, ?_, Text.trim_trim _⟩
        · cases hs : ((cs.dropWhile isGap).span isNameChar).1.head? with
          | none => rw [hs] at hk; cases hk
          | some c => rw [hs] at hk; exact ⟨c, rfl, hk⟩
        · intro c hc
          rw [List.span_eq_takeWhile_dropWhile] at hc
          exact List.mem_takeWhile_imp hc
        · intro hc
          have hm := Text.mem_of_mem_trim hc
          rw [List.span_eq_takeWhile_dropWhile] at hm
          exact absurd (List.mem_takeWhile_imp hm) (by decide)
      · cases h
    · cases h
  · cases h

private theorem isGap_eq_false {p : Char → Bool} {c : Char} (hs : p ' ' ≠ p c) (ht : p '\t' ≠ p c) :
    isGap c = false := by
  rw [isGap, Bool.or_eq_false_iff, decide_eq_false_iff_not, decide_eq_false_iff_not]
  constructor
  · rintro rfl
    exact hs rfl
  · rintro rfl
    exact ht rfl

/-- A field is read from its line. -/
theorem field?_fieldChars {key value : List Char} (h : IsField key value) {rest : List Char}
    (hr : ∀ c ∈ rest.head?, c = '\n') :
    field? (fieldChars key value ++ rest) =
      some (String.ofList key, String.ofList value, rest) := by
  have hkey : (' ' :: (key ++ ':' :: ' ' :: (value ++ rest))).dropWhile isGap =
      key ++ ':' :: ' ' :: (value ++ rest) := by
    obtain ⟨c, hc, hs⟩ := h.start
    rw [List.dropWhile_cons_of_pos (by decide), Text.dropWhile_of_head_not]
    intro d hd
    rw [List.head?_append, Option.mem_def.mp hc] at hd
    cases hd
    exact isGap_eq_false (p := isKeyStart) (by rw [hs]; decide) (by rw [hs]; decide)
  have hspan : (key ++ ':' :: ' ' :: (value ++ rest)).span isNameChar =
      (key, ':' :: ' ' :: (value ++ rest)) :=
    Text.span_append h.name fun c hc => by cases hc; decide
  have hcolon : (':' :: ' ' :: (value ++ rest)).dropWhile isGap = ':' :: ' ' :: (value ++ rest) :=
    List.dropWhile_cons_of_neg (by decide)
  have hvalue : (' ' :: (value ++ rest)).dropWhile isGap = value ++ rest := by
    rw [List.dropWhile_cons_of_pos (by decide), Text.dropWhile_of_head_not]
    intro c hc
    cases hv : value with
    | nil =>
      rw [hv, List.nil_append] at hc
      rw [hr c hc]
      decide
    | cons d ds =>
      rw [hv] at hc
      cases hc
      have hd : c ∈ (Text.trim value).head? := by
        rw [h.trimmed, hv]
        rfl
      have hb := Text.isBlank_of_mem_head?_trim hd
      exact isGap_eq_false (p := Text.isBlank) (by rw [hb]; decide) (by rw [hb]; decide)
  have hline : (value ++ rest).span (· ≠ '\n') = (value, rest) := by
    refine Text.span_append ?_ ?_
    · intro c hc
      rw [decide_eq_true_eq]
      rintro rfl
      exact h.line hc
    · intro c hc
      rw [hr c hc]
      decide
  have hstart : (key.head?.map isKeyStart).getD false = true := by
    obtain ⟨c, hc, hs⟩ := h.start
    rw [Option.mem_def.mp hc]
    exact hs
  have hchars : fieldChars key value ++ rest =
      '#' :: ' ' :: (key ++ ':' :: ' ' :: (value ++ rest)) := by
    rw [fieldChars, List.cons_append, List.cons_append, List.append_assoc, List.cons_append,
      List.cons_append]
  rw [hchars, field?, hkey, hspan]
  dsimp only
  rw [hcolon]
  refine (if_pos hstart).trans ?_
  rw [hvalue, hline, h.trimmed]

private theorem isField_of_mem_fieldsUpTo {fuel : Nat} {cs : List Char} {field : String × String}
    (h : field ∈ (fieldsUpTo fuel cs).1) : IsField field.1.toList field.2.toList := by
  induction fuel generalizing cs with
  | zero => cases h
  | succ fuel ih =>
    rw [fieldsUpTo.eq_def] at h
    dsimp only at h
    split at h
    · next key value rest hf =>
      rcases List.mem_cons.mp h with rfl | h
      · exact isField_of_field? hf
      · exact ih h
    · split at h
      · cases h
      · split at h
        · exact ih h
        · cases h

/-- What stands behind a field: nothing, or a new line with the other tokens. -/
def linesBehind : List Token → List Char
  | [] => []
  | tokens => '\n' :: (Token.write tokens).toList

private theorem toList_write_field (key value : String) {tokens : List Token}
    (h : ∀ text, tokens.head? ≠ some (.closing text)) :
    (Token.write (.field key value :: tokens)).toList =
      fieldChars key.toList value.toList ++ linesBehind tokens := by
  have ht : (Token.field key value).text.toList = fieldChars key.toList value.toList := by
    rw [Token.text, fieldChars]
    simp only [String.toList_append, List.append_assoc]
    rfl
  cases tokens with
  | nil => rw [Token.toList_write_singleton, ht, linesBehind, List.append_nil]
  | cons token tail =>
    have hg : Token.gap (.field key value) token = "\n" := by
      cases token with
      | closing text => exact absurd rfl (h text)
      | _ => rfl
    rw [Token.toList_write_cons, ht, hg]
    rfl

theorem field?_eq_none {cs : List Char} (h : ∀ c ∈ cs.head?, c ≠ '#') : field? cs = none := by
  rw [field?.eq_def]
  split
  · exact absurd rfl (h '#' rfl)
  · rfl

private theorem fieldsUpTo_of_field {cs rest : List Char} {key value : String}
    (h : field? cs = some (key, value, rest)) (fuel : Nat) :
    fieldsUpTo (fuel + 1) cs =
      ((key, value) :: (fieldsUpTo fuel rest).1, (fieldsUpTo fuel rest).2) := by
  rw [fieldsUpTo.eq_def]
  dsimp only
  rw [h]

private theorem fieldsUpTo_of_head {fuel : Nat} {cs : List Char} (hl : cs.length ≤ fuel)
    (h : ∀ c ∈ cs.head?, Text.isBlank c = false ∧ c ≠ '#') : fieldsUpTo fuel cs = ([], cs) := by
  cases fuel with
  | zero => rfl
  | succ fuel =>
    rw [fieldsUpTo.eq_def]
    dsimp only
    rw [field?_eq_none fun c hc => (h c hc).2]
    cases cs with
    | nil => rfl
    | cons c cs => exact if_neg (by rw [(h c rfl).1]; decide)

private theorem fieldsUpTo_newline (fuel : Nat) (cs : List Char) :
    fieldsUpTo (fuel + 1) ('\n' :: cs) = fieldsUpTo fuel cs := by
  rw [fieldsUpTo.eq_def]
  dsimp only
  rw [field?_eq_none fun c hc => by cases hc; decide]
  exact if_pos (by decide)

private theorem head_linesBehind (tokens : List Token) :
    ∀ c ∈ (linesBehind tokens).head?, c = '\n' := by
  intro c hc
  cases tokens with
  | nil => cases hc
  | cons => exact (Option.mem_some_iff.mp hc).symm

/-- The new line in front of the other tokens makes no difference. -/
theorem fieldsUpTo_linesBehind {tokens : List Token} {result : List (String × String) × List Char}
    (h : ∀ n, (Token.write tokens).toList.length ≤ n →
      fieldsUpTo n (Token.write tokens).toList = result) {fuel : Nat}
    (hl : (linesBehind tokens).length ≤ fuel) : fieldsUpTo fuel (linesBehind tokens) = result := by
  cases tokens with
  | nil => exact h fuel (Nat.zero_le _)
  | cons token tail =>
    rw [linesBehind, List.length_cons] at hl
    · obtain ⟨n, rfl⟩ : ∃ n, fuel = n + 1 := ⟨fuel - 1, by omega⟩
      rw [linesBehind, fieldsUpTo_newline, h n (by omega)]
      exact List.cons_ne_nil _ _
    · exact List.cons_ne_nil _ _

/-- Fields are read from the lines that are written for them. -/
theorem fieldsUpTo_write {fields : List (String × String)} {others : List Token}
    (hf : ∀ field ∈ fields, IsField field.1.toList field.2.toList)
    (hs : ∀ c ∈ (Token.write others).toList.head?, Text.isBlank c = false ∧ c ≠ '#')
    (hc : ∀ text, others.head? ≠ some (.closing text)) {fuel : Nat}
    (hl : (Token.write (fieldTokens fields ++ others)).toList.length ≤ fuel) :
    fieldsUpTo fuel (Token.write (fieldTokens fields ++ others)).toList =
      (fields, (Token.write others).toList) := by
  induction fields generalizing fuel with
  | nil => exact fieldsUpTo_of_head hl hs
  | cons field fields ih =>
    obtain ⟨key, value⟩ := field
    obtain ⟨hfield, hfields⟩ := List.forall_mem_cons.mp hf
    have hn : ∀ text, (fieldTokens fields ++ others).head? ≠ some (.closing text) := by
      cases fields with
      | nil => exact hc
      | cons field fields => exact fun text h => by cases h
    have hw := toList_write_field key value hn
    have he : fieldTokens ((key, value) :: fields) ++ others =
        .field key value :: (fieldTokens fields ++ others) := rfl
    rw [he, hw] at hl ⊢
    rw [List.length_append] at hl
    have hk : 0 < (fieldChars key.toList value.toList).length := Nat.succ_pos _
    obtain ⟨fuel, rfl⟩ : ∃ n, fuel = n + 1 := ⟨fuel - 1, by omega⟩
    have hread := field?_fieldChars hfield (head_linesBehind (fieldTokens fields ++ others))
    rw [String.ofList_toList, String.ofList_toList] at hread
    rw [fieldsUpTo_of_field hread, fieldsUpTo_linesBehind (fun n hn => ih hfields hn) (by omega)]

/-- The fields of a text hold what a line can. -/
theorem isField_of_mem_fields {cs : List Char} {field : String × String}
    (h : field ∈ (fields cs).1) : IsField field.1.toList field.2.toList :=
  isField_of_mem_fieldsUpTo h

/-! ### Fields in front of a new line -/

/-- A field ends with its line: what stands behind the line does not matter. -/
theorem field?_append_newline (cs rest : List Char) :
    field? (cs ++ '\n' :: rest) =
      (field? cs).map fun (key, value, behind) => (key, value, behind ++ '\n' :: rest) := by
  cases cs with
  | nil => rfl
  | cons c cs =>
    by_cases hc : c = '#'
    · subst hc
      rw [List.cons_append, field?, field?]
      dsimp only
      rw [Text.dropWhile_append_cons (by decide), Text.span_append_cons (by decide)]
      dsimp only
      rw [Text.dropWhile_append_cons (by decide)]
      cases ((cs.dropWhile isGap).span isNameChar).2.dropWhile isGap with
      | nil => rfl
      | cons d tail =>
        rw [List.cons_append]
        by_cases hd : d = ':'
        · subst hd
          change (if _ then some (_, _, _) else none) = Option.map _ (if _ then _ else _)
          rw [Text.dropWhile_append_cons (by decide), Text.span_append_cons (by decide)]
          split <;> rfl
        · split
          · next heq => exact absurd (List.cons.inj heq).1 hd
          · split
            · next heq => exact absurd (List.cons.inj heq).1 hd
            · rfl
    · have hnone {tail : List Char} : field? (c :: tail) = none :=
        field?_eq_none fun d hd => by cases hd; exact hc
      rw [List.cons_append, hnone, hnone]
      rfl

private theorem length_of_field? {cs rest : List Char} {key value : String}
    (h : field? cs = some (key, value, rest)) : rest.length < cs.length := by
  rw [field?.eq_def] at h
  split at h
  · next cs =>
    dsimp only at h
    split at h
    · next tail hd =>
      split at h
      · cases h
        have hgap := (List.dropWhile_suffix isGap (l := cs)).length_le
        have hname := (List.dropWhile_suffix isNameChar (l := cs.dropWhile isGap)).length_le
        have hcolon := (List.dropWhile_suffix isGap
          (l := ((cs.dropWhile isGap).span isNameChar).2)).length_le
        have hvalue := (List.dropWhile_suffix isGap (l := tail)).length_le
        have hline := (List.dropWhile_suffix (fun c => decide (c ≠ '\n'))
          (l := tail.dropWhile isGap)).length_le
        rw [hd, List.length_cons] at hcolon
        rw [List.span_eq_takeWhile_dropWhile] at hcolon ⊢
        rw [List.length_cons]
        dsimp only at hcolon ⊢
        omega
      · cases h
    · cases h
  · cases h

/-- As many steps as there are characters are enough. -/
theorem fieldsUpTo_eq {fuel : Nat} {cs : List Char} (hl : cs.length ≤ fuel) :
    fieldsUpTo fuel cs = fields cs := by
  suffices h : ∀ n m, ∀ cs : List Char, cs.length ≤ n → cs.length ≤ m →
      fieldsUpTo n cs = fieldsUpTo m cs from h _ _ _ hl (Nat.le_refl _)
  intro n
  induction n with
  | zero =>
    intro m cs hn _
    rw [List.length_eq_zero_iff.mp (Nat.le_zero.mp hn)]
    cases m <;> rfl
  | succ n ih =>
    intro m cs hn hm
    cases cs with
    | nil => cases m <;> rfl
    | cons c cs =>
      obtain ⟨m, rfl⟩ : ∃ k, m = k + 1 := ⟨m - 1, by rw [List.length_cons] at hm; omega⟩
      rw [fieldsUpTo.eq_def, fieldsUpTo.eq_def (m + 1)]
      dsimp only
      split
      · next key value rest hf =>
        have hrest := length_of_field? hf
        rw [ih m rest (by omega) (by omega)]
      · split
        · exact ih m cs (Nat.le_of_succ_le_succ hn) (Nat.le_of_succ_le_succ hm)
        · rfl

theorem fields_of_field {cs rest : List Char} {key value : String}
    (h : field? cs = some (key, value, rest)) :
    fields cs = ((key, value) :: (fields rest).1, (fields rest).2) := by
  have hl := length_of_field? h
  obtain ⟨n, hn⟩ : ∃ n, cs.length = n + 1 := ⟨cs.length - 1, by omega⟩
  rw [fields, hn, fieldsUpTo_of_field h, fieldsUpTo_eq (by omega)]

theorem fields_cons_of_blank {c : Char} (hc : Text.isBlank c = true) (cs : List Char) :
    fields (c :: cs) = fields cs := by
  have hf : field? (c :: cs) = none := field?_eq_none fun d hd => by
    cases hd
    rintro rfl
    exact absurd hc (by decide)
  rw [fields, List.length_cons, fieldsUpTo.eq_def]
  dsimp only
  rw [hf]
  exact if_pos hc

theorem fields_cons_of_not_blank {c : Char} {cs : List Char} (hf : field? (c :: cs) = none)
    (hc : Text.isBlank c = false) : fields (c :: cs) = ([], c :: cs) := by
  rw [fields, List.length_cons, fieldsUpTo.eq_def]
  dsimp only
  rw [hf]
  exact if_neg (by rw [hc]; decide)

/-- A text starts with a field, or with a blank, or with what is neither. -/
theorem fields_induction {P : List Char → Prop} (nil : P [])
    (field : ∀ {cs rest key value}, field? cs = some (key, value, rest) → P rest → P cs)
    (blank : ∀ {c cs}, Text.isBlank c = true → P cs → P (c :: cs))
    (other : ∀ {c cs}, field? (c :: cs) = none → Text.isBlank c = false → P (c :: cs))
    (cs : List Char) : P cs := by
  induction hn : cs.length using Nat.strongRecOn generalizing cs with
  | ind n ih =>
    cases cs with
    | nil => exact nil
    | cons c cs =>
      cases hf : field? (c :: cs) with
      | some found =>
        obtain ⟨key, value, rest⟩ := found
        exact field hf (ih _ (hn ▸ length_of_field? hf) rest rfl)
      | none =>
        cases hc : Text.isBlank c with
        | true => exact blank hc (ih _ (hn ▸ Nat.lt_succ_self _) cs rfl)
        | false => exact other hf hc

theorem length_fields_le (cs : List Char) : (fields cs).2.length ≤ cs.length := by
  induction cs using fields_induction with
  | nil => exact Nat.le_refl _
  | field hf ih =>
    rw [fields_of_field hf]
    exact ih.trans (length_of_field? hf).le
  | blank hc ih =>
    rw [fields_cons_of_blank hc]
    exact ih.trans (Nat.le_succ _)
  | other hf hc =>
    rw [fields_cons_of_not_blank hf hc]

/-- The fields in front of a new line are those of the text before it; when this text is nothing
but fields, those behind the line go on with them. -/
theorem fields_append_newline (cs rest : List Char) :
    fields (cs ++ '\n' :: rest) =
      if (fields cs).2 = [] then ((fields cs).1 ++ (fields rest).1, (fields rest).2)
      else ((fields cs).1, (fields cs).2 ++ '\n' :: rest) := by
  induction cs using fields_induction with
  | nil => exact fields_cons_of_blank (by decide) rest
  | @field cs _ _ _ hf ih =>
    have hf' := field?_append_newline cs rest
    rw [hf, Option.map_some] at hf'
    rw [fields_of_field hf, fields_of_field hf', ih]
    dsimp only
    split <;> rfl
  | blank hc ih => rw [List.cons_append, fields_cons_of_blank hc, fields_cons_of_blank hc, ih]
  | @other c cs hf hc =>
    have hf' := field?_append_newline (c :: cs) rest
    rw [hf, Option.map_none] at hf'
    rw [fields_cons_of_not_blank hf hc, if_neg (List.cons_ne_nil c cs)]
    exact fields_cons_of_not_blank hf' hc

/-- Nothing but blanks stands in front of the music of a text without fields. -/
theorem exists_blanks_of_fields {cs : List Char} (h : (fields cs).1 = []) :
    ∃ blanks, cs = blanks ++ (fields cs).2 ∧ ∀ c ∈ blanks, Text.isBlank c = true := by
  induction cs using fields_induction with
  | nil => exact ⟨[], rfl, fun _ hc => (List.not_mem_nil hc).elim⟩
  | field hf _ =>
    rw [fields_of_field hf] at h
    cases h
  | @blank c cs hc ih =>
    rw [fields_cons_of_blank hc] at h ⊢
    obtain ⟨blanks, hcs, hblanks⟩ := ih h
    exact ⟨c :: blanks, congrArg (c :: ·) hcs, List.forall_mem_cons.mpr ⟨hc, hblanks⟩⟩
  | other hf hc =>
    rw [fields_cons_of_not_blank hf hc]
    exact ⟨[], rfl, fun _ hc => (List.not_mem_nil hc).elim⟩

end LeadSheet.Reading
