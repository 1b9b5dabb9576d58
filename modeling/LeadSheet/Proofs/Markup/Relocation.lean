import LeadSheet.Proofs.Markup.Rereading

/-!
Readers that stand elsewhere. A text that makes sense is read in the same way wherever it stands:
behind other text, or inside a block that was opened before. Only the places of its lexemes move.
-/
namespace LeadSheet

/-- The lexeme some characters further on. -/
def Located.shifted (n : Nat) (l : Located) : Located := { l with start := l.start + n }

namespace Reading

/-- How many characters a reader keeps of what it is in the middle of. -/
def Mode.size : Mode → Nat
  | .between | .comment => 0
  | .word chars => chars.length
  | .chord chars => chars.length + 1
  | .quoted _ written _ _ => written.length

namespace Reader

/-- The reader keeps no more characters than it has read, and takes no comment for text that makes
no sense. -/
structure Fits (r : Reader) : Prop where
  size : r.mode.size ≤ r.position
  comment : r.mode = .comment → r.skipped = []

/-- The reader has come across text that makes no sense. -/
def Astray (r : Reader) : Prop := r.skipped ≠ [] ∨ ∃ l ∈ r.found, l.lexeme = .skipped

/-- The reader some characters further on, inside more blocks and behind other lexemes. -/
def moved (n depth : Nat) (before : List Located) (r : Reader) : Reader :=
  { r with
    position := r.position + n
    depth := r.depth + depth
    found := r.found.map (Located.shifted n) ++ before }

variable {r : Reader}

/-! ### What reading leaves alone -/

theorem skipped_flush (r : Reader) (stop : Nat) : (r.flush stop).skipped = [] := by
  rw [flush]
  split
  · assumption
  · rfl

theorem mode_flush (r : Reader) (stop : Nat) : (r.flush stop).mode = r.mode := by
  rw [flush]
  split <;> rfl

theorem mode_endWord (h : ∃ chars, r.mode = .word chars ∨ r.mode = .chord chars) :
    r.endWord.mode = .between := by
  obtain ⟨chars, h | h⟩ := h
  · rw [endWord, h]
  · rw [endWord, h]
    dsimp only
    split <;> rfl

private theorem depth_takeRun (r : Reader) (run : List Char) : (r.takeRun run).depth = r.depth := by
  rw [takeRun]
  split
  · rfl
  · exact depth_flush _ _

theorem depth_endWord (r : Reader) : r.endWord.depth = r.depth := by
  rw [endWord]
  split
  · exact depth_takeRun r _
  · dsimp only
    split
    · exact depth_flush _ _
    · exact depth_takeRun _ _
  · rfl

/-! ### What a reader keeps -/

private theorem fits_delimit (h : r.mode = .between) (c : Char) :
    (r.delimit c).mode.size ≤ 1 ∧ ((r.delimit c).mode = .comment → (r.delimit c).skipped = []) := by
  have hflush (stop : Nat) : (r.flush stop).mode = .between := (mode_flush r stop).trans h
  have hkept {r' : Reader} (h' : r'.mode = .between) :
      r'.mode.size ≤ 1 ∧ (r'.mode = .comment → r'.skipped = []) := by
    rw [h']
    exact ⟨Nat.zero_le _, fun h => by cases h⟩
  rw [delimit.eq_def]
  split
  · exact ⟨Nat.zero_le _, fun _ => skipped_flush _ _⟩
  · exact hkept (hflush _)
  · split
    · exact hkept h
    · exact hkept (hflush _)
  · exact hkept (hflush _)
  · exact ⟨Nat.le_refl _, fun h => by cases h⟩
  · exact ⟨Nat.le_refl _, fun h => by cases h⟩
  · exact ⟨Nat.le_refl _, fun h => by cases h⟩
  · exact hkept (hflush _)

private theorem fits_quote (r : Reader) (q : Char) (written chars : List Char) (escaping : Bool)
    (c : Char) : (r.quote q written chars escaping c).mode.size ≤ written.length + 1 ∧
      (r.quote q written chars escaping c).mode ≠ .comment := by
  rw [quote]
  dsimp only
  split
  · exact ⟨Nat.le_refl _, fun h => by cases h⟩
  · split
    · exact ⟨Nat.zero_le _, fun h => by cases h⟩
    · split
      · exact ⟨Nat.le_refl _, fun h => by cases h⟩
      · exact ⟨Nat.le_refl _, fun h => by cases h⟩

theorem fits_feed (hr : r.Fits) (c : Char) : (r.feed c).Fits := by
  have hword {chars : List Char} (h : r.mode = .word chars ∨ r.mode = .chord chars) :
      (r.endWord.delimit c).mode.size ≤ r.position + 1 ∧
        ((r.endWord.delimit c).mode = .comment → (r.endWord.delimit c).skipped = []) := by
    obtain ⟨hs, hc⟩ := fits_delimit (mode_endWord ⟨chars, h⟩) c
    exact ⟨by omega, hc⟩
  have hsize := hr.size
  suffices h : (r.take c).mode.size ≤ r.position + 1 ∧
      ((r.take c).mode = .comment → (r.take c).skipped = []) from ⟨h.1, h.2⟩
  rw [take]
  split
  · next hm =>
    split
    · exact ⟨Nat.zero_le _, fun h => by cases h⟩
    · exact ⟨by omega, hr.comment⟩
  · next q written chars escaping hm =>
    rw [hm] at hsize
    obtain ⟨hs, hc⟩ := fits_quote r q written chars escaping c
    exact ⟨hs.trans (Nat.succ_le_succ hsize), fun h => absurd h hc⟩
  · next hm =>
    split
    · obtain ⟨hs, hc⟩ := fits_delimit hm c
      exact ⟨by omega, hc⟩
    · exact ⟨Nat.succ_le_succ (Nat.zero_le _), fun h => by cases h⟩
  · next chars hm =>
    split
    · exact hword (.inl hm)
    · rw [hm] at hsize
      exact ⟨Nat.succ_le_succ hsize, fun h => by cases h⟩
  · next chars hm =>
    split
    · exact hword (.inr hm)
    · rw [hm] at hsize
      exact ⟨Nat.succ_le_succ hsize, fun h => by cases h⟩

theorem fits_foldl (hr : r.Fits) (cs : List Char) : (cs.foldl feed r).Fits := by
  induction cs generalizing r with
  | nil => exact hr
  | cons c cs ih => exact ih (fits_feed hr c)

/-! ### Text that makes no sense -/

private theorem skipped_of_not_astray (h : ¬ r.Astray) : r.skipped = [] :=
  Classical.not_not.mp fun hs => h (.inl hs)

private theorem astray_skip (h : r.Astray) (chars : List Char) : (r.skip chars).Astray := by
  rcases h with h | h
  · exact .inl fun hn => h (List.append_eq_nil_iff.mp hn).2
  · exact .inr h

theorem astray_flush (h : r.Astray) (stop : Nat) :
    ∃ l ∈ (r.flush stop).found, l.lexeme = .skipped := by
  rw [flush]
  split
  · next hs => exact h.resolve_left fun hn => hn hs
  · exact ⟨_, List.mem_cons_self .., rfl⟩

theorem astray_emit (h : r.Astray) (stop : Nat) (written : List Char) (lexeme : Lexeme) :
    ∃ l ∈ (r.emit stop written lexeme).found, l.lexeme = .skipped := by
  obtain ⟨l, hl, he⟩ := astray_flush h (stop - written.length)
  exact ⟨l, List.mem_cons_of_mem _ hl, he⟩

private theorem astray_takeRun (h : r.Astray) (run : List Char) : (r.takeRun run).Astray := by
  rw [takeRun]
  split
  · exact astray_skip h _
  · exact .inr (astray_emit (astray_skip h _) _ _ _)

theorem astray_endWord (h : r.Astray) : r.endWord.Astray := by
  rw [endWord]
  split
  · exact astray_takeRun h _
  · dsimp only
    split
    · exact .inr (astray_emit h _ _ _)
    · exact astray_takeRun (astray_skip h _) _
  · exact h

private theorem astray_delimit (h : r.Astray) (c : Char) : (r.delimit c).Astray := by
  rw [delimit.eq_def]
  split
  · exact .inr (astray_flush h _)
  · exact .inr (astray_emit h _ _ _)
  · split
    · exact astray_skip h _
    · exact .inr (astray_emit h _ _ _)
  · exact .inr (astray_emit h _ _ _)
  · exact h
  · exact .inr (astray_flush h _)
  · exact .inr (astray_flush h _)
  · exact .inr (astray_flush h _)

private theorem astray_quote (h : r.Astray) (q : Char) (written chars : List Char) (escaping : Bool)
    (c : Char) : (r.quote q written chars escaping c).Astray := by
  rw [quote]
  dsimp only
  split
  · exact h
  · split
    · exact .inr (astray_emit h _ _ _)
    · split
      · exact h
      · exact h

private theorem astray_take (h : r.Astray) (c : Char) : (r.take c).Astray := by
  rw [take]
  split
  · split
    · exact h
    · exact h
  · exact astray_quote h _ _ _ _ _
  · split
    · exact astray_delimit h c
    · exact h
  · split
    · exact astray_delimit (astray_endWord h) c
    · exact h
  · split
    · exact astray_delimit (astray_endWord h) c
    · exact h

/-- What has been read and makes no sense is never forgotten. -/
theorem astray_foldl (h : r.Astray) (cs : List Char) : (cs.foldl feed r).Astray := by
  induction cs generalizing r with
  | nil => exact h
  | cons c cs ih => exact ih (astray_take h c)

theorem astray_finish (hr : r.Fits) (h : r.Astray) :
    ∃ l ∈ r.finish.found, l.lexeme = .skipped := by
  rw [finish]
  split
  · next hm => exact h.resolve_left fun hn => hn (hr.comment hm)
  · exact astray_emit h _ _ _
  · exact astray_flush (astray_endWord h) _

/-! ### Moving a reader -/

section Moved
variable (n depth : Nat) (before : List Located)

private theorem moved_flush (hs : r.skipped = []) (stop stop' : Nat) :
    (r.moved n depth before).flush stop' = (r.flush stop).moved n depth before := by
  rw [flush, flush, if_pos hs]
  exact if_pos hs

private theorem moved_emit (hs : r.skipped = []) {stop stop' : Nat} {written : List Char}
    (hstop : stop' = stop + n) (hw : written.length ≤ stop) (lexeme : Lexeme) :
    (r.moved n depth before).emit stop' written lexeme =
      (r.emit stop written lexeme).moved n depth before := by
  have hstart : stop' - written.length = stop - written.length + n := by omega
  rw [emit, emit, moved_flush n depth before hs (stop - written.length), hstart]
  rfl

/-- What a run of word characters is taken apart into makes up the run. -/
theorem length_lastWord (run : List Char) {bad written : List Char} {word : Word}
    (h : lastWord run = (bad, some (written, word))) : bad.length + written.length = run.length := by
  induction run generalizing bad with
  | nil => cases h
  | cons c rest ih =>
    rw [lastWord] at h
    split at h
    · cases h
      exact Nat.zero_add _
    · obtain ⟨rfl, hfound⟩ := Prod.mk.inj h
      have hrest : (lastWord rest).1.length + written.length = rest.length :=
        ih (Prod.ext rfl hfound)
      rw [List.length_cons, List.length_cons, ← hrest, Nat.add_right_comm]

private theorem moved_takeRun {run : List Char} (ha : ¬ (r.takeRun run).Astray)
    (hl : run.length ≤ r.position) :
    (r.moved n depth before).takeRun run = (r.takeRun run).moved n depth before := by
  rw [takeRun] at ha ⊢
  rw [takeRun]
  cases hrun : lastWord run with
  | mk bad found =>
    rw [hrun] at ha
    cases found with
    | none => rfl
    | some found =>
      obtain ⟨written, word⟩ := found
      have hs := skipped_of_not_astray fun h => ha (.inr (astray_emit h _ _ _))
      have hw := length_lastWord run hrun
      exact moved_emit n depth before hs rfl (show written.length ≤ r.position by omega) _

private theorem moved_endWord (hr : r.Fits) (ha : ¬ r.endWord.Astray) :
    (r.moved n depth before).endWord = r.endWord.moved n depth before := by
  have hs := skipped_of_not_astray fun h => ha (astray_endWord h)
  have hsize := hr.size
  rw [endWord.eq_def] at ha ⊢
  rw [endWord.eq_def, show (r.moved n depth before).mode = r.mode from rfl]
  cases hm : r.mode with
  | between | comment | quoted => rfl
  | word chars =>
    rw [hm] at ha hsize
    have hl : chars.reverse.length ≤ r.position := by rwa [List.length_reverse]
    exact congrArg (fun r : Reader => { r with mode := .between })
      (moved_takeRun n depth before ha hl)
  | chord chars =>
    rw [hm] at ha hsize
    dsimp only at ha ⊢
    have hl : ('$' :: chars.reverse).length ≤ r.position := by
      rwa [List.length_cons, List.length_reverse]
    split at ha
    · next hn =>
      rw [if_pos hn, if_pos hn]
      exact congrArg (fun r : Reader => { r with mode := .between })
        (moved_emit n depth before hs rfl hl _)
    · next hn =>
      rw [if_neg hn, if_neg hn]
      exact congrArg (fun r : Reader => { r with mode := .between })
        (moved_takeRun n depth before (r := r.skip ['$']) ha (Nat.le_of_succ_le hl))

private theorem moved_sign (hs : r.skipped = []) (c : Char) (lexeme : Lexeme) :
    (r.moved n depth before).sign c lexeme = (r.sign c lexeme).moved n depth before :=
  moved_emit n depth before hs (Nat.add_right_comm ..) (Nat.succ_le_succ (Nat.zero_le _)) lexeme

/-- A closing brace that closes nothing makes no sense; all other signs are read alike. -/
theorem moved_delimit {c : Char} (ha : ¬ (r.delimit c).Astray) :
    (r.moved n depth before).delimit c = (r.delimit c).moved n depth before := by
  have hs := skipped_of_not_astray fun h => ha (astray_delimit h c)
  rw [delimit.eq_def, delimit.eq_def]
  split
  · rw [moved_flush n depth before hs r.position]
    rfl
  · have hd : (r.moved n depth before).depth + 1 = r.depth + 1 + depth := Nat.add_right_comm ..
    rw [hd, moved_sign n depth before hs]
    rfl
  · by_cases h0 : r.depth = 0
    · have he : r.delimit '\x7d' = r.skip ['\x7d'] := if_pos h0
      rw [he] at ha
      exact absurd (.inl (List.cons_ne_nil _ _)) ha
    · have hd : (r.moved n depth before).depth - 1 = r.depth - 1 + depth :=
        Nat.sub_add_comm (Nat.one_le_iff_ne_zero.mpr h0)
      have h0' : (r.moved n depth before).depth ≠ 0 := fun h => h0 (Nat.add_eq_zero_iff.mp h).1
      rw [if_neg h0, if_neg h0', hd, moved_sign n depth before hs]
      rfl
  · exact moved_sign n depth before hs _ _
  · rfl
  · rw [moved_flush n depth before hs r.position]
    rfl
  · rw [moved_flush n depth before hs r.position]
    rfl
  · exact moved_flush n depth before hs r.position _

private theorem moved_quote (hs : r.skipped = []) {q : Char} {written chars : List Char}
    {escaping : Bool} {c : Char} (hw : written.length ≤ r.position) :
    (r.moved n depth before).quote q written chars escaping c =
      (r.quote q written chars escaping c).moved n depth before := by
  rw [quote, quote]
  dsimp only
  split
  · rfl
  · split
    · have hl : (c :: written).reverse.length ≤ r.position + 1 := by
        rw [List.length_reverse]
        exact Nat.succ_le_succ hw
      exact congrArg (fun r : Reader => { r with mode := .between })
        (moved_emit n depth before hs (Nat.add_right_comm ..) hl _)
    · split
      · rfl
      · rfl

private theorem moved_take (hr : r.Fits) {c : Char} (ha : ¬ (r.take c).Astray) :
    (r.moved n depth before).take c = (r.take c).moved n depth before := by
  have hs := skipped_of_not_astray fun h => ha (astray_take h c)
  have hsize := hr.size
  have hword (ha : ¬ (r.endWord.delimit c).Astray) :
      (r.moved n depth before).endWord.delimit c =
        (r.endWord.delimit c).moved n depth before := by
    rw [moved_endWord n depth before hr fun h => ha (astray_delimit h c),
      moved_delimit n depth before ha]
  rw [take.eq_def] at ha ⊢
  rw [take.eq_def, show (r.moved n depth before).mode = r.mode from rfl]
  cases hm : r.mode with
  | comment =>
    dsimp only
    split
    · rfl
    · rfl
  | quoted q written chars escaping =>
    rw [hm] at hsize
    exact moved_quote n depth before hs hsize
  | between =>
    rw [hm] at ha
    dsimp only at ha ⊢
    split at ha
    · next he =>
      rw [if_pos he, if_pos he]
      exact moved_delimit n depth before ha
    · next he =>
      rw [if_neg he, if_neg he]
      rfl
  | word chars | chord chars =>
    rw [hm] at ha
    dsimp only at ha ⊢
    split at ha
    · next he =>
      rw [if_pos he, if_pos he]
      exact hword ha
    · next he =>
      rw [if_neg he, if_neg he]
      rfl

/-- A text that makes sense is read alike wherever it stands. -/
theorem moved_foldl (hr : r.Fits) {cs : List Char} (ha : ¬ (cs.foldl feed r).Astray) :
    cs.foldl feed (r.moved n depth before) = (cs.foldl feed r).moved n depth before := by
  induction cs generalizing r with
  | nil => rfl
  | cons c cs ih =>
    have hc : (r.moved n depth before).feed c = (r.feed c).moved n depth before := by
      rw [feed, moved_take n depth before hr fun h => ha (astray_foldl (r := r.feed c) h cs)]
      exact congrArg (fun p => { (r.take c).moved n depth before with position := p })
        (Nat.add_right_comm ..)
    rw [List.foldl_cons, hc]
    exact ih (fits_feed hr c) ha

end Moved

/-! ### The end of a line -/

/-- Behind the end of a line the reader has found all that it would have found if the text had
ended there. -/
theorem feed_newline (hr : r.Fits)
    (hq : ∀ q written chars escaping, r.mode ≠ .quoted q written chars escaping) :
    r.feed '\n' = behind (r.position + 1) r.depth r.finish.found := by
  -- outside of comments and strings, both end the word and report what was skipped
  have hflush {s : Reader} (hm : s.mode = .between) (hd : s.depth = r.depth) :
      { s.flush r.position with position := r.position + 1 } =
        behind (r.position + 1) r.depth (s.flush r.position).found := by
    have hskipped := skipped_flush s r.position
    have hmode := (mode_flush s r.position).trans hm
    have hdepth := (depth_flush s r.position).trans hd
    rw [behind, ← hskipped, ← hmode, ← hdepth]
  have hword {chars : List Char} (h : r.mode = .word chars ∨ r.mode = .chord chars) :
      { r.endWord.delimit '\n' with position := r.position + 1 } =
        behind (r.position + 1) r.depth (r.endWord.flush r.position).found := by
    change { r.endWord.flush r.endWord.position with position := r.position + 1 } = _
    rw [endWord_position]
    exact hflush (mode_endWord ⟨chars, h⟩) (depth_endWord r)
  rw [feed, take.eq_def, finish.eq_def]
  cases hm : r.mode with
  | comment =>
    have hs := hr.comment hm
    obtain ⟨position, depth, mode, skipped, found⟩ := r
    cases hs
    rfl
  | quoted q written chars escaping => exact absurd hm (hq q written chars escaping)
  | between =>
    have he : r.endWord = r := by rw [endWord.eq_def, hm]
    dsimp only
    rw [he]
    exact hflush hm rfl
  | word chars => exact hword (.inl hm)
  | chord chars => exact hword (.inr hm)

end Reader
end Reading
end LeadSheet
