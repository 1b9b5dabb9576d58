import LeadSheet.Proofs.Markup.Word

/-!
What the reader finds. Every word it finds is one that is read from the characters it is written
with, every chord has a name, and no block is closed that was not opened before.
-/
namespace LeadSheet

/-- A lexeme with what it is written with: words are read from it, chords are a sign and a name. -/
def Located.Sound (l : Located) : Prop :=
  match l.lexeme with
  | .word word => Word.read? l.written = some word
  | .chord name =>
    l.written = '$' :: name.toList ∧ name.toList ≠ [] ∧ name.toList.all Reading.isNameChar = true
  | _ => True

/-- How many blocks are open behind a lexeme, if it may stand inside so many. -/
def Lexeme.depthBehind? : Lexeme → Nat → Option Nat
  | opening, depth => some (depth + 1)
  | closing, depth => if depth = 0 then none else some (depth - 1)
  | _, depth => some depth

/-- How many blocks are open behind lexemes, if each may stand where it does. -/
def depthBehind? (depth : Nat) (lexemes : List Lexeme) : Option Nat :=
  lexemes.foldlM (fun depth lexeme => lexeme.depthBehind? depth) depth

namespace Reading

/-- The lexemes found so far are sound, and leave as many blocks open as the reader counts. -/
structure Reader.Sound (r : Reader) : Prop where
  located : ∀ l ∈ r.found, l.Sound
  nested : depthBehind? 0 (r.found.reverse.map Located.lexeme) = some r.depth

theorem lastWord_spec {run written : List Char} {word : Word}
    (h : (lastWord run).2 = some (written, word)) : Word.read? written = some word := by
  induction run with
  | nil => cases h
  | cons c rest ih =>
    rw [lastWord] at h
    split at h
    · next he =>
      cases h
      exact he
    · exact ih h

namespace Reader

private theorem sound_add {r : Reader} (hr : r.Sound) {l : Located} (hl : l.Sound) {depth : Nat}
    (hd : l.lexeme.depthBehind? r.depth = some depth) (mode : Mode) (skipped : List Char) :
    Sound ⟨r.position, depth, mode, skipped, l :: r.found⟩ := by
  refine ⟨List.forall_mem_cons.mpr ⟨hl, hr.located⟩, ?_⟩
  have hn := hr.nested
  rw [depthBehind?] at hn ⊢
  rw [List.reverse_cons, List.map_append, List.foldlM_append, hn]
  rw [List.map_singleton, Option.bind_eq_bind, Option.bind_some, List.foldlM_cons, hd]
  rfl

private theorem sound_skip {r : Reader} (hr : r.Sound) (chars : List Char) : (r.skip chars).Sound :=
  ⟨hr.located, hr.nested⟩

private theorem sound_mode {r : Reader} (hr : r.Sound) (mode : Mode) :
    Sound { r with mode := mode } :=
  ⟨hr.located, hr.nested⟩

theorem depth_flush (r : Reader) (stop : Nat) : (r.flush stop).depth = r.depth := by
  rw [flush]
  split <;> rfl

private theorem sound_flush {r : Reader} (hr : r.Sound) (stop : Nat) : (r.flush stop).Sound := by
  rw [flush]
  split
  · exact hr
  · exact sound_add hr (l := ⟨_, _, .skipped⟩) trivial rfl _ _

private theorem sound_emit {r : Reader} (hr : r.Sound) {stop : Nat} {written : List Char}
    (lexeme : Lexeme)
    (hl : Located.Sound ⟨stop - written.length, written, lexeme⟩)
    (hd : lexeme.depthBehind? r.depth = some r.depth) : (r.emit stop written lexeme).Sound := by
  have hf := sound_flush hr (stop - written.length)
  have he := depth_flush r (stop - written.length)
  exact sound_add hf hl (by rw [he]; exact hd) _ _

private theorem sound_takeRun {r : Reader} (hr : r.Sound) (run : List Char) :
    (r.takeRun run).Sound := by
  rw [takeRun]
  split
  · exact sound_skip hr _
  · next bad written word he =>
    have hw : Word.read? written = some word := lastWord_spec (by rw [he])
    exact sound_emit (sound_skip hr bad) (.word word) hw rfl

private theorem sound_endWord {r : Reader} (hr : r.Sound) : r.endWord.Sound := by
  rw [endWord]
  split
  · exact sound_mode (sound_takeRun hr _) _
  · next chars _ =>
    dsimp only
    split
    · next hn =>
      rw [Bool.and_eq_true, decide_eq_true_eq] at hn
      refine sound_mode (sound_emit hr (.chord _) ?_ rfl) _
      rw [Located.Sound]
      dsimp only
      rw [String.toList_ofList]
      exact ⟨rfl, hn⟩
    · exact sound_mode (sound_takeRun (sound_skip hr _) _) _
  · exact hr

/-- A sign that is no closing brace may stand anywhere. -/
theorem sound_delimit {r : Reader} (hr : r.Sound) (c : Char) : (r.delimit c).Sound := by
  have hf := sound_flush hr (r.position + 1 - [c].length)
  have hd := depth_flush r (r.position + 1 - [c].length)
  rw [delimit.eq_def]
  split
  · exact sound_mode (sound_flush hr _) _
  · refine sound_add hf (l := ⟨_, _, .opening⟩) trivial ?_ _ _
    rw [hd]
    rfl
  · split
    · exact sound_skip hr _
    · next h0 =>
      refine sound_add hf (l := ⟨_, _, .closing⟩) trivial ?_ _ _
      rw [hd]
      exact if_neg h0
  · exact sound_emit hr .bar trivial rfl
  · exact sound_mode hr _
  · exact sound_mode (sound_flush hr _) _
  · exact sound_mode (sound_flush hr _) _
  · exact sound_flush hr _

private theorem sound_quote {r : Reader} (hr : r.Sound) (q : Char) (written chars : List Char)
    (escaping : Bool) (c : Char) : (r.quote q written chars escaping c).Sound := by
  rw [quote]
  dsimp only
  split
  · exact sound_mode hr _
  · split
    · exact sound_mode (sound_emit hr (.quoted ..) trivial rfl) _
    · split
      · exact sound_mode hr _
      · exact sound_mode hr _

private theorem sound_take {r : Reader} (hr : r.Sound) (c : Char) : (r.take c).Sound := by
  rw [take]
  split
  · split
    · exact sound_mode hr _
    · exact hr
  · exact sound_quote hr _ _ _ _ _
  · split
    · exact sound_delimit hr c
    · exact sound_mode hr _
  · split
    · exact sound_delimit (sound_endWord hr) c
    · exact sound_mode hr _
  · split
    · exact sound_delimit (sound_endWord hr) c
    · exact sound_mode hr _

theorem sound_finish {r : Reader} (hr : r.Sound) : r.finish.Sound := by
  rw [finish]
  split
  · exact hr
  · exact sound_emit hr (.quoted ..) trivial rfl
  · exact sound_flush (sound_endWord hr) _

theorem sound_foldl {r : Reader} (hr : r.Sound) (cs : List Char) : (cs.foldl feed r).Sound := by
  induction cs generalizing r with
  | nil => exact hr
  | cons c cs ih =>
    have ht := sound_take hr c
    exact ih ⟨ht.located, ht.nested⟩

end Reader

theorem sound_start (position : Nat) : (start position).Sound :=
  ⟨fun _ h => (List.not_mem_nil h).elim, rfl⟩

/-- The lexemes of a text are sound. -/
theorem sound_of_mem_lexemes {position : Nat} {cs : List Char} {l : Located}
    (h : l ∈ lexemes position cs) : l.Sound :=
  (Reader.sound_finish (Reader.sound_foldl (sound_start position) cs)).located l
    (List.mem_reverse.mp h)

/-- Every closing brace among the lexemes of a text closes a block. -/
theorem depthBehind?_lexemes (position : Nat) (cs : List Char) :
    (depthBehind? 0 ((lexemes position cs).map Located.lexeme)).isSome = true := by
  rw [lexemes, (Reader.sound_finish (Reader.sound_foldl (sound_start position) cs)).nested]
  rfl

end Reading
end LeadSheet
