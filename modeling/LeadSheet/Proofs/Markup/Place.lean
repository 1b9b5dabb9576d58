import LeadSheet.Proofs.Markup.Relocation

/-!
Where lexemes stand. Each lexeme is written in the text where it says it is, and starts where the one
before it ends or further on. A word is a run of characters that end no word, and only the end of the
text or a character that ends words may follow it, so that no two words touch.

The reader leaves nothing out: the text that it could not make sense of, what it is in the middle of
and what is ahead of it are the end of the text.
-/
namespace LeadSheet

def Lexeme.isWord : Lexeme → Bool
  | word _ => true
  | _ => false

/-- A lexeme that is written in a text at its place. -/
structure Located.StandsIn (l : Located) (cs : List Char) : Prop where
  written : l.written <+: cs.drop l.start
  ne_nil : l.written ≠ []
  run : l.lexeme.isWord = true → ∀ c ∈ l.written, Reading.endsWord c = false
  parted : l.lexeme.isWord = true → ∀ c ∈ (cs.drop l.stop).head?, Reading.endsWord c = true

namespace Located.StandsIn
variable {l m : Located} {cs : List Char}

theorem start_lt_stop (h : l.StandsIn cs) : l.start < l.stop :=
  Nat.lt_add_of_pos_right (List.length_pos_iff.mpr h.ne_nil)

theorem stop_le (h : l.StandsIn cs) : l.stop ≤ cs.length := by
  have hlength := h.written.length_le
  have hpos := List.length_pos_iff.mpr h.ne_nil
  rw [List.length_drop] at hlength
  rw [stop]
  omega

/-- The characters between the ends of a lexeme are those it is written with. -/
theorem drop_take (h : l.StandsIn cs) : (cs.take l.stop).drop l.start = l.written := by
  rw [List.drop_take, stop, Nat.add_sub_cancel_left]
  exact (List.prefix_iff_eq_take.mp h.written).symm

/-- A word that follows another one starts behind its end. -/
theorem stop_lt_start (h : l.StandsIn cs) (hm : m.StandsIn cs) (hword : l.lexeme.isWord = true)
    (hword' : m.lexeme.isWord = true) (hle : l.stop ≤ m.start) : l.stop < m.start := by
  refine Nat.lt_of_le_of_ne hle fun he => ?_
  obtain ⟨c, tail, hc⟩ := List.exists_cons_of_ne_nil hm.ne_nil
  obtain ⟨behind, hb⟩ := hm.written
  have hends := h.parted hword c (by rw [he, ← hb, hc]; rfl)
  rw [hm.run hword' c (by rw [hc]; exact List.mem_cons_self ..)] at hends
  cases hends

end Located.StandsIn

namespace Reading

private theorem suffix_of_field? {cs rest : List Char} {key value : String}
    (h : field? cs = some (key, value, rest)) : rest <:+ cs := by
  rw [field?.eq_def] at h
  split at h
  · next cs =>
    dsimp only at h
    split at h
    · next tail hd =>
      split at h
      · cases h
        have hgap := List.dropWhile_suffix isGap (l := cs)
        have hname := List.dropWhile_suffix isNameChar (l := cs.dropWhile isGap)
        have hcolon := List.dropWhile_suffix isGap (l := ((cs.dropWhile isGap).span isNameChar).2)
        have hvalue := List.dropWhile_suffix isGap (l := tail)
        have hline := List.dropWhile_suffix (fun c => decide (c ≠ '\n'))
          (l := tail.dropWhile isGap)
        rw [hd, List.span_eq_takeWhile_dropWhile] at hcolon
        rw [List.span_eq_takeWhile_dropWhile]
        have htail : tail <:+ '#' :: cs := (List.suffix_cons ':' tail).trans
          (hcolon.trans (hname.trans (hgap.trans (List.suffix_cons '#' cs))))
        exact hline.trans (hvalue.trans htail)
      · cases h
    · cases h
  · cases h

/-- What stands behind the fields of a text is the end of the text. -/
theorem fields_suffix (cs : List Char) : (fields cs).2 <:+ cs := by
  induction cs using fields_induction with
  | nil => exact List.suffix_rfl
  | field hf ih =>
    rw [fields_of_field hf]
    exact ih.trans (suffix_of_field? hf)
  | blank hc ih =>
    rw [fields_cons_of_blank hc]
    exact ih.trans (List.suffix_cons ..)
  | other hf hc => exact ⟨[], congrArg Prod.snd (fields_cons_of_not_blank hf hc)⟩

/-- A run of word characters is taken apart, and nothing of it is lost. -/
theorem append_lastWord (run : List Char) :
    (lastWord run).1 ++ ((lastWord run).2.map Prod.fst).getD [] = run := by
  induction run with
  | nil => rfl
  | cons c rest ih =>
    rw [lastWord]
    split
    · rfl
    · exact congrArg (c :: ·) ih

/-- The characters of what a reader is in the middle of. -/
def Mode.pending : Mode → List Char
  | .between | .comment => []
  | .word chars => chars.reverse
  | .chord chars => '$' :: chars.reverse
  | .quoted _ written _ _ => written.reverse

/-- What a reader is in the middle of is part of one run of characters, or of a text with a quote. -/
def Mode.Kept : Mode → Prop
  | .between | .comment => True
  | .word chars | .chord chars => ∀ c ∈ chars, endsWord c = false
  | .quoted _ written _ _ => written ≠ []

namespace Reader
variable {r : Reader} {cs ahead written rest : List Char}

/-- The reader has gone through a text up to some characters at the end of it. Right before them
stands what it could not make sense of, and before that the lexemes it has found. -/
structure Tracks (r : Reader) (cs ahead : List Char) : Prop where
  suffix : r.skipped.reverse ++ ahead <:+ cs
  stands : ∀ l ∈ r.found, l.StandsIn cs
  before : ∀ l ∈ r.found, l.stop + (r.skipped.length + ahead.length) ≤ cs.length
  ordered : r.found.Pairwise fun later earlier => earlier.stop ≤ later.start

/-- The reader is in front of the rest of a text. -/
structure InFront (r : Reader) (cs rest : List Char) : Prop where
  position : r.position + rest.length = cs.length
  tracks : r.Tracks cs (r.mode.pending ++ rest)
  kept : r.mode.Kept
  fits : r.Fits

/-! ### Lexemes one behind the other -/

private theorem standsIn_of_suffix (h : written ++ ahead <:+ cs) {stop : Nat}
    (hstop : stop + ahead.length = cs.length) (hne : written ≠ []) {lexeme : Lexeme}
    (hword : lexeme.isWord = true →
      (∀ c ∈ written, endsWord c = false) ∧ ∀ c ∈ ahead.head?, endsWord c = true) :
    Located.StandsIn ⟨stop - written.length, written, lexeme⟩ cs := by
  have hlength := h.length_le
  rw [List.length_append] at hlength
  have hstart : cs.length - (written ++ ahead).length = stop - written.length := by
    rw [List.length_append]
    omega
  have hend : cs.length - ahead.length = stop - written.length + written.length := by omega
  have hahead : cs.drop (stop - written.length + written.length) = ahead := by
    rw [← hend]
    exact (List.suffix_iff_eq_drop.mp ((List.suffix_append ..).trans h)).symm
  refine ⟨?_, hne, fun hw => (hword hw).1, fun hw => ?_⟩
  · dsimp only
    rw [← hstart, ← List.suffix_iff_eq_drop.mp h]
    exact List.prefix_append ..
  · rw [Located.stop, hahead]
    exact (hword hw).2

/-- A lexeme that ends where the reader goes on is found behind those before it. -/
theorem Tracks.add (h : r.Tracks cs (written ++ ahead)) (hskipped : r.skipped = []) {stop : Nat}
    (hstop : stop + ahead.length = cs.length) (hne : written ≠ []) (lexeme : Lexeme)
    (hword : lexeme.isWord = true →
      (∀ c ∈ written, endsWord c = false) ∧ ∀ c ∈ ahead.head?, endsWord c = true) :
    Tracks { r with found := ⟨stop - written.length, written, lexeme⟩ :: r.found } cs ahead := by
  obtain ⟨hahead, hstands, hbefore, hordered⟩ := h
  rw [hskipped, List.reverse_nil, List.nil_append] at hahead
  rw [hskipped, List.length_nil, List.length_append, Nat.zero_add] at hbefore
  have hlength := hahead.length_le
  rw [List.length_append] at hlength
  refine ⟨?_, ?_, ?_, ?_⟩
  · rw [hskipped, List.reverse_nil, List.nil_append]
    exact (List.suffix_append ..).trans hahead
  · exact List.forall_mem_cons.mpr ⟨standsIn_of_suffix hahead hstop hne hword, hstands⟩
  · rw [hskipped, List.length_nil, Nat.zero_add]
    refine List.forall_mem_cons.mpr ⟨?_, fun l hl => ?_⟩
    · rw [Located.stop]
      dsimp only
      omega
    · have hl := hbefore l hl
      omega
  · refine List.pairwise_cons.mpr ⟨fun l hl => ?_, hordered⟩
    have hl := hbefore l hl
    dsimp only
    omega

private theorem Tracks.skip (chars : List Char) (h : r.Tracks cs (chars ++ ahead)) :
    (r.skip chars).Tracks cs ahead := by
  have hskipped : (r.skip chars).skipped = chars.reverse ++ r.skipped := rfl
  refine ⟨?_, h.stands, ?_, h.ordered⟩
  · rw [hskipped, List.reverse_append, List.reverse_reverse, List.append_assoc]
    exact h.suffix
  · intro l hl
    have hl := h.before l hl
    rw [List.length_append] at hl
    rw [hskipped, List.length_append, List.length_reverse]
    omega

/-- Where no text without sense stands before them, characters may be left that are no part of a
lexeme. -/
theorem Tracks.leave (chars : List Char) (h : r.Tracks cs (chars ++ ahead))
    (hskipped : r.skipped = []) : r.Tracks cs ahead := by
  refine ⟨?_, h.stands, ?_, h.ordered⟩
  · have hahead := h.suffix
    rw [hskipped, List.reverse_nil, List.nil_append] at hahead ⊢
    exact (List.suffix_append ..).trans hahead
  · intro l hl
    have hl := h.before l hl
    rw [List.length_append] at hl
    omega

private theorem Tracks.flush (h : r.Tracks cs ahead) {stop : Nat}
    (hstop : stop + ahead.length = cs.length) : (r.flush stop).Tracks cs ahead := by
  rw [Reader.flush]
  split
  · exact h
  · next hs =>
    -- what was skipped is ahead again, and is then taken as one lexeme
    have hunskipped : Tracks { r with skipped := [] } cs (r.skipped.reverse ++ ahead) := by
      refine ⟨h.suffix, h.stands, fun l hl => ?_, h.ordered⟩
      have hl := h.before l hl
      rw [List.length_append, List.length_reverse, List.length_nil, Nat.zero_add]
      exact hl
    exact hunskipped.add rfl hstop (fun hn => hs (List.reverse_eq_nil_iff.mp hn)) .skipped
      fun hw => by cases hw

private theorem Tracks.emit (h : r.Tracks cs (written ++ ahead)) {stop : Nat}
    (hstop : stop + ahead.length = cs.length) (hne : written ≠ []) (lexeme : Lexeme)
    (hword : lexeme.isWord = true →
      (∀ c ∈ written, endsWord c = false) ∧ ∀ c ∈ ahead.head?, endsWord c = true) :
    (r.emit stop written lexeme).Tracks cs ahead := by
  have hlength := h.suffix.length_le
  rw [List.length_append, List.length_append] at hlength
  have hstart : stop - written.length + (written ++ ahead).length = cs.length := by
    rw [List.length_append]
    omega
  exact (h.flush hstart).add (skipped_flush ..) hstop hne lexeme hword

/-! ### Words -/

private theorem Tracks.takeRun (run : List Char) (h : r.Tracks cs (run ++ ahead))
    (hp : r.position + ahead.length = cs.length) (hrun : ∀ c ∈ run, endsWord c = false)
    (hends : ∀ c ∈ ahead.head?, endsWord c = true) : (r.takeRun run).Tracks cs ahead := by
  have happend := append_lastWord run
  rw [Reader.takeRun]
  split
  · next bad he =>
    rw [he] at happend
    obtain rfl : bad = run := (List.append_nil bad).symm.trans happend
    exact h.skip bad
  · next bad written word he =>
    rw [he] at happend
    obtain rfl : bad ++ written = run := happend
    have hne : written ≠ [] := by
      rintro rfl
      cases lastWord_spec (congrArg Prod.snd he)
    rw [List.append_assoc] at h
    exact (h.skip bad).emit hp hne (.word word) fun _ =>
      ⟨fun c hc => hrun c (List.mem_append_right bad hc), hends⟩

/-- At the end of a word or chord the reader goes on right behind it. -/
theorem Tracks.endWord (h : r.Tracks cs (r.mode.pending ++ ahead))
    (hp : r.position + ahead.length = cs.length) (hkept : r.mode.Kept)
    (hends : ∀ c ∈ ahead.head?, endsWord c = true)
    (hm : ∃ chars, r.mode = .word chars ∨ r.mode = .chord chars) :
    r.endWord.Tracks cs ahead := by
  obtain ⟨chars, hm⟩ := hm
  rw [Reader.endWord]
  rcases hm with hm | hm
  · rw [hm] at h hkept ⊢
    have hrun : ∀ c ∈ chars.reverse, endsWord c = false := fun c hc =>
      hkept c (List.mem_reverse.mp hc)
    have ht := Tracks.takeRun chars.reverse h hp hrun hends
    exact ⟨ht.suffix, ht.stands, ht.before, ht.ordered⟩
  · rw [hm] at h hkept ⊢
    have hrun : ∀ c ∈ chars.reverse, endsWord c = false := fun c hc =>
      hkept c (List.mem_reverse.mp hc)
    dsimp only
    split
    · have hname : r.Tracks cs (('$' :: chars.reverse) ++ ahead) := h
      have ht := hname.emit hp (List.cons_ne_nil _ _)
        (.chord (String.ofList chars.reverse)) fun hw => by cases hw
      exact ⟨ht.suffix, ht.stands, ht.before, ht.ordered⟩
    · have hsign : (r.skip ['$']).Tracks cs (chars.reverse ++ ahead) :=
        Tracks.skip ['$'] h
      have ht := hsign.takeRun chars.reverse hp hrun hends
      exact ⟨ht.suffix, ht.stands, ht.before, ht.ordered⟩

/-! ### One character -/

/-- A character that ends words is a lexeme of its own, begins one, makes no sense or is left. -/
theorem Tracks.delimit {c : Char} (h : r.Tracks cs (c :: rest)) (hm : r.mode = .between)
    (hp : r.position + (c :: rest).length = cs.length) :
    (r.delimit c).Tracks cs ((r.delimit c).mode.pending ++ rest) ∧ (r.delimit c).mode.Kept := by
  have hnext : r.position + 1 + rest.length = cs.length := by
    rw [← hp, List.length_cons]
    omega
  have hflush := h.flush hp
  have hleft : (r.flush r.position).Tracks cs rest :=
    Tracks.leave [c] hflush (skipped_flush ..)
  have hsign (lexeme : Lexeme) (hl : lexeme.isWord = false) : (r.sign c lexeme).Tracks cs rest := by
    have hc : r.Tracks cs ([c] ++ rest) := h
    refine hc.emit hnext (List.cons_ne_nil _ _) lexeme fun hw => ?_
    rw [hl] at hw
    cases hw
  have hbetween {r' : Reader} (h' : r'.mode = .between) (ht : r'.Tracks cs rest) :
      r'.Tracks cs (r'.mode.pending ++ rest) ∧ r'.mode.Kept := by
    rw [h']
    exact ⟨ht, trivial⟩
  have hmode (stop : Nat) : (r.flush stop).mode = .between := (mode_flush r stop).trans hm
  rw [Reader.delimit.eq_def]
  split
  · exact ⟨⟨hleft.suffix, hleft.stands, hleft.before, hleft.ordered⟩, trivial⟩
  · have ht := hsign .opening rfl
    exact hbetween (hmode _) ⟨ht.suffix, ht.stands, ht.before, ht.ordered⟩
  · split
    · exact hbetween hm (Tracks.skip ['\x7d'] h)
    · have ht := hsign .closing rfl
      exact hbetween (hmode _) ⟨ht.suffix, ht.stands, ht.before, ht.ordered⟩
  · exact hbetween (hmode _) (hsign .bar rfl)
  · exact ⟨⟨h.suffix, h.stands, h.before, h.ordered⟩, fun _ hd => (List.not_mem_nil hd).elim⟩
  · exact ⟨⟨hflush.suffix, hflush.stands, hflush.before, hflush.ordered⟩, List.cons_ne_nil _ _⟩
  · exact ⟨⟨hflush.suffix, hflush.stands, hflush.before, hflush.ordered⟩, List.cons_ne_nil _ _⟩
  · exact hbetween (hmode _) hleft

/-- A character inside quoted text is kept with the others, or ends them. -/
theorem Tracks.quote {q c : Char} {chars : List Char} {escaping : Bool}
    (h : r.Tracks cs (written.reverse ++ (c :: rest)))
    (hp : r.position + (c :: rest).length = cs.length) :
    (r.quote q written chars escaping c).Tracks cs
        ((r.quote q written chars escaping c).mode.pending ++ rest) ∧
      (r.quote q written chars escaping c).mode.Kept := by
  have hnext : r.position + 1 + rest.length = cs.length := by
    rw [← hp, List.length_cons]
    omega
  have hwritten : r.Tracks cs ((c :: written).reverse ++ rest) := by
    rw [List.reverse_cons, List.append_assoc]
    exact h
  have hgoesOn (chars : List Char) (escaping : Bool) :
      Tracks { r with mode := .quoted q (c :: written) chars escaping } cs
        ((Mode.quoted q (c :: written) chars escaping).pending ++ rest) :=
    ⟨hwritten.suffix, hwritten.stands, hwritten.before, hwritten.ordered⟩
  rw [Reader.quote]
  dsimp only
  split
  · exact ⟨hgoesOn _ _, List.cons_ne_nil _ _⟩
  · split
    · have ht := hwritten.emit hnext (fun hn => by cases List.reverse_eq_nil_iff.mp hn)
        (.quoted (String.ofList chars.reverse) q true) fun hw => by cases hw
      exact ⟨⟨ht.suffix, ht.stands, ht.before, ht.ordered⟩, trivial⟩
    · split
      · exact ⟨hgoesOn _ _, List.cons_ne_nil _ _⟩
      · exact ⟨hgoesOn _ _, List.cons_ne_nil _ _⟩

private theorem InFront.feed {c : Char} (h : r.InFront cs (c :: rest)) :
    (r.feed c).InFront cs rest := by
  have hp := h.position
  have htracks := h.tracks
  have hkept := h.kept
  have hnext : r.position + 1 + rest.length = cs.length := by
    rw [← hp, List.length_cons]
    omega
  suffices ht : (r.take c).Tracks cs ((r.take c).mode.pending ++ rest) ∧ (r.take c).mode.Kept from
    ⟨hnext, ⟨ht.1.suffix, ht.1.stands, ht.1.before, ht.1.ordered⟩, ht.2, fits_feed h.fits c⟩
  have hended (he : endsWord c = true) {chars : List Char}
      (hm : r.mode = .word chars ∨ r.mode = .chord chars) :
      (r.endWord.delimit c).Tracks cs ((r.endWord.delimit c).mode.pending ++ rest) ∧
        (r.endWord.delimit c).mode.Kept := by
    have ht : r.endWord.Tracks cs (c :: rest) :=
      htracks.endWord hp hkept (fun d hd => by cases hd; exact he) ⟨chars, hm⟩
    refine ht.delimit (mode_endWord ⟨chars, hm⟩) ?_
    rw [endWord_position]
    exact hp
  rw [take]
  split
  · next hm =>
    rw [hm] at htracks
    have ht : r.Tracks cs rest := Tracks.leave [c] htracks (h.fits.comment hm)
    split
    · exact ⟨⟨ht.suffix, ht.stands, ht.before, ht.ordered⟩, trivial⟩
    · rw [hm]
      exact ⟨ht, trivial⟩
  · next q written chars escaping hm =>
    rw [hm] at htracks
    exact Tracks.quote htracks hp
  · next hm =>
    rw [hm] at htracks
    split
    · exact htracks.delimit hm hp
    · next hc =>
      exact ⟨⟨htracks.suffix, htracks.stands, htracks.before, htracks.ordered⟩,
        List.forall_mem_singleton.mpr (Bool.eq_false_iff.mpr hc)⟩
  · next chars hm =>
    split
    · next he => exact hended he (.inl hm)
    · next hc =>
      rw [hm] at htracks hkept
      have ht : r.Tracks cs ((c :: chars).reverse ++ rest) := by
        rw [List.reverse_cons, List.append_assoc]
        exact htracks
      exact ⟨⟨ht.suffix, ht.stands, ht.before, ht.ordered⟩,
        List.forall_mem_cons.mpr ⟨Bool.eq_false_iff.mpr hc, hkept⟩⟩
  · next chars hm =>
    split
    · next he => exact hended he (.inr hm)
    · next hc =>
      rw [hm] at htracks hkept
      have ht : r.Tracks cs (('$' :: (c :: chars).reverse) ++ rest) := by
        rw [List.reverse_cons, List.cons_append, List.append_assoc]
        exact htracks
      exact ⟨⟨ht.suffix, ht.stands, ht.before, ht.ordered⟩,
        List.forall_mem_cons.mpr ⟨Bool.eq_false_iff.mpr hc, hkept⟩⟩

/-! ### A whole text -/

private theorem InFront.foldl {chars : List Char} (h : r.InFront cs (chars ++ rest)) :
    (chars.foldl Reader.feed r).InFront cs rest := by
  induction chars generalizing r with
  | nil => exact h
  | cons c chars ih => exact ih (InFront.feed h)

private theorem InFront.finish (h : r.InFront cs []) : r.finish.Tracks cs [] := by
  have hp := h.position
  have htracks := h.tracks
  have hkept := h.kept
  have hended {chars : List Char} (hm : r.mode = .word chars ∨ r.mode = .chord chars) :
      (r.endWord.flush r.position).Tracks cs [] :=
    (htracks.endWord hp hkept (fun c hc => by cases hc) ⟨chars, hm⟩).flush hp
  rw [Reader.finish.eq_def]
  cases hm : r.mode with
  | comment =>
    rw [hm] at htracks
    exact htracks
  | quoted q written chars escaping =>
    rw [hm] at htracks hkept
    exact Tracks.emit htracks hp (fun hn => hkept (List.reverse_eq_nil_iff.mp hn)) _
      fun hw => by cases hw
  | between =>
    rw [hm] at htracks
    have he : r.endWord = r := by rw [endWord.eq_def, hm]
    dsimp only
    rw [he]
    exact htracks.flush hp
  | word chars => exact hended (.inl hm)
  | chord chars => exact hended (.inr hm)

private theorem inFront_start {cs rest : List Char} (h : rest <:+ cs) :
    (start (cs.length - rest.length)).InFront cs rest where
  position := Nat.sub_add_cancel h.length_le
  tracks := ⟨h, fun _ hl => (List.not_mem_nil hl).elim, fun _ hl => (List.not_mem_nil hl).elim,
    List.Pairwise.nil⟩
  kept := trivial
  fits := ⟨Nat.zero_le _, fun _ => rfl⟩

end Reader

/-- What a reader has found at the end of a text. -/
theorem tracks_read (text : String) :
    ∃ r : Reader, (Document.read text).lexemes = r.found.reverse ∧ r.Tracks text.toList [] := by
  have h : (start (text.toList.length - (fields text.toList).2.length)).InFront text.toList
      ((fields text.toList).2 ++ []) := by
    rw [List.append_nil]
    exact Reader.inFront_start (fields_suffix text.toList)
  exact ⟨_, rfl, h.foldl.finish⟩

/-- Every lexeme is written in the text at its place. -/
theorem standsIn_of_mem_lexemes {text : String} {l : Located}
    (h : l ∈ (Document.read text).lexemes) : l.StandsIn text.toList := by
  obtain ⟨r, hr, ht⟩ := tracks_read text
  rw [hr] at h
  exact ht.stands l (List.mem_reverse.mp h)

/-- No lexeme starts before the end of one that comes before it. -/
theorem pairwise_lexemes (text : String) :
    (Document.read text).lexemes.Pairwise fun a b => a.stop ≤ b.start := by
  obtain ⟨r, hr, ht⟩ := tracks_read text
  rw [hr]
  exact List.pairwise_reverse.mpr ht.ordered

end Reading
end LeadSheet
