import LeadSheet.Proofs.Markup.Outline
import LeadSheet.Proofs.Markup.Place

/-!
What is reported of a faulty text. Some lexemes are faulty by themselves, and the first of them is
reported, at its place and with its text. Only where there is none of them is the end of the text
reported, for a string or block that is still open there.

Open strings, open blocks and closing braces without a block are found by going through the signs of
a text alone, without a look at its words.
-/
namespace LeadSheet

/-- A length that is divided by zero. -/
def WrittenTiming.DividesByZero (t : WrittenTiming) : Prop := t.scaling = some (.divided, 0)

/-- A lexeme that nothing can be made of, wherever it stands. -/
def Lexeme.Faulty : Lexeme → Prop
  | skipped => True
  | word (.note n) => n.timing.DividesByZero
  | word (.rest t) => t.DividesByZero
  | word (.timeSignature _ unit) => unit = 0
  | _ => False

/-- A string that the end of the text leaves open. -/
def Lexeme.Unclosed : Lexeme → Prop
  | quoted _ _ false => True
  | _ => False

/-- What is wrong with a lexeme by itself. -/
def Located.fault? (l : Located) : Option SyntaxFault :=
  match l.lexeme with
  | .word word =>
    match Command.ofWord l.start l.stop (String.ofList l.written) word with
    | .ok _ => none
    | .error fault => some fault
  | .skipped => some (.unexpected l.start (String.ofList l.written))
  | _ => none

/-! ### Faulty lexemes -/

theorem Timing.ofWritten?_eq_none_iff {t : WrittenTiming} :
    Timing.ofWritten? t = none ↔ t.DividesByZero := by
  obtain ⟨scaling, dots, start⟩ := t
  rw [Timing.ofWritten?, WrittenTiming.DividesByZero]
  rcases scaling with _ | ⟨_ | _, n⟩ <;> simp

/-- A word that makes no command is faulty, and is reported with its start and its text. -/
theorem Command.ofWord_faulty (start stop : Nat) (written : String) (word : Word) :
    match ofWord start stop written word with
    | .ok _ => ¬ (Lexeme.word word).Faulty
    | .error fault => (Lexeme.word word).Faulty ∧ fault.position = start ∧ fault.text = written := by
  cases word with
  | note n =>
    rw [ofWord]
    cases ht : Timing.ofWritten? n.timing with
    | none => exact ⟨Timing.ofWritten?_eq_none_iff.mp ht, rfl, rfl⟩
    | some timing =>
      intro hf
      rw [Timing.ofWritten?_eq_none_iff.mpr hf] at ht
      cases ht
  | rest t =>
    rw [ofWord]
    cases ht : Timing.ofWritten? t with
    | none => exact ⟨Timing.ofWritten?_eq_none_iff.mp ht, rfl, rfl⟩
    | some timing =>
      intro hf
      rw [Timing.ofWritten?_eq_none_iff.mpr hf] at ht
      cases ht
  | timeSignature beats unit =>
    rw [ofWord]
    by_cases hu : unit = 0
    · rw [if_pos hu]
      exact ⟨hu, rfl, rfl⟩
    · rw [if_neg hu]
      exact hu
  | keySignature | tempo | measure | track | clef => exact fun hf => hf

namespace Located

private theorem fault?_eq_none_iff {l : Located} : l.fault? = none ↔ ¬ l.lexeme.Faulty := by
  rw [fault?]
  cases l.lexeme with
  | word word =>
    have hword := Command.ofWord_faulty l.start l.stop (String.ofList l.written) word
    dsimp only
    split at hword
    · exact iff_of_true rfl hword
    · exact iff_of_false (Option.some_ne_none _) (not_not_intro hword.1)
  | skipped => exact iff_of_false (Option.some_ne_none _) (not_not_intro trivial)
  | chord | opening | closing | bar | quoted => exact iff_of_true rfl id

/-- A fault is reported at the start of the lexeme, and with the lexeme as its text. -/
theorem position_text_of_fault? {l : Located} {fault : SyntaxFault} (h : l.fault? = some fault) :
    fault.position = l.start ∧ fault.text = String.ofList l.written := by
  rw [fault?] at h
  split at h
  · next word _ =>
    have hword := Command.ofWord_faulty l.start l.stop (String.ofList l.written) word
    split at h
    · cases h
    · next hw =>
      rw [hw] at hword
      cases h
      exact hword.2
  · cases h
    exact ⟨rfl, rfl⟩
  · cases h

/-- The first lexeme that is faulty starts before all the others that are. -/
theorem exists_first_fault {ls : List Located} {fault : SyntaxFault}
    (h : ls.findSome? fault? = some fault) (hs : ls.Pairwise fun a b => a.start ≤ b.start) :
    ∃ l ∈ ls, l.fault? = some fault ∧ ∀ m ∈ ls, m.lexeme.Faulty → l.start ≤ m.start := by
  obtain ⟨before, l, behind, rfl, hl, hbefore⟩ := List.findSome?_eq_some_iff.mp h
  refine ⟨l, List.mem_append_right _ (List.mem_cons_self ..), hl, fun m hm hf => ?_⟩
  obtain ⟨-, hs, -⟩ := List.pairwise_append.mp hs
  rcases List.mem_append.mp hm with hm | hm
  · exact absurd hf (fault?_eq_none_iff.mp (hbefore m hm))
  · rcases List.mem_cons.mp hm with rfl | hm
    · exact Nat.le_refl _
    · exact (List.pairwise_cons.mp hs).1 m hm

end Located

/-! ### Outlines of faulty lexemes -/

namespace Outline

private theorem fault_blame (o : Outline) (fault : SyntaxFault) :
    (o.blame fault).fault = o.fault.or (some fault) := by
  rw [blame]
  cases o.fault <;> rfl

private theorem wrong_closeBlock (o : Outline) :
    o.closeBlock.fault = o.fault ∧ o.closeBlock.openQuote = o.openQuote := by
  rw [closeBlock]
  split
  · exact ⟨rfl, rfl⟩
  · exact ⟨rfl, rfl⟩

/-- A lexeme is blamed for what is wrong with it, unless another one was before. -/
theorem fault_take (o : Outline) (l : Located) : (o.take l).fault = o.fault.or l.fault? := by
  rw [take, Located.fault?]
  cases l.lexeme with
  | word word =>
    dsimp only
    cases Command.ofWord l.start l.stop (String.ofList l.written) word with
    | ok command => exact Option.or_none.symm
    | error fault => exact fault_blame o fault
  | skipped => exact fault_blame o _
  | closing => exact (wrong_closeBlock o).1.trans Option.or_none.symm
  | quoted text quote closed =>
    rw [Option.or_none]
    cases closed <;> rfl
  | chord | opening | bar => exact Option.or_none.symm

private theorem fault_foldl (o : Outline) (ls : List Located) :
    (ls.foldl take o).fault = o.fault.or (ls.findSome? Located.fault?) := by
  induction ls generalizing o with
  | nil => exact Option.or_none.symm
  | cons l ls ih =>
    rw [List.foldl_cons, ih, fault_take, Option.or_assoc, List.findSome?_cons]
    cases l.fault? <;> rfl

private theorem openQuote_take_eq_none_iff {o : Outline} {l : Located} :
    (o.take l).openQuote = none ↔ o.openQuote = none ∧ ¬ l.lexeme.Unclosed := by
  have hkept {o' : Outline} {lexeme : Lexeme} (ho : o'.openQuote = o.openQuote)
      (hl : ¬ lexeme.Unclosed) : o'.openQuote = none ↔ o.openQuote = none ∧ ¬ lexeme.Unclosed := by
    rw [ho]
    exact (and_iff_left hl).symm
  rw [take]
  cases l.lexeme with
  | word word =>
    dsimp only
    cases Command.ofWord l.start l.stop (String.ofList l.written) word with
    | ok command => exact hkept rfl id
    | error fault => exact hkept rfl id
  | quoted text quote closed =>
    cases closed with
    | true => exact hkept rfl id
    | false => exact iff_of_false (Option.some_ne_none _) fun h => h.2 trivial
  | closing => exact hkept (wrong_closeBlock o).2 id
  | chord | opening | bar | skipped => exact hkept rfl id

/-- The quote of a string is kept if the end of the text leaves one open. -/
theorem openQuote_foldl_eq_none_iff {o : Outline} {ls : List Located} :
    (ls.foldl take o).openQuote = none ↔
      o.openQuote = none ∧ ∀ l ∈ ls, ¬ l.lexeme.Unclosed := by
  induction ls generalizing o with
  | nil => exact (and_iff_left fun _ h => (List.not_mem_nil h).elim).symm
  | cons l ls ih =>
    rw [List.foldl_cons, ih, openQuote_take_eq_none_iff, List.forall_mem_cons, and_assoc]

/-- What is wrong inside a text is reported first, then what its end leaves open. -/
theorem finish_eq_error {o : Outline} {length : Nat} {fault : SyntaxFault}
    (h : o.finish length = .error fault) :
    o.fault = some fault ∨ o.fault = none ∧ fault.position = length ∧ fault.text = "" := by
  rw [finish.eq_def] at h
  split at h
  · next hf =>
    cases h
    exact .inl hf
  · next hf _ =>
    cases h
    exact .inr ⟨hf, rfl, rfl⟩
  · next hf _ _ =>
    cases h
    exact .inr ⟨hf, rfl, rfl⟩
  · cases h

end Outline

/-! ### The signs of a text -/

/-- What the characters of a text are part of. -/
inductive Region where
  | music
  | comment
  /-- inside quoted text, perhaps right behind a backslash -/
  | quoted (quote : Char) (escaping : Bool)
  deriving DecidableEq, Repr

/-- Where a text stands by its signs: what the next character is part of, how many blocks are open,
and whether there has been a closing brace where none was. -/
structure Nesting where
  region : Region
  blocks : Nat
  stray : Bool
  deriving DecidableEq, Repr

namespace Nesting

/-- Goes past a character between comments and quoted texts. -/
def sign (n : Nesting) (c : Char) : Nesting :=
  match c with
  | '#' => { n with region := .comment }
  | '"' | '\'' => { n with region := .quoted c false }
  | '{' => { n with blocks := n.blocks + 1 }
  | '}' => if n.blocks = 0 then { n with stray := true } else { n with blocks := n.blocks - 1 }
  | _ => n

/-- Goes past a character. A line feed ends a comment; a quote ends the text that the same quote
began, unless a backslash stands before it. -/
def next (n : Nesting) (c : Char) : Nesting :=
  match n.region with
  | .music => n.sign c
  | .comment => if c = '\n' then { n with region := .music } else n
  | .quoted quote escaping =>
    if escaping then { n with region := .quoted quote false }
    else if c = quote then { n with region := .music }
    else { n with region := .quoted quote (decide (c = '\\')) }

/-- The nesting at the end of a text. It starts behind the fields. -/
def atEnd (text : String) : Nesting :=
  (Reading.fields text.toList).2.foldl next ⟨.music, 0, false⟩

/-- The text is inside a string. -/
def InString (n : Nesting) : Prop := ∃ quote escaping, n.region = .quoted quote escaping

private theorem sign_of_not_endsWord (n : Nesting) {c : Char} (h : Reading.endsWord c = false) :
    n.sign c = n := by
  rw [sign.eq_def]
  split
  · cases h
  · cases h
  · cases h
  · cases h
  · cases h
  · rfl

end Nesting

namespace Reading

/-- What the characters are part of that a reader goes on with. -/
def Mode.region : Mode → Region
  | .between | .word _ | .chord _ => .music
  | .comment => .comment
  | .quoted quote _ _ escaping => .quoted quote escaping

namespace Reader

/-- The reader has found no string that stays open. -/
def Closed (r : Reader) : Prop := ∀ l ∈ r.found, ¬ l.lexeme.Unclosed

/-- The reader stands where the signs of the text say. -/
structure Follows (r : Reader) (n : Nesting) : Prop where
  region : r.mode.region = n.region
  depth : r.depth = n.blocks
  astray : n.stray = true → r.Astray
  closed : r.Closed

variable {r : Reader} {n : Nesting}

private theorem closed_flush (h : r.Closed) (stop : Nat) : (r.flush stop).Closed := by
  rw [flush]
  split
  · exact h
  · exact List.forall_mem_cons.mpr ⟨id, h⟩

private theorem closed_emit (h : r.Closed) (stop : Nat) (written : List Char) {lexeme : Lexeme}
    (hl : ¬ lexeme.Unclosed) : (r.emit stop written lexeme).Closed :=
  List.forall_mem_cons.mpr ⟨hl, closed_flush h _⟩

private theorem closed_takeRun (h : r.Closed) (run : List Char) : (r.takeRun run).Closed := by
  rw [takeRun]
  split
  · exact h
  · exact closed_emit (r := r.skip _) h _ _ id

private theorem closed_endWord (h : r.Closed) : r.endWord.Closed := by
  rw [endWord]
  split
  · exact closed_takeRun h _
  · dsimp only
    split
    · exact closed_emit h _ _ id
    · exact closed_takeRun (r := r.skip ['$']) h _
  · exact h

/-- A word that ends changes nothing about where the text stands. -/
theorem Follows.endWord (h : r.Follows n)
    (hm : ∃ chars, r.mode = .word chars ∨ r.mode = .chord chars) : r.endWord.Follows n where
  region := by
    rw [← h.region, mode_endWord hm]
    obtain ⟨chars, hm | hm⟩ := hm
    · rw [hm]
      rfl
    · rw [hm]
      rfl
  depth := (depth_endWord r).trans h.depth
  astray hn := astray_endWord (h.astray hn)
  closed := closed_endWord h.closed

private theorem Follows.delimit (h : r.Follows n) (hm : r.mode = .between) (c : Char) :
    (r.delimit c).Follows (n.sign c) := by
  have hregion (stop : Nat) : (r.flush stop).mode.region = n.region := by
    rw [mode_flush, h.region]
  have hdepth (stop : Nat) : (r.flush stop).depth = n.blocks := (depth_flush r stop).trans h.depth
  have hsign (lexeme : Lexeme) (hl : ¬ lexeme.Unclosed) : (r.sign c lexeme).Follows n :=
    ⟨hregion _, hdepth _, fun hn => .inr (astray_emit (h.astray hn) _ _ _),
      closed_emit h.closed _ _ hl⟩
  have hflush : (r.flush r.position).Follows n :=
    ⟨hregion _, hdepth _, fun hn => .inr (astray_flush (h.astray hn) _), closed_flush h.closed _⟩
  rw [Reader.delimit.eq_def]
  split
  · exact ⟨rfl, hflush.depth, hflush.astray, hflush.closed⟩
  · have ht := hsign .opening id
    exact ⟨ht.region, congrArg (· + 1) h.depth, ht.astray, ht.closed⟩
  · rw [Nesting.sign, ← h.depth]
    split
    · exact ⟨h.region, rfl, fun _ => .inl (List.cons_ne_nil _ _), h.closed⟩
    · have ht := hsign .closing id
      exact ⟨ht.region, rfl, ht.astray, ht.closed⟩
  · exact hsign .bar id
  · have hmusic : (Mode.chord []).region = n.region := by rw [← h.region, hm]; rfl
    exact ⟨hmusic, h.depth, h.astray, h.closed⟩
  · exact ⟨rfl, hflush.depth, hflush.astray, hflush.closed⟩
  · exact ⟨rfl, hflush.depth, hflush.astray, hflush.closed⟩
  · rw [Nesting.sign.eq_def]
    split
    case h_6 => exact hflush
    all_goals contradiction

private theorem Follows.quote {q : Char} {written chars : List Char} {escaping : Bool}
    (h : r.Follows n)
    (hm : r.mode = .quoted q written chars escaping) (c : Char) :
    (r.quote q written chars escaping c).Follows (n.next c) := by
  have hregion : n.region = .quoted q escaping := by rw [← h.region, hm]; rfl
  rw [Nesting.next, hregion, Reader.quote]
  dsimp only
  split
  · exact ⟨rfl, h.depth, h.astray, h.closed⟩
  · split
    · exact ⟨rfl, (depth_flush r _).trans h.depth, fun hn => .inr (astray_emit (h.astray hn) _ _ _),
        closed_emit h.closed _ _ id⟩
    · split
      · next hc => exact ⟨by rw [decide_eq_true hc]; rfl, h.depth, h.astray, h.closed⟩
      · next hc => exact ⟨by rw [decide_eq_false hc]; rfl, h.depth, h.astray, h.closed⟩

private theorem Follows.feed (h : r.Follows n) (c : Char) : (r.feed c).Follows (n.next c) := by
  suffices ht : (r.take c).Follows (n.next c) from ⟨ht.region, ht.depth, ht.astray, ht.closed⟩
  have hmusic (hm : r.mode.region = .music) : n.next c = n.sign c := by
    rw [Nesting.next, ← h.region, hm]
  have hinside {mode : Mode} (hr : r.mode.region = .music) (hm : mode.region = .music)
      (hc : ¬ endsWord c = true) : Follows { r with mode := mode } (n.next c) := by
    rw [hmusic hr, Nesting.sign_of_not_endsWord n (Bool.eq_false_iff.mpr hc)]
    exact ⟨by rw [← h.region, hr]; exact hm, h.depth, h.astray, h.closed⟩
  have hended {chars : List Char} (hm : r.mode = .word chars ∨ r.mode = .chord chars)
      (hr : r.mode.region = .music) : (r.endWord.delimit c).Follows (n.next c) := by
    rw [hmusic hr]
    exact (h.endWord ⟨chars, hm⟩).delimit (mode_endWord ⟨chars, hm⟩) c
  rw [take]
  split
  · next hm =>
    have hregion : n.region = .comment := by rw [← h.region, hm]; rfl
    rw [Nesting.next, hregion]
    dsimp only
    split
    · exact ⟨rfl, h.depth, h.astray, h.closed⟩
    · exact h
  · next hm => exact h.quote hm c
  · next hm =>
    have hr : r.mode.region = .music := by rw [hm]; rfl
    split
    · rw [hmusic hr]
      exact h.delimit hm c
    · next hc => exact hinside hr rfl hc
  · next hm =>
    have hr : r.mode.region = .music := by rw [hm]; rfl
    split
    · exact hended (.inl hm) hr
    · next hc => exact hinside hr rfl hc
  · next hm =>
    have hr : r.mode.region = .music := by rw [hm]; rfl
    split
    · exact hended (.inr hm) hr
    · next hc => exact hinside hr rfl hc

private theorem Follows.foldl (h : r.Follows n) (cs : List Char) :
    (cs.foldl Reader.feed r).Follows (cs.foldl Nesting.next n) := by
  induction cs generalizing r n with
  | nil => exact h
  | cons c cs ih => exact ih (h.feed c)

/-- At the end of a text a string is open if its signs say so. -/
theorem Follows.exists_unclosed_iff (h : r.Follows n) :
    (∃ l ∈ r.finish.found, l.lexeme.Unclosed) ↔ n.InString := by
  rw [Nesting.InString, ← h.region, Reader.finish.eq_def]
  have hclosed {r' : Reader} {mode : Mode} (hr : r'.Closed) (hm : ∀ q e, mode.region ≠ .quoted q e) :
      (∃ l ∈ r'.found, l.lexeme.Unclosed) ↔ ∃ q e, mode.region = .quoted q e := by
    constructor
    · rintro ⟨l, hl, hu⟩
      exact absurd hu (hr l hl)
    · rintro ⟨q, e, he⟩
      exact absurd he (hm q e)
  cases r.mode with
  | comment => exact hclosed h.closed fun _ _ hr => by cases hr
  | quoted q written chars escaping =>
    exact iff_of_true ⟨_, List.mem_cons_self .., trivial⟩ ⟨q, escaping, rfl⟩
  | between | word | chord =>
    exact hclosed (closed_flush (closed_endWord h.closed) _) fun _ _ hr => by cases hr

private theorem depth_finish (r : Reader) : r.finish.depth = r.depth := by
  rw [finish]
  split
  · rfl
  · exact depth_flush r _
  · exact (depth_flush _ _).trans (depth_endWord r)

end Reader
end Reading

/-! ### Faulty texts -/

/-- A fault that is the first one of a text, and says where the text goes wrong. -/
structure SyntaxFault.IsFirstIn (fault : SyntaxFault) (text : String) : Prop where
  position_le : fault.position ≤ text.length
  stands : fault.text.toList <+: text.toList.drop fault.position
  text_eq_empty_iff : fault.text = "" ↔ fault.position = text.length
  /-- The end of the text is reported only if all that is wrong is what it leaves open. -/
  position_eq_length_iff :
    fault.position = text.length ↔ ∀ l ∈ (Document.read text).lexemes, ¬ l.lexeme.Faulty
  /-- Everywhere else a faulty lexeme is reported. -/
  exists_lexeme : fault.position ≠ text.length → ∃ l ∈ (Document.read text).lexemes,
    l.lexeme.Faulty ∧ l.start = fault.position ∧ String.ofList l.written = fault.text
  position_le_start : ∀ l ∈ (Document.read text).lexemes, l.lexeme.Faulty →
    fault.position ≤ l.start

namespace SyntaxFault
variable {text : String} {fault : SyntaxFault}

private theorem isFirstIn_of_lexeme {l : Located} (hl : l ∈ (Document.read text).lexemes)
    (hf : l.fault? = some fault)
    (hfirst : ∀ m ∈ (Document.read text).lexemes, m.lexeme.Faulty → l.start ≤ m.start) :
    fault.IsFirstIn text := by
  obtain ⟨hposition, htext⟩ := Located.position_text_of_fault? hf
  have hstands := Reading.standsIn_of_mem_lexemes hl
  have hfaulty : l.lexeme.Faulty := by
    refine Classical.not_not.mp fun hn => ?_
    rw [Located.fault?_eq_none_iff.mpr hn] at hf
    cases hf
  have hbefore : fault.position < text.length := by
    rw [hposition, ← String.length_toList]
    exact Nat.lt_of_lt_of_le hstands.start_lt_stop hstands.stop_le
  have hwritten : fault.text.toList = l.written := by rw [htext, String.toList_ofList]
  refine ⟨hbefore.le, ?_, ?_, ?_, fun _ => ⟨l, hl, hfaulty, hposition.symm, htext.symm⟩, ?_⟩
  · rw [hwritten, hposition]
    exact hstands.written
  · refine iff_of_false (fun he => hstands.ne_nil ?_) hbefore.ne
    rw [← hwritten, he]
    rfl
  · exact iff_of_false hbefore.ne fun h => h l hl hfaulty
  · rw [hposition]
    exact hfirst

private theorem isFirstIn_of_end (hposition : fault.position = text.length)
    (htext : fault.text = "")
    (h : ∀ l ∈ (Document.read text).lexemes, ¬ l.lexeme.Faulty) : fault.IsFirstIn text where
  position_le := hposition.le
  stands := by
    rw [htext]
    exact List.nil_prefix
  text_eq_empty_iff := iff_of_true htext hposition
  position_eq_length_iff := iff_of_true hposition h
  exists_lexeme hne := absurd hposition hne
  position_le_start l hl hf := absurd hf (h l hl)

end SyntaxFault

/-- The outline of a text blames its first faulty lexeme. -/
theorem Outline.fault_read (text : String) :
    ((Document.read text).lexemes.foldl take .empty).fault =
      (Document.read text).lexemes.findSome? Located.fault? :=
  (fault_foldl .empty _).trans (Option.none_or)

private theorem findSome?_fault?_eq_none_iff {ls : List Located} :
    ls.findSome? Located.fault? = none ↔ ∀ l ∈ ls, ¬ l.lexeme.Faulty := by
  rw [List.findSome?_eq_none_iff]
  exact forall₂_congr fun _ _ => Located.fault?_eq_none_iff

private theorem isFirstIn_of_parse {text : String} {fault : SyntaxFault}
    (h : parse text = .error fault) : fault.IsFirstIn text := by
  have hfinish : ((Document.read text).lexemes.foldl Outline.take .empty).finish
      (Document.read text).length = .error fault := by
    rw [parse, Document.commands] at h
    cases hf : ((Document.read text).lexemes.foldl Outline.take .empty).finish
        (Document.read text).length with
    | ok commands =>
      rw [hf] at h
      cases h
    | error fault' =>
      rw [hf] at h
      exact h
  rcases Outline.finish_eq_error hfinish with hfault | ⟨hfault, hposition, htext⟩
  · rw [Outline.fault_read] at hfault
    have hordered : (Document.read text).lexemes.Pairwise fun a b => a.start ≤ b.start :=
      (Reading.pairwise_lexemes text).imp fun h => (Nat.le_add_right ..).trans h
    obtain ⟨l, hl, hf, hfirst⟩ := Located.exists_first_fault hfault hordered
    exact SyntaxFault.isFirstIn_of_lexeme hl hf hfirst
  · rw [Outline.fault_read, findSome?_fault?_eq_none_iff] at hfault
    exact SyntaxFault.isFirstIn_of_end (hposition.trans String.length_toList) htext hfault

/-! ### What the end of a text leaves open -/

/-- The reader at the end of a text stands where the signs of the text say. -/
theorem Reading.follows_read (text : String) :
    ∃ r : Reader, (Document.read text).lexemes = r.finish.found.reverse ∧
      r.Follows (Nesting.atEnd text) ∧ r.Fits ∧ r.Sound := by
  have hstart (position : Nat) : (start position).Follows ⟨.music, 0, false⟩ :=
    ⟨rfl, rfl, fun h => (Bool.false_ne_true h).elim, fun _ h => (List.not_mem_nil h).elim⟩
  have hfits (position : Nat) : (start position).Fits := ⟨Nat.zero_le _, fun _ => rfl⟩
  exact ⟨_, rfl, (hstart _).foldl _, Reader.fits_foldl (hfits _) _,
    Reader.sound_foldl (sound_start _) _⟩

namespace Outline
variable (text : String)

/-- The outline of a text keeps a quote if the text ends inside a string. -/
theorem openQuote_read :
    ((Document.read text).lexemes.foldl take .empty).openQuote = none ↔
      ¬ (Nesting.atEnd text).InString := by
  obtain ⟨r, hr, hfollows, -, -⟩ := Reading.follows_read text
  rw [openQuote_foldl_eq_none_iff, hr, ← hfollows.exists_unclosed_iff]
  constructor
  · rintro ⟨-, h⟩ ⟨l, hl, hu⟩
    exact h l (List.mem_reverse.mpr hl) hu
  · intro h
    exact ⟨rfl, fun l hl hu => h ⟨l, List.mem_reverse.mp hl, hu⟩⟩

/-- The outline of a text has as many open blocks as the signs of the text say. -/
theorem enclosing_read :
    ((Document.read text).lexemes.foldl take .empty).enclosing.length =
      (Nesting.atEnd text).blocks := by
  obtain ⟨r, hr, hfollows, -, hsound⟩ := Reading.follows_read text
  rw [← hfollows.depth, ← r.depth_finish, hr]
  exact length_enclosing_foldl (o := .empty) (Reading.Reader.sound_finish hsound).nested

end Outline

/-- A closing brace without a block is text that makes no sense. -/
theorem Nesting.exists_faulty_of_stray {text : String} (h : (atEnd text).stray = true) :
    ∃ l ∈ (Document.read text).lexemes, l.lexeme.Faulty := by
  obtain ⟨r, hr, hfollows, hfits, -⟩ := Reading.follows_read text
  obtain ⟨l, hl, hskipped⟩ := Reading.Reader.astray_finish hfits (hfollows.astray h)
  rw [hr]
  refine ⟨l, List.mem_reverse.mpr hl, ?_⟩
  rw [hskipped]
  trivial

/-- A text has commands if and only if none of its lexemes is faulty and its end leaves nothing
open. -/
theorem exists_parse_eq_ok_iff (text : String) :
    (∃ commands, parse text = .ok commands) ↔
      (∀ l ∈ (Document.read text).lexemes, ¬ l.lexeme.Faulty) ∧
        ¬ (Nesting.atEnd text).InString ∧ (Nesting.atEnd text).blocks = 0 := by
  rw [← Outline.openQuote_read, ← Outline.enclosing_read, List.length_eq_zero_iff,
    ← findSome?_fault?_eq_none_iff, ← Outline.fault_read]
  constructor
  · rintro ⟨commands, h⟩
    obtain ⟨hclean, henclosing, -⟩ := parse_eq_ok_iff.mp h
    exact ⟨hclean.1, hclean.2, henclosing⟩
  · rintro ⟨hfault, hquote, henclosing⟩
    exact ⟨_, parse_eq_ok_iff.mpr ⟨⟨hfault, hquote⟩, henclosing, rfl⟩⟩

/-- A text either has commands or a fault. The fault is the first one of the text, and stands where
it says. There is one if the text ends inside a string or a block, if a closing brace outside
comments and strings closes nothing, and if a lexeme is faulty, such as a note or rest divided by
zero; and there is none otherwise. -/
theorem parse_faults (text : String) :
    (∀ fault, parse text = .error fault → fault.IsFirstIn text) ∧
      ((∃ fault, parse text = .error fault) ↔
        (Nesting.atEnd text).InString ∨ 0 < (Nesting.atEnd text).blocks ∨
          (Nesting.atEnd text).stray = true ∨
          ∃ l ∈ (Document.read text).lexemes, l.lexeme.Faulty) := by
  refine ⟨fun fault h => isFirstIn_of_parse h, ?_⟩
  have hok := exists_parse_eq_ok_iff text
  cases hp : parse text with
  | ok commands =>
    obtain ⟨hfaulty, hstring, hblocks⟩ := hok.mp ⟨commands, hp⟩
    refine iff_of_false (fun ⟨_, h⟩ => by cases h) ?_
    rintro (h | h | h | ⟨l, hl, hf⟩)
    · exact hstring h
    · exact Nat.ne_of_gt h hblocks
    · obtain ⟨l, hl, hf⟩ := Nesting.exists_faulty_of_stray h
      exact hfaulty l hl hf
    · exact hfaulty l hl hf
  | error fault =>
    refine iff_of_true ⟨fault, rfl⟩ (Classical.byContradiction fun hn => ?_)
    obtain ⟨hstring, hn⟩ := not_or.mp hn
    obtain ⟨hblocks, hn⟩ := not_or.mp hn
    obtain ⟨-, hfaulty⟩ := not_or.mp hn
    obtain ⟨commands, hc⟩ := hok.mpr
      ⟨fun l hl hf => hfaulty ⟨l, hl, hf⟩, hstring, Nat.eq_zero_of_not_pos hblocks⟩
    rw [hp] at hc
    cases hc

end LeadSheet
