import LeadSheet.Proofs.Markup.Outline
import LeadSheet.Proofs.Markup.Relocation

/-!
Texts below other texts and texts inside blocks. The end of a line ends all that a complete text may
be in the middle of: a word, a comment, a line of fields. What stands below is read as if it stood
alone, only further on, and so is what stands in a block of its own.
-/
namespace LeadSheet

/-- A lexeme that makes sense and is no string that the text leaves open. -/
def Lexeme.Complete (lexeme : Lexeme) : Prop :=
  lexeme ≠ .skipped ∧ ∀ text q, lexeme ≠ .quoted text q false

namespace Reading

/-- The reader at the end of a text. -/
def atEnd (cs : List Char) : Reader :=
  (fields cs).2.foldl Reader.feed (start (cs.length - (fields cs).2.length))

private theorem lexemes_read (text : String) :
    (Document.read text).lexemes = (atEnd text.toList).finish.found.reverse := rfl

namespace Reader
variable {r : Reader}

/-- The reader is at the end of a text, all lexemes of which are complete. -/
structure Complete (r : Reader) : Prop where
  fits : r.Fits
  found : ∀ l ∈ r.finish.found, l.lexeme.Complete

private theorem Complete.not_astray (h : r.Complete) : ¬ r.Astray := by
  intro ha
  obtain ⟨l, hl, hs⟩ := astray_finish h.fits ha
  exact (h.found l hl).1 hs

private theorem Complete.mode_ne_quoted (h : r.Complete) (q : Char) (written chars : List Char)
    (escaping : Bool) : r.mode ≠ .quoted q written chars escaping := by
  intro hm
  have hl : ∃ l ∈ r.finish.found, ∃ text, l.lexeme = .quoted text q false := by
    rw [finish.eq_def, hm]
    exact ⟨_, List.mem_cons_self .., _, rfl⟩
  obtain ⟨l, hl, text, he⟩ := hl
  exact (h.found l hl).2 text q he

private theorem Complete.feed_newline (h : r.Complete) :
    r.feed '\n' = behind (r.position + 1) r.depth r.finish.found :=
  Reader.feed_newline h.fits h.mode_ne_quoted

private theorem fits_behind (position depth : Nat) (found : List Located) :
    (behind position depth found).Fits :=
  ⟨Nat.zero_le _, fun h => by cases h⟩

private theorem fits_moved (hr : r.Fits) (n depth : Nat) (before : List Located) :
    (r.moved n depth before).Fits :=
  ⟨hr.size.trans (Nat.le_add_right ..), hr.comment⟩

private theorem position_foldl (r : Reader) (cs : List Char) :
    (cs.foldl feed r).position = r.position + cs.length := by
  induction cs generalizing r with
  | nil => rfl
  | cons c cs ih =>
    rw [List.foldl_cons, ih, List.length_cons, ← Nat.add_assoc, Nat.add_right_comm]
    rfl

private theorem foldl_blanks {blanks : List Char} (h : ∀ c ∈ blanks, Text.isBlank c = true)
    (position depth : Nat) (found : List Located) :
    blanks.foldl feed (behind position depth found) =
      behind (position + blanks.length) depth found := by
  induction blanks generalizing position with
  | nil => rfl
  | cons c blanks ih =>
    obtain ⟨hc, hblanks⟩ := List.forall_mem_cons.mp h
    rw [List.foldl_cons, feed_blank hc, ih hblanks, List.length_cons, Nat.add_assoc,
      Nat.add_comm 1]

/-- Behind the end of a line too, a complete text is read alike wherever it stands. -/
theorem Complete.feed_newline_moved (h : r.Complete) (n depth : Nat) (before : List Located) :
    (r.moved n depth before).feed '\n' =
      behind (r.position + n + 1) (r.depth + depth)
        (r.finish.found.map (Located.shifted n) ++ before) := by
  have ha : ¬ (['\n'].foldl feed r).Astray := by
    rw [List.foldl_cons, List.foldl_nil, h.feed_newline]
    rintro (hs | ⟨l, hl, hs⟩)
    · exact hs rfl
    · exact (h.found l hl).1 hs
  have hm := moved_foldl n depth before h.fits ha
  rw [List.foldl_cons, List.foldl_nil, List.foldl_cons, List.foldl_nil, h.feed_newline] at hm
  rw [hm, Nat.add_right_comm]
  rfl

private theorem Complete.found_finish_moved (h : r.Complete) (n depth : Nat)
    (before : List Located) :
    (r.moved n depth before).finish.found =
      r.finish.found.map (Located.shifted n) ++ before := by
  have hm := Reader.feed_newline (fits_moved h.fits n depth before) h.mode_ne_quoted
  rw [h.feed_newline_moved] at hm
  exact (congrArg Reader.found hm).symm

end Reader

open Reader

/-- Blanks in front of music without fields may be read with it. -/
theorem foldl_of_no_fields {cs : List Char} (h : (fields cs).1 = []) (position depth : Nat)
    (found : List Located) :
    cs.foldl feed (behind position depth found) =
      (fields cs).2.foldl feed
        (behind (position + (cs.length - (fields cs).2.length)) depth found) := by
  obtain ⟨blanks, hcs, hblanks⟩ := exists_blanks_of_fields h
  have hl : cs.length - (fields cs).2.length = blanks.length := by
    rw [congrArg List.length hcs, List.length_append, Nat.add_sub_cancel]
  rw [hl, ← foldl_blanks hblanks, ← List.foldl_append, ← hcs]

/-- A text without fields, read behind other text or inside blocks. -/
theorem foldl_moved {cs : List Char} (h : (fields cs).1 = []) (hc : (atEnd cs).Complete)
    (position depth : Nat) (found : List Located) :
    cs.foldl feed (behind position depth found) = (atEnd cs).moved position depth found := by
  have hs : atEnd cs = cs.foldl feed (behind 0 0 []) := by
    rw [foldl_of_no_fields h, Nat.zero_add]
    rfl
  rw [hs] at hc ⊢
  rw [← moved_foldl position depth found (fits_behind 0 0 []) hc.not_astray, moved]
  rw [behind, behind, Nat.zero_add, Nat.zero_add]
  rfl

private theorem position_atEnd (cs : List Char) : (atEnd cs).position = cs.length := by
  rw [atEnd, position_foldl]
  exact Nat.sub_add_cancel (length_fields_le cs)

/-- Below a complete text the reader goes on behind the lexemes of that text. -/
theorem atEnd_append_newline {a b : List Char} (ha : (atEnd a).Complete)
    (hb : (fields b).1 = []) :
    atEnd (a ++ '\n' :: b) =
      b.foldl feed (behind (a.length + 1) (atEnd a).depth (atEnd a).finish.found) := by
  have hlb := length_fields_le b
  by_cases hr : (fields a).2 = []
  · -- nothing but fields stands above, so that the music starts below
    have hs : atEnd a = behind a.length 0 [] := by
      rw [atEnd, hr]
      rfl
    have hp : a.length + 1 + (b.length - (fields b).2.length) =
        (a ++ '\n' :: b).length - (fields b).2.length := by
      rw [List.length_append, List.length_cons]
      omega
    have hfields := fields_append_newline a b
    rw [if_pos hr] at hfields
    rw [hs, atEnd, hfields]
    change _ = b.foldl feed (behind (a.length + 1) 0 [])
    rw [foldl_of_no_fields hb, hp]
    rfl
  · have hp : (a ++ '\n' :: b).length - ((fields a).2 ++ '\n' :: b).length =
        a.length - (fields a).2.length := by
      rw [List.length_append, List.length_append]
      omega
    have hfields := fields_append_newline a b
    rw [if_neg hr] at hfields
    have hn := ha.feed_newline
    rw [position_atEnd] at hn
    rw [← hn, atEnd, hfields, List.foldl_append, hp]
    rfl

/-- The lexemes of a text below another one. -/
theorem found_append_newline {a b : List Char} (ha : (atEnd a).Complete)
    (hb : (fields b).1 = []) (hc : (atEnd b).Complete) :
    (atEnd (a ++ '\n' :: b)).finish.found =
      (atEnd b).finish.found.map (Located.shifted (a.length + 1)) ++ (atEnd a).finish.found := by
  rw [atEnd_append_newline ha hb, foldl_moved hb hc, hc.found_finish_moved]

/-- The lexemes of a text inside a block. -/
theorem found_block {cs : List Char} (h : (fields cs).1 = []) (hc : (atEnd cs).Complete) :
    (atEnd ('\x7b' :: (cs ++ ['\n', '\x7d']))).finish.found =
      ⟨cs.length + 2, ['\x7d'], .closing⟩ ::
        ((atEnd cs).finish.found.map (Located.shifted 1) ++ [⟨0, ['\x7b'], .opening⟩]) := by
  have hfields : fields ('\x7b' :: (cs ++ ['\n', '\x7d'])) =
      ([], '\x7b' :: (cs ++ ['\n', '\x7d'])) := fields_cons_of_not_blank rfl (by decide)
  have hopen : (behind 0 0 []).feed '\x7b' = behind 1 1 [⟨0, ['\x7b'], .opening⟩] := rfl
  rw [atEnd, hfields, Nat.sub_self]
  change (List.foldl feed ((behind 0 0 []).feed '\x7b') (cs ++ ['\n', '\x7d'])).finish.found = _
  rw [hopen, List.foldl_append, foldl_moved h hc, List.foldl_cons, hc.feed_newline_moved,
    List.foldl_cons, feed_closing, position_atEnd]
  rfl

/-- A text below a complete one is read as it is alone. -/
theorem read_append_newline {a b : String} (ha : (atEnd a.toList).Complete)
    (hb : (Document.read b).fields = []) (hc : (atEnd b.toList).Complete) :
    (Document.read (a ++ "\n" ++ b)).fields = (Document.read a).fields ∧
      (Document.read (a ++ "\n" ++ b)).lexemes =
        (Document.read a).lexemes ++
          (Document.read b).lexemes.map (Located.shifted (a.length + 1)) := by
  have htext : (a ++ "\n" ++ b).toList = a.toList ++ '\n' :: b.toList := by
    rw [String.toList_append, String.toList_append, List.append_assoc]
    rfl
  constructor
  · change (fields (a ++ "\n" ++ b).toList).1 = (fields a.toList).1
    change (fields b.toList).1 = [] at hb
    rw [htext, fields_append_newline, hb, List.append_nil]
    split <;> rfl
  · rw [lexemes_read, htext, found_append_newline ha hb hc, List.reverse_append,
      ← List.map_reverse]
    rfl

/-- A text in braces is read as it is alone. -/
theorem read_block {text : String} (h : (Document.read text).fields = [])
    (hc : (atEnd text.toList).Complete) :
    (Document.read ("\x7b" ++ text ++ "\n\x7d")).fields = [] ∧
      (Document.read ("\x7b" ++ text ++ "\n\x7d")).lexemes =
        ⟨0, ['\x7b'], .opening⟩ :: ((Document.read text).lexemes.map (Located.shifted 1) ++
          [⟨text.length + 2, ['\x7d'], .closing⟩]) := by
  have htext : ("\x7b" ++ text ++ "\n\x7d").toList =
      '\x7b' :: (text.toList ++ ['\n', '\x7d']) := by
    rw [String.toList_append, String.toList_append, List.append_assoc]
    rfl
  constructor
  · change (fields ("\x7b" ++ text ++ "\n\x7d").toList).1 = []
    rw [htext, fields_cons_of_not_blank rfl (by decide)]
  · rw [lexemes_read, htext, found_block h hc, List.reverse_cons, List.reverse_append,
      ← List.map_reverse]
    rfl

end Reading

/-- The location some characters further on. -/
def Location.shifted (n : Nat) : Location → Location
  | .span ⟨start, stop⟩ => .span ⟨start + n, stop + n⟩
  | .other d => .other d

/-- The command some characters further on. -/
def Command.shifted (n : Nat) (command : Command) : Command :=
  command.mapLocations (Option.map (Location.shifted n))

namespace Outline
open Command

/-! ### Outlines of complete texts -/

private theorem complete_of_take {o : Outline} {l : Located} (h : (o.take l).Clean) :
    l.lexeme.Complete := by
  rw [take] at h
  refine ⟨fun hl => ?_, fun text q hl => ?_⟩
  · rw [hl] at h
    exact absurd h clean_blame
  · rw [hl] at h
    cases h.2

private theorem complete_of_foldl {o : Outline} {ls : List Located} (h : (ls.foldl take o).Clean) :
    ∀ l ∈ ls, l.lexeme.Complete := by
  induction ls generalizing o with
  | nil => exact fun _ hl => (List.not_mem_nil hl).elim
  | cons l ls ih => exact List.forall_mem_cons.mpr ⟨complete_of_take (clean_of_foldl h), ih h⟩

/-! ### Moving an outline -/

/-- A lexeme further on makes a command further on. -/
theorem take_shifted {o : Outline} {l : Located} (hc : (o.take l).Clean) (n : Nat) :
    (o.mapLocations (Option.map (Location.shifted n))).take (l.shifted n) =
      (o.take l).mapLocations (Option.map (Location.shifted n)) := by
  have hs : (l.shifted n).lexeme = l.lexeme := rfl
  cases hl : l.lexeme with
  | word word =>
    rcases ofWord_spec word with he | ⟨f, hf⟩
    · obtain ⟨fault, he⟩ := he l.start l.stop (String.ofList l.written)
      rw [take_of_fault hl he] at hc
      exact absurd hc clean_blame
    · have hstop : (l.shifted n).stop = l.stop + n := Nat.add_right_comm ..
      rw [take_of_command hl (hf.made ..), take_of_command (hs.trans hl) (hf.made ..), hstop]
      change add _ (f (Option.map (Location.shifted n) (some (.span ⟨l.start, l.stop⟩)))) = _
      rw [← hf.mapLocations]
      rfl
  | closing =>
    rw [take, take, hs, hl]
    exact (mapLocations_closeBlock _ o).symm
  | quoted text q closed =>
    rw [take, take, hs, hl]
    cases closed <;> rfl
  | skipped =>
    rw [take, hl] at hc
    exact absurd hc clean_blame
  | chord | opening | bar =>
    rw [take, take, hs, hl]
    rfl

private theorem foldl_take_shifted {o : Outline} {ls : List Located} (hc : (ls.foldl take o).Clean)
    (n : Nat) :
    (ls.map (Located.shifted n)).foldl take (o.mapLocations (Option.map (Location.shifted n))) =
      (ls.foldl take o).mapLocations (Option.map (Location.shifted n)) := by
  induction ls generalizing o with
  | nil => rfl
  | cons l ls ih =>
    rw [List.map_cons, List.foldl_cons, take_shifted (clean_of_foldl hc)]
    exact ih hc

/-! ### An outline on top of another one -/

/-- The innermost commands and those around them, when the outermost of them have commands before
them and blocks around them. -/
def levelsOnto (below : List Command) (outer : List (List Command)) (commands : List Command) :
    List (List Command) → List Command × List (List Command)
  | [] => (commands ++ below, outer)
  | level :: levels =>
    let (enclosing, further) := levelsOnto below outer level levels
    (commands, enclosing :: further)

/-- The outline of a text that stands behind other commands, inside other blocks. -/
def onto (below : List Command) (outer : List (List Command)) (o : Outline) : Outline :=
  let (commands, enclosing) := levelsOnto below outer o.commands o.enclosing
  { o with commands, enclosing }

section Onto
variable (below : List Command) (outer : List (List Command))

private theorem levelsOnto_cons (command : Command) (commands : List Command)
    (levels : List (List Command)) :
    levelsOnto below outer (command :: commands) levels =
      (command :: (levelsOnto below outer commands levels).1,
        (levelsOnto below outer commands levels).2) := by
  cases levels <;> rfl

private theorem onto_add (o : Outline) (command : Command) :
    (o.onto below outer).add command = (o.add command).onto below outer := by
  rw [onto, onto, add, add, levelsOnto_cons]

/-- Closing a block that the text has opened itself leaves those around the text alone. -/
theorem onto_closeBlock {o : Outline} (h : o.enclosing ≠ []) :
    (o.onto below outer).closeBlock = o.closeBlock.onto below outer := by
  obtain ⟨commands, enclosing, fault, openQuote⟩ := o
  obtain ⟨level, levels, rfl⟩ := List.exists_cons_of_ne_nil h
  rw [closeBlock, closeBlock]
  dsimp only [onto, levelsOnto]
  rw [levelsOnto_cons]

private theorem onto_take {o : Outline} {l : Located} {depth : Nat}
    (hd : l.lexeme.depthBehind? o.enclosing.length = some depth) :
    (o.onto below outer).take l = (o.take l).onto below outer := by
  rw [take.eq_def, take.eq_def]
  cases hl : l.lexeme with
  | word word =>
    dsimp only
    cases ofWord l.start l.stop (String.ofList l.written) word with
    | ok command => exact onto_add below outer o command
    | error fault => rfl
  | chord | bar => exact onto_add below outer o _
  | opening | skipped => rfl
  | closing =>
    refine onto_closeBlock below outer fun he => ?_
    rw [hl, he] at hd
    cases hd
  | quoted text q closed =>
    dsimp only
    rw [onto_add]
    cases closed <;> rfl

/-- Lexemes that close no block but their own do the same whatever stands before and around
them. -/
theorem onto_foldl {o : Outline} {ls : List Located}
    (hd : (depthBehind? o.enclosing.length (ls.map Located.lexeme)).isSome = true) :
    ls.foldl take (o.onto below outer) = (ls.foldl take o).onto below outer := by
  induction ls generalizing o with
  | nil => rfl
  | cons l ls ih =>
    rw [List.map_cons, depthBehind?, List.foldlM_cons] at hd
    cases hl : l.lexeme.depthBehind? o.enclosing.length with
    | none =>
      rw [hl] at hd
      cases hd
    | some depth =>
      rw [hl, ← length_enclosing_take hl] at hd
      rw [List.foldl_cons, List.foldl_cons, onto_take below outer hl]
      exact ih hd

end Onto

/-- What is below a text makes the commands that it makes alone, further on. -/
theorem foldl_onto {ls : List Located} {o : Outline} (ho : o.Clean)
    (hd : (depthBehind? 0 (ls.map Located.lexeme)).isSome = true)
    (hc : (ls.foldl take .empty).Clean) (he : (ls.foldl take .empty).enclosing = []) (n : Nat) :
    (ls.map (Located.shifted n)).foldl take o =
      { o with commands := (ls.foldl take .empty).commands.map (shifted n) ++ o.commands } := by
  obtain ⟨commands, enclosing, fault, openQuote⟩ := o
  obtain ⟨rfl, rfl⟩ := ho
  have hd' : (depthBehind? 0
      ((ls.map (Located.shifted n)).map Located.lexeme)).isSome = true := by
    rwa [List.map_map]
  have hm := foldl_take_shifted hc n
  have honto := onto_foldl commands enclosing (o := .empty) hd'
  change List.foldl take .empty _ = _ at hm
  change List.foldl take ⟨commands, enclosing, none, none⟩ _ = _ at honto
  generalize ls.foldl take .empty = o at hc he hm
  obtain ⟨music, enclosing', fault, openQuote⟩ := o
  obtain ⟨rfl, rfl⟩ := hc
  cases he
  rw [honto, hm]
  rfl

end Outline

open Command

private theorem fields_eq_nil {fields : List (String × String)} {music commands : List Command}
    (h : (fields.map fun (key, value) => field (.text key) (.text value)) ++ music = commands)
    (hf : ∀ key value, field key value ∉ commands) : fields = [] := by
  cases fields with
  | nil => rfl
  | cons first fields =>
    rw [← h] at hf
    exact absurd (List.mem_cons_self ..) (hf _ _)

/-- A text that has commands is complete. -/
theorem complete_atEnd {text : String}
    (h : ((Document.read text).lexemes.foldl Outline.take .empty).Clean) :
    (Reading.atEnd text.toList).Complete where
  fits := Reading.Reader.fits_foldl (Reading.Reader.fits_behind _ 0 []) _
  found l hl := Outline.complete_of_foldl h l (List.mem_reverse.mpr hl)

/-- A text without fields below another text adds its commands to those of the text above. In
braces, it makes a block of them. Only the locations move. -/
theorem parse_join {a b : String} {above below : List Command} (ha : parse a = .ok above)
    (hb : parse b = .ok below) (hf : ∀ key value, Command.field key value ∉ below) :
    parse (a ++ "\n" ++ b) = .ok (above ++ below.map (Command.shifted (a.length + 1))) ∧
      parse ("\x7b" ++ b ++ "\n\x7d") = .ok [.block (below.map (Command.shifted 1))] := by
  obtain ⟨hca, hea, rfl⟩ := parse_eq_ok_iff.mp ha
  obtain ⟨hcb, heb, hbelow⟩ := parse_eq_ok_iff.mp hb
  have hfb := fields_eq_nil hbelow hf
  rw [hfb, List.map_nil, List.nil_append] at hbelow
  have hdb : (depthBehind? 0 ((Document.read b).lexemes.map Located.lexeme)).isSome = true :=
    Reading.depthBehind?_lexemes _ _
  constructor
  · obtain ⟨hfields, hlexemes⟩ :=
      Reading.read_append_newline (complete_atEnd hca) hfb (complete_atEnd hcb)
    have ho := Outline.foldl_onto hca hdb hcb heb (a.length + 1)
    rw [← List.foldl_append, ← hlexemes] at ho
    rw [parse_eq_ok_iff, hfields, ho]
    refine ⟨hca, hea, ?_⟩
    dsimp only
    rw [List.reverse_append, ← List.map_reverse, hbelow, List.append_assoc]
  · obtain ⟨hfields, hlexemes⟩ := Reading.read_block hfb (complete_atEnd hcb)
    have ho := Outline.foldl_onto (o := Outline.empty.openBlock) ⟨rfl, rfl⟩ hdb hcb heb 1
    have hopen : Outline.empty.take ⟨0, ['\x7b'], .opening⟩ = Outline.empty.openBlock := rfl
    rw [parse_eq_ok_iff, hfields, hlexemes, List.foldl_cons, hopen, List.foldl_append, ho]
    refine ⟨⟨rfl, rfl⟩, rfl, ?_⟩
    change [Command.block (_ ++ []).reverse] = _
    rw [List.append_nil, ← List.map_reverse, hbelow]

/-- The line of a comment ends before the text below it, and so does a text that is nothing but
fields. -/
theorem parse_join_comment :
    parse ("# title: x\nc4 # end" ++ "\n" ++ " ks-1 \x7bd r\x7d") =
        .ok ([.field (.text "title") (.text "x"),
          .note "C4" none .plain (some (.span ⟨11, 13⟩))] ++
            ([.keySignature (.whole (-1)) (some (.span ⟨1, 5⟩)),
              .block [.note "D" none .plain (some (.span ⟨7, 8⟩)), .rest .plain]].map
                (Command.shifted 20))) ∧
      parse ("\x7b" ++ " ks-1 \x7bd r\x7d" ++ "\n\x7d") =
        .ok [.block ([.keySignature (.whole (-1)) (some (.span ⟨1, 5⟩)),
          .block [.note "D" none .plain (some (.span ⟨7, 8⟩)), .rest .plain]].map
            (Command.shifted 1))] :=
  parse_join (a := "# title: x\nc4 # end") rfl rfl (by simp)

end LeadSheet
