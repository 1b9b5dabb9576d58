import LeadSheet.Markup.Outline
import LeadSheet.Proofs.Markup.Rereading
import LeadSheet.Proofs.Outcome

/-!
Commands up to their locations. Where a lexeme stands and how it is written matters for nothing but
locations, so that the text written from the tokens of a text has the same commands up to these.
-/
namespace LeadSheet

namespace Command

mutual

/-- The command with its locations changed. -/
def mapLocations (f : Option Location → Option Location) : Command → Command
  | note name mark timing location => note name mark timing (f location)
  | keySignature count location => keySignature count (f location)
  | block commands => block (mapLocationsIn f commands)
  | command => command

def mapLocationsIn (f : Option Location → Option Location) : List Command → List Command
  | [] => []
  | command :: tail => mapLocations f command :: mapLocationsIn f tail

end

private theorem mapLocationsIn_eq_map (f : Option Location → Option Location)
    (commands : List Command) :
    mapLocationsIn f commands = commands.map (mapLocations f) := by
  induction commands with
  | nil => rfl
  | cons command tail ih => rw [mapLocationsIn, ih, List.map_cons]

/-- The command without any location. -/
def withoutLocations (command : Command) : Command := command.mapLocations fun _ => none

mutual

/-- The locations in a command, in the order of the text. -/
def locations : Command → List (Option Location)
  | note _ _ _ location => [location]
  | keySignature _ location => [location]
  | block commands => locationsIn commands
  | _ => []

def locationsIn : List Command → List (Option Location)
  | [] => []
  | command :: tail => locations command ++ locationsIn tail

end

/-- All locations are stretches of the text. -/
def Spanned (command : Command) : Prop :=
  ∀ location ∈ command.locations, ∃ span, location = some (.span span)

theorem mem_locationsIn {commands : List Command} {location : Option Location} :
    location ∈ locationsIn commands ↔ ∃ command ∈ commands, location ∈ command.locations := by
  induction commands with
  | nil => simp [locationsIn]
  | cons command tail ih => simp [locationsIn, ih]

private theorem mapLocations_block (f : Option Location → Option Location)
    (commands : List Command) :
    (block commands).mapLocations f = block (commands.map (mapLocations f)) := by
  rw [mapLocations, mapLocationsIn_eq_map]

theorem withoutLocations_block (commands : List Command) :
    (block commands).withoutLocations = block (commands.map withoutLocations) :=
  mapLocations_block (fun _ => none) commands

/-- A word makes a command wherever it stands, which depends on the place by its location only. -/
structure MadeBy (word : Word) (f : Option Location → Command) : Prop where
  made : ∀ start stop written,
    ofWord start stop written word = .ok (f (some (.span ⟨start, stop⟩)))
  mapLocations : ∀ g location, (f location).mapLocations g = f (g location)
  locations : ∀ location, ∀ other ∈ (f location).locations, other = location

private theorem madeBy_plain {word : Word} {command : Command}
    (hw : ∀ start stop written, ofWord start stop written word = .ok command)
    (hm : ∀ g, command.mapLocations g = command) (hl : command.locations = []) :
    MadeBy word fun _ => command := by
  refine ⟨hw, fun g _ => hm g, ?_⟩
  intro location other h
  rw [hl] at h
  cases h

theorem ofWord_spec (word : Word) :
    (∀ start stop written, ∃ fault, ofWord start stop written word = .error fault) ∨
      ∃ f, MadeBy word f := by
  cases word with
  | note n =>
    cases ht : Timing.ofWritten? n.timing with
    | none =>
      refine .inl fun start stop written => ⟨.zeroDivisor start written, ?_⟩
      rw [ofWord, ht]
    | some timing =>
      have hw (start stop : Nat) (written : String) : ofWord start stop written (.note n) =
          .ok (note (String.ofList (n.letter.toChar :: (n.octave.map (Nat.toDigits 10)).getD []))
            n.mark timing (some (.span ⟨start, stop⟩))) := by
        rw [ofWord, ht]
        cases n.octave <;> rfl
      exact .inr ⟨_, hw, fun _ _ => rfl, fun location other h => List.mem_singleton.mp h⟩
  | rest written' =>
    cases ht : Timing.ofWritten? written' with
    | none =>
      refine .inl fun start stop written => ⟨.zeroDivisor start written, ?_⟩
      rw [ofWord, ht]
    | some timing =>
      have hw (start stop : Nat) (written : String) : ofWord start stop written (.rest written') =
          .ok (.rest timing) := by
        rw [ofWord, ht]
      exact .inr ⟨_, madeBy_plain hw (fun _ => rfl) rfl⟩
  | keySignature count =>
    exact .inr ⟨keySignature (.whole count), fun _ _ _ => rfl, fun _ _ => rfl,
      fun location other h => List.mem_singleton.mp h⟩
  | timeSignature beats unit =>
    by_cases hu : unit = 0
    · refine .inl fun start stop written => ⟨.zeroDenominator start written, ?_⟩
      rw [ofWord, if_pos hu]
    · have hw (start stop : Nat) (written : String) :
          ofWord start stop written (.timeSignature beats unit) =
            .ok (.timeSignature (.whole beats) unit) := by
        rw [ofWord, if_neg hu]
      exact .inr ⟨_, madeBy_plain hw (fun _ => rfl) rfl⟩
  | tempo | measure | track | clef =>
    exact .inr ⟨_, madeBy_plain (fun _ _ _ => rfl) (fun _ => rfl) rfl⟩

/-- Where a word stands matters for nothing but locations. -/
theorem withoutLocations_ofWord {start stop : Nat} {written : String} {word : Word}
    {command : Command} (h : ofWord start stop written word = .ok command)
    (start' stop' : Nat) (written' : String) :
    ∃ command', ofWord start' stop' written' word = .ok command' ∧
      command'.withoutLocations = command.withoutLocations := by
  rcases ofWord_spec word with he | ⟨f, hf⟩
  · obtain ⟨fault, he⟩ := he start stop written
    rw [he] at h
    cases h
  · rw [hf.made] at h
    cases h
    refine ⟨_, hf.made start' stop' written', ?_⟩
    rw [withoutLocations, withoutLocations, hf.mapLocations, hf.mapLocations]

private theorem spanned_ofWord {start stop : Nat} {written : String} {word : Word}
    {command : Command}
    (h : ofWord start stop written word = .ok command) : command.Spanned := by
  rcases ofWord_spec word with he | ⟨f, hf⟩
  · obtain ⟨fault, he⟩ := he start stop written
    rw [he] at h
    cases h
  · rw [hf.made] at h
    cases h
    intro location hl
    exact ⟨_, hf.locations _ location hl⟩

end Command

namespace Outline
open Command

/-- The outline without the locations of its commands. -/
def withoutLocations (o : Outline) : Outline :=
  { o with
    commands := o.commands.map Command.withoutLocations
    enclosing := o.enclosing.map (·.map Command.withoutLocations) }

/-- The outline with the locations of its commands changed. -/
def mapLocations (f : Option Location → Option Location) (o : Outline) : Outline :=
  { o with
    commands := o.commands.map (Command.mapLocations f)
    enclosing := o.enclosing.map (·.map (Command.mapLocations f)) }

/-- Nothing is wrong so far. -/
def Clean (o : Outline) : Prop := o.fault = none ∧ o.openQuote = none

private theorem withoutLocations_add (o : Outline) (command : Command) :
    (o.add command).withoutLocations = o.withoutLocations.add command.withoutLocations := rfl

theorem mapLocations_closeBlock (f : Option Location → Option Location) (o : Outline) :
    o.closeBlock.mapLocations f = (o.mapLocations f).closeBlock := by
  obtain ⟨commands, enclosing, fault, openQuote⟩ := o
  cases enclosing with
  | nil => rfl
  | cons outer enclosing =>
    rw [closeBlock]
    dsimp only [mapLocations]
    rw [List.map_cons, List.map_cons, mapLocations_block, List.map_reverse]
    rfl

private theorem withoutLocations_closeBlock (o : Outline) :
    o.closeBlock.withoutLocations = o.withoutLocations.closeBlock :=
  mapLocations_closeBlock (fun _ => none) o

theorem clean_blame {o : Outline} {fault : SyntaxFault} : ¬ (o.blame fault).Clean := by
  rintro ⟨h, -⟩
  rw [blame] at h
  cases hf : o.fault with
  | none => rw [hf] at h; cases h
  | some => rw [hf] at h; cases h

/-- What is wrong stays wrong. -/
theorem clean_of_take {o : Outline} {l : Located} (h : (o.take l).Clean) : o.Clean := by
  rw [take] at h
  split at h
  · split at h
    · exact h
    · exact absurd h clean_blame
  · exact h
  · exact h
  · rw [closeBlock] at h
    split at h
    · exact h
    · exact h
  · exact h
  · split at h
    · exact h
    · cases h.2
  · exact absurd h clean_blame

theorem clean_of_foldl {o : Outline} {ls : List Located} (h : (ls.foldl take o).Clean) :
    o.Clean := by
  induction ls generalizing o with
  | nil => exact h
  | cons l ls ih => exact clean_of_take (ih h)

theorem take_of_command {o : Outline} {l : Located} {word : Word} {command : Command}
    (h : l.lexeme = .word word)
    (hw : ofWord l.start l.stop (String.ofList l.written) word = .ok command) :
    o.take l = o.add command := by
  rw [take, h]
  dsimp only
  rw [hw]

theorem take_of_fault {o : Outline} {l : Located} {word : Word} {fault : SyntaxFault}
    (h : l.lexeme = .word word)
    (hw : ofWord l.start l.stop (String.ofList l.written) word = .error fault) :
    o.take l = o.blame fault := by
  rw [take, h]
  dsimp only
  rw [hw]

/-- A lexeme does the same to outlines that differ in locations only, wherever it stands and
however it is written. -/
theorem withoutLocations_take {o o' : Outline} (ho : o'.withoutLocations = o.withoutLocations)
    {l l' : Located} (hl : l'.lexeme = Reading.requoted l.lexeme) (hc : (o.take l).Clean) :
    (o'.take l').withoutLocations = (o.take l).withoutLocations := by
  cases hx : l.lexeme with
  | word word =>
    rw [hx] at hl
    cases hw : ofWord l.start l.stop (String.ofList l.written) word with
    | error fault =>
      rw [take_of_fault hx hw] at hc
      exact absurd hc clean_blame
    | ok command =>
      obtain ⟨command', hw', he⟩ := withoutLocations_ofWord hw l'.start l'.stop
        (String.ofList l'.written)
      rw [take_of_command hx hw, take_of_command hl hw', withoutLocations_add,
        withoutLocations_add, ho, he]
  | chord name =>
    rw [hx] at hl
    rw [take, take, hx, hl]
    exact congrArg (add · (.chord name)) ho
  | opening =>
    rw [hx] at hl
    rw [take, take, hx, hl]
    exact congrArg openBlock ho
  | closing =>
    rw [hx] at hl
    rw [take, take, hx, hl]
    dsimp only [Reading.requoted]
    rw [withoutLocations_closeBlock, withoutLocations_closeBlock, ho]
  | bar =>
    rw [hx] at hl
    rw [take, take, hx, hl]
    exact congrArg (add · .backToStart) ho
  | quoted text q closed =>
    rw [hx] at hl
    rw [take, hx] at hc
    cases closed with
    | false => cases hc.2
    | true =>
      rw [take, take, hx, hl]
      exact congrArg (add · (.remark (.text text))) ho
  | skipped =>
    rw [take, hx] at hc
    exact absurd hc clean_blame

/-- Lexemes that are written again make the same commands up to locations. -/
theorem withoutLocations_foldl {ls ls' : List Located}
    (hl : ls'.map (fun l => (l.written, l.lexeme)) = ls.filterMap Reading.rewritten?)
    {o o' : Outline} (ho : o'.withoutLocations = o.withoutLocations)
    (hc : (ls.foldl take o).Clean) :
    (ls'.foldl take o').withoutLocations = (ls.foldl take o).withoutLocations := by
  induction ls generalizing ls' o o' with
  | nil =>
    rw [List.filterMap_nil, List.map_eq_nil_iff] at hl
    rw [hl]
    exact ho
  | cons l ls ih =>
    have hclean := clean_of_foldl (List.foldl_cons .. ▸ hc : (ls.foldl take (o.take l)).Clean)
    cases ht : Token.ofLexeme? l with
    | none =>
      rw [take, Reading.eq_skipped_of_ofLexeme? ht] at hclean
      exact absurd hclean clean_blame
    | some token =>
      have hr : Reading.rewritten? l = some (token.text.toList, Reading.requoted l.lexeme) := by
        rw [Reading.rewritten?, ht, Option.map_some]
      rw [List.filterMap_cons_some hr] at hl
      obtain ⟨l', tail, rfl, hw, htail⟩ := List.map_eq_cons_iff.mp hl
      exact ih htail (withoutLocations_take ho (congrArg Prod.snd hw) hclean) hc

/-- As many blocks are open in an outline as are open behind its lexemes. -/
theorem length_enclosing_take {o : Outline} {l : Located} {depth : Nat}
    (hd : l.lexeme.depthBehind? o.enclosing.length = some depth) :
    (o.take l).enclosing.length = depth := by
  rw [take.eq_def]
  cases hl : l.lexeme with
  | word word =>
    rw [hl] at hd
    dsimp only
    cases ofWord l.start l.stop (String.ofList l.written) word with
    | ok command => exact Option.some.inj hd
    | error fault => exact Option.some.inj hd
  | closing =>
    rw [hl] at hd
    dsimp only
    rw [closeBlock]
    split
    · next he =>
      rw [he] at hd
      cases hd
    · next he =>
      rw [he] at hd
      exact Option.some.inj hd
  | quoted text q closed =>
    rw [hl] at hd
    cases closed with
    | true => exact Option.some.inj hd
    | false => exact Option.some.inj hd
  | chord | bar | opening | skipped =>
    rw [hl] at hd
    exact Option.some.inj hd

theorem length_enclosing_foldl {o : Outline} {ls : List Located} {depth : Nat}
    (hd : depthBehind? o.enclosing.length (ls.map Located.lexeme) = some depth) :
    (ls.foldl take o).enclosing.length = depth := by
  induction ls generalizing o with
  | nil => exact Option.some.inj hd
  | cons l ls ih =>
    rw [List.map_cons, depthBehind?, List.foldlM_cons] at hd
    obtain ⟨inner, hl, hd⟩ := Option.bind_eq_some_iff.mp hd
    rw [← length_enclosing_take hl] at hd
    exact ih hd

private theorem finish_eq_ok_iff {o : Outline} {length : Nat} {commands : List Command} :
    o.finish length = .ok commands ↔
      o.Clean ∧ o.enclosing = [] ∧ o.commands.reverse = commands := by
  obtain ⟨inner, enclosing, fault, openQuote⟩ := o
  rw [finish.eq_def, Clean]
  cases fault <;> cases openQuote <;> cases enclosing <;> simp

/-- All commands in an outline have a property. -/
def Holds (P : Command → Prop) (o : Outline) : Prop :=
  (∀ command ∈ o.commands, P command) ∧ ∀ commands ∈ o.enclosing, ∀ command ∈ commands, P command

end Outline

/-- A property that all commands made of lexemes have, and that a block has when its commands do. -/
structure Command.Inherited (P : Command → Prop) : Prop where
  word : ∀ {start stop written word command}, ofWord start stop written word = .ok command →
    P command
  chord : ∀ name, P (.chord name)
  backToStart : P .backToStart
  remark : ∀ text, P (.remark (.text text))
  block : ∀ {commands}, (∀ command ∈ commands, P command) → P (.block commands)

namespace Outline
variable {P : Command → Prop}

private theorem holds_add {o : Outline} (ho : o.Holds P) {command : Command} (hc : P command) :
    (o.add command).Holds P :=
  ⟨List.forall_mem_cons.mpr ⟨hc, ho.1⟩, ho.2⟩

private theorem holds_closeBlock (hP : Command.Inherited P) {o : Outline} (ho : o.Holds P) :
    o.closeBlock.Holds P := by
  rw [closeBlock]
  split
  · exact ho
  · next outer enclosing he =>
    have hb : P (.block o.commands.reverse) :=
      hP.block fun command hc => ho.1 command (List.mem_reverse.mp hc)
    have hi := ho.2
    rw [he] at hi
    obtain ⟨houter, hi⟩ := List.forall_mem_cons.mp hi
    exact ⟨List.forall_mem_cons.mpr ⟨hb, houter⟩, hi⟩

private theorem holds_take (hP : Command.Inherited P) {o : Outline} (ho : o.Holds P) (l : Located) :
    (o.take l).Holds P := by
  rw [take]
  split
  · split
    · next hw => exact holds_add ho (hP.word hw)
    · exact ho
  · exact holds_add ho (hP.chord _)
  · exact ⟨fun _ h => (List.not_mem_nil h).elim, List.forall_mem_cons.mpr ho⟩
  · exact holds_closeBlock hP ho
  · exact holds_add ho hP.backToStart
  · split
    · exact holds_add ho (hP.remark _)
    · exact holds_add ho (hP.remark _)
  · exact ho

private theorem holds_foldl (hP : Command.Inherited P) {o : Outline} (ho : o.Holds P)
    (ls : List Located) : (ls.foldl take o).Holds P := by
  induction ls generalizing o with
  | nil => exact ho
  | cons l ls ih => exact ih (holds_take hP ho l)

end Outline

open Command in
theorem parse_eq_ok_iff {text : String} {commands : List Command} :
    parse text = .ok commands ↔
      ((Document.read text).lexemes.foldl Outline.take .empty).Clean ∧
      ((Document.read text).lexemes.foldl Outline.take .empty).enclosing = [] ∧
      ((Document.read text).fields.map fun (key, value) => field (.text key) (.text value)) ++
        ((Document.read text).lexemes.foldl Outline.take .empty).commands.reverse = commands := by
  rw [parse, Document.commands, Except.bind_eq_ok_iff]
  constructor
  · rintro ⟨music, hm, hc⟩
    obtain ⟨hclean, he, rfl⟩ := Outline.finish_eq_ok_iff.mp hm
    exact ⟨hclean, he, Except.ok.inj hc⟩
  · rintro ⟨hclean, he, rfl⟩
    exact ⟨_, Outline.finish_eq_ok_iff.mpr ⟨hclean, he, rfl⟩, rfl⟩

/-- A property that is inherited holds of all commands of a text if it holds of fields. -/
theorem Command.Inherited.of_parse {P : Command → Prop} (hP : Command.Inherited P)
    (hf : ∀ key value, P (.field (.text key) (.text value))) {text : String} {commands : List Command}
    (h : parse text = .ok commands) : ∀ command ∈ commands, P command := by
  obtain ⟨-, -, rfl⟩ := parse_eq_ok_iff.mp h
  have hs := Outline.holds_foldl hP (o := .empty)
    ⟨fun _ h => (List.not_mem_nil h).elim, fun _ h => (List.not_mem_nil h).elim⟩
    (Document.read text).lexemes
  intro command hc
  rcases List.mem_append.mp hc with hc | hc
  · obtain ⟨field, -, rfl⟩ := List.mem_map.mp hc
    exact hf _ _
  · exact hs.1 command (List.mem_reverse.mp hc)

private theorem Command.spanned_of_locations {command : Command} (h : command.locations = []) :
    command.Spanned := by
  intro location hl
  rw [h] at hl
  cases hl

private theorem Command.inherited_spanned : Command.Inherited Command.Spanned where
  word := spanned_ofWord
  chord _ := spanned_of_locations rfl
  backToStart := spanned_of_locations rfl
  remark _ := spanned_of_locations rfl
  block {commands} h := by
    intro location hl
    obtain ⟨command, hc, hl⟩ := mem_locationsIn.mp hl
    exact h command hc location hl

/-- All locations in the commands of a text are stretches of the text. -/
theorem spanned_of_parse {text : String} {commands : List Command}
    (h : parse text = .ok commands) : ∀ command ∈ commands, command.Spanned :=
  Command.inherited_spanned.of_parse (fun _ _ => Command.spanned_of_locations rfl) h

/-- Lexemes that are written again for a text make the same commands of it up to locations. -/
theorem parse_of_rewritten {text : String} {fs : List (String × String)}
    (hf : (Document.read text).fields = fs) {ls : List Located}
    (hl : (Document.read text).lexemes.map (fun l => (l.written, l.lexeme)) =
      ls.filterMap Reading.rewritten?)
    (hc : (ls.foldl Outline.take .empty).Clean)
    (he : (ls.foldl Outline.take .empty).enclosing = []) :
    ∃ commands, parse text = .ok commands ∧
      commands.map Command.withoutLocations =
        ((fs.map fun (key, value) => Command.field (.text key) (.text value)) ++
          (ls.foldl Outline.take .empty).commands.reverse).map Command.withoutLocations := by
  have ho : ((Document.read text).lexemes.foldl Outline.take .empty).withoutLocations =
      (ls.foldl Outline.take .empty).withoutLocations :=
    Outline.withoutLocations_foldl hl rfl hc
  have hfault := congrArg Outline.fault ho
  have hquote := congrArg Outline.openQuote ho
  have henclosing := congrArg Outline.enclosing ho
  have hcommands := congrArg Outline.commands ho
  dsimp only [Outline.withoutLocations] at hfault hquote henclosing hcommands
  rw [he, List.map_nil, List.map_eq_nil_iff] at henclosing
  refine ⟨_, parse_eq_ok_iff.mpr ⟨⟨hfault.trans hc.1, hquote.trans hc.2⟩, henclosing, rfl⟩, ?_⟩
  rw [hf, List.map_append, List.map_append, List.map_reverse, List.map_reverse, hcommands]

/-- The text written from the tokens of a text has the same commands up to locations. -/
theorem parse_write {text : String} {commands : List Command} (h : parse text = .ok commands) :
    ∃ commands', parse (Token.write (tokens text)) = .ok commands' ∧
      commands'.map Command.withoutLocations = commands.map Command.withoutLocations := by
  obtain ⟨hc, he, rfl⟩ := parse_eq_ok_iff.mp h
  obtain ⟨hf, hl⟩ := Reading.read_write text
  exact parse_of_rewritten hf hl hc he

/-! ### Words -/

/-- A word stands for a command, wherever it stands, up to its location. -/
def Word.StandsFor (word : Word) (command : Command) : Prop :=
  ∀ start stop written, ∃ made, Command.ofWord start stop written word = .ok made ∧
    made.withoutLocations = command

/-- A word in its shortest form. -/
def Word.located (word : Word) : Located := ⟨0, word.shortest, .word word⟩

/-- The text of words, with blanks between them. -/
def Word.write (words : List Word) : String :=
  Token.write ((words.map Word.located).filterMap Token.ofLexeme?)

private theorem Outline.foldl_located {words : List Word} {commands : List Command}
    (h : List.Forall₂ Word.StandsFor words commands) (o : Outline) :
    ∃ made : List Command, (words.map Word.located).foldl take o =
        { o with commands := made.reverse ++ o.commands } ∧
      made.map Command.withoutLocations = commands := by
  induction h generalizing o with
  | nil => exact ⟨[], rfl, rfl⟩
  | @cons word command words commands hword _ ih =>
    obtain ⟨first, hfirst, hcommand⟩ := hword word.located.start word.located.stop
      (String.ofList word.located.written)
    obtain ⟨made, hmade, hcommands⟩ := ih (o.add first)
    refine ⟨first :: made, ?_, by rw [List.map_cons, hcommand, hcommands]⟩
    rw [List.map_cons, List.foldl_cons, take_of_command rfl hfirst, hmade, List.reverse_cons,
      List.append_assoc]
    rfl

/-- The text of words has the commands that they stand for, up to locations. -/
theorem parse_words {words : List Word} (hv : ∀ word ∈ words, word.Valid) {commands : List Command}
    (hc : List.Forall₂ Word.StandsFor words commands) :
    ∃ commands', parse (Word.write words) = .ok commands' ∧
      commands'.map Command.withoutLocations = commands := by
  have hs : ∀ l ∈ words.map Word.located, l.Sound := by
    intro l hl
    obtain ⟨word, hword, rfl⟩ := List.mem_map.mp hl
    exact Word.read?_shortest (hv word hword)
  have hd : depthBehind? 0 ((words.map Word.located).map Located.lexeme) = some 0 := by
    clear hv hc hs
    induction words with
    | nil => rfl
    | cons word words ih => exact ih
  have hfields : ∀ field ∈ ([] : List (String × String)),
      Reading.IsField field.1.toList field.2.toList :=
    fun _ h => (List.not_mem_nil h).elim
  obtain ⟨hf, hl⟩ := Reading.read_write_of_sound hfields hs (by rw [hd]; rfl) rfl
  obtain ⟨made, hmade, hcommands⟩ := Outline.foldl_located hc .empty
  obtain ⟨commands', hp, he⟩ := parse_of_rewritten hf hl (by rw [hmade]; exact ⟨rfl, rfl⟩)
    (by rw [hmade]; rfl)
  refine ⟨commands', hp, ?_⟩
  rw [he, hmade, List.map_nil, List.nil_append, ← hcommands]
  exact congrArg _ ((congrArg List.reverse (List.append_nil _)).trans made.reverse_reverse)

end LeadSheet
