import LeadSheet.Markup.Command
import LeadSheet.Markup.Lexeme

/-!
The outline of a text: its commands, nested in blocks as the braces say. It is built up lexeme by
lexeme. What is wrong inside the text goes before what is left open at its end, and of several
faults the first one counts.
-/
namespace LeadSheet

/-- An outline in the making: the commands of the innermost open block, last first, those of the
blocks around it, and what has been found wrong so far. -/
structure Outline where
  commands : List Command
  enclosing : List (List Command)
  fault : Option SyntaxFault
  /-- the quote of a string that the end of the text leaves open -/
  openQuote : Option Char
  deriving Repr

namespace Outline

def empty : Outline := ⟨[], [], none, none⟩

def add (o : Outline) (command : Command) : Outline := { o with commands := command :: o.commands }

/-- Notes a fault, unless there was one before. -/
def blame (o : Outline) (fault : SyntaxFault) : Outline :=
  { o with fault := o.fault <|> some fault }

def openBlock (o : Outline) : Outline :=
  { o with commands := [], enclosing := o.commands :: o.enclosing }

/-- Ends the innermost block, which becomes a command of the block around it. -/
def closeBlock (o : Outline) : Outline :=
  match o.enclosing with
  | [] => o
  | outer :: enclosing =>
    { o with commands := .block o.commands.reverse :: outer, enclosing }

/-- Takes the next lexeme. -/
def take (o : Outline) (l : Located) : Outline :=
  match l.lexeme with
  | .word word =>
    match Command.ofWord l.start l.stop (String.ofList l.written) word with
    | .ok command => o.add command
    | .error fault => o.blame fault
  | .chord name => o.add (.chord name)
  | .opening => o.openBlock
  | .closing => o.closeBlock
  | .bar => o.add .backToStart
  | .quoted text quote closed =>
    let o := o.add (.remark (.text text))
    if closed then o else { o with openQuote := some quote }
  | .skipped => o.blame (.unexpected l.start (String.ofList l.written))

/-- The commands of a finished outline of a text of some length, or what is wrong with it. -/
def finish (o : Outline) (length : Nat) : Except SyntaxFault (List Command) :=
  match o.fault, o.openQuote, o.enclosing with
  | some fault, _, _ => .error fault
  | none, some quote, _ => .error (.unclosedString length quote)
  | none, none, _ :: _ => .error (.unclosedBlock length)
  | none, none, [] => .ok o.commands.reverse

end Outline

namespace Document

/-- The commands of a document, its fields first. -/
def commands (d : Document) : Except SyntaxFault (List Command) := do
  let commands ← (d.lexemes.foldl Outline.take .empty).finish d.length
  return (d.fields.map fun (key, value) => Command.field (.text key) (.text value)) ++ commands

end Document

/-- The commands of a text, or the fault that comes first in it. -/
def parse (text : String) : Except SyntaxFault (List Command) := (Document.read text).commands

end LeadSheet
