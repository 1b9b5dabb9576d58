import LeadSheet.Markup.Word

/-!
The lexemes of a lead sheet, read one character after the other. The reader keeps what it needs to
go on with the text: the word it is in, the open blocks, and the text it could not make sense of.
Text that no lexeme starts in is skipped and reported as one piece.

A text starts with fields, lines such as `# title: Song`; the lexemes follow.
-/
namespace LeadSheet

inductive Lexeme where
  | word (word : Word)
  /-- the name of a chord, written behind a `$` -/
  | chord (name : String)
  | opening
  | closing
  | bar
  /-- quoted text, with the escapes resolved -/
  | quoted (text : String) (quote : Char) (closed : Bool)
  | skipped
  deriving DecidableEq, Repr

/-- A lexeme with its place in the text and the characters it is written with. -/
structure Located where
  start : Nat
  written : List Char
  lexeme : Lexeme
  deriving DecidableEq, Repr

/-- The position behind the lexeme. -/
def Located.stop (l : Located) : Nat := l.start + l.written.length

namespace Reading

/-- What the reader is in the middle of. Characters are kept last first. -/
inductive Mode where
  | between
  | word (chars : List Char)
  | chord (chars : List Char)
  | comment
  /-- quoted text: what was written so far, what it stands for, and whether the last character
  was a backslash that may begin an escape -/
  | quoted (quote : Char) (written chars : List Char) (escaping : Bool)
  deriving DecidableEq, Repr

/-- A reader at a position of the text. Lexemes and skipped characters are kept last first. -/
structure Reader where
  position : Nat
  depth : Nat
  mode : Mode
  skipped : List Char
  found : List Located
  deriving DecidableEq, Repr

/-- Characters that end a word. -/
def endsWord (c : Char) : Bool := Text.isBlank c || "\x7b\x7d|#$\"'".toList.contains c

/-- The characters of chord names. -/
def isNameChar (c : Char) : Bool := c.isAlphanum || c = '_'

/-- The first part of a run of word characters that makes no word, and the word that the run ends
with. -/
def lastWord : List Char → List Char × Option (List Char × Word)
  | [] => ([], none)
  | c :: rest =>
    match Word.read? (c :: rest) with
    | some word => ([], some (c :: rest, word))
    | none =>
      let (bad, found) := lastWord rest
      (c :: bad, found)

/-- What a character stands for behind a backslash. -/
def escape? (quote c : Char) : Option Char :=
  if c = 'n' then some '\n' else if c = '\\' || c = quote then some c else none

namespace Reader

/-- Adds text that makes no sense to what is skipped. -/
def skip (r : Reader) (chars : List Char) : Reader :=
  { r with skipped := chars.reverse ++ r.skipped }

/-- Reports the skipped text, which ends at a position. -/
def flush (r : Reader) (stop : Nat) : Reader :=
  if r.skipped = [] then r
  else
    let written := r.skipped.reverse
    { r with skipped := [], found := ⟨stop - written.length, written, .skipped⟩ :: r.found }

/-- Adds a lexeme that ends at a position. -/
def emit (r : Reader) (stop : Nat) (written : List Char) (lexeme : Lexeme) : Reader :=
  let start := stop - written.length
  let r := r.flush start
  { r with found := ⟨start, written, lexeme⟩ :: r.found }

/-- Takes a run of word characters that ends here. -/
def takeRun (r : Reader) (run : List Char) : Reader :=
  match lastWord run with
  | (bad, none) => r.skip bad
  | (bad, some (written, word)) => (r.skip bad).emit r.position written (.word word)

/-- Ends the word that the reader is in. A chord sign without a chord name is skipped, and what
stands behind it is a word. -/
def endWord (r : Reader) : Reader :=
  match r.mode with
  | .word chars => { r.takeRun chars.reverse with mode := .between }
  | .chord chars =>
    let name := chars.reverse
    if name ≠ [] && name.all isNameChar then
      { r.emit r.position ('$' :: name) (.chord (String.ofList name)) with mode := .between }
    else { (r.skip ['$']).takeRun name with mode := .between }
  | _ => r

/-- Adds a lexeme of one character, the one at hand. -/
def sign (r : Reader) (c : Char) (lexeme : Lexeme) : Reader := r.emit (r.position + 1) [c] lexeme

/-- Takes a character that ends words. A closing brace without an open block is skipped. -/
def delimit (r : Reader) (c : Char) : Reader :=
  match c with
  | '#' => { r.flush r.position with mode := .comment }
  | '{' => { r.sign c .opening with depth := r.depth + 1 }
  | '}' =>
    if r.depth = 0 then r.skip [c] else { r.sign c .closing with depth := r.depth - 1 }
  | '|' => r.sign c .bar
  | '$' => { r with mode := .chord [] }
  | '"' | '\'' => { r.flush r.position with mode := .quoted c [c] [] false }
  | _ => r.flush r.position

/-- Takes a character inside quoted text. -/
def quote (r : Reader) (quote : Char) (written chars : List Char) (escaping : Bool) (c : Char) :
    Reader :=
  let written := c :: written
  if escaping then
    let chars := match escape? quote c with
      | some meant => meant :: chars
      | none => c :: '\\' :: chars
    { r with mode := .quoted quote written chars false }
  else if c = quote then
    let text := String.ofList chars.reverse
    { r.emit (r.position + 1) written.reverse (.quoted text quote true) with mode := .between }
  else if c = '\\' then { r with mode := .quoted quote written chars true }
  else { r with mode := .quoted quote written (c :: chars) false }

/-- Takes one character. -/
def take (r : Reader) (c : Char) : Reader :=
  match r.mode with
  | .comment => if c = '\n' then { r with mode := .between } else r
  | .quoted q written chars escaping => r.quote q written chars escaping c
  | .between => if endsWord c then r.delimit c else { r with mode := .word [c] }
  | .word chars =>
    if endsWord c then r.endWord.delimit c else { r with mode := .word (c :: chars) }
  | .chord chars =>
    if endsWord c then r.endWord.delimit c else { r with mode := .chord (c :: chars) }

/-- Takes one character and goes on to the next position. -/
def feed (r : Reader) (c : Char) : Reader := { r.take c with position := r.position + 1 }

/-- Takes the end of the text. -/
def finish (r : Reader) : Reader :=
  match r.mode with
  | .comment => r
  | .quoted q written chars escaping =>
    let chars := if escaping then '\\' :: chars else chars
    r.emit r.position written.reverse (.quoted (String.ofList chars.reverse) q false)
  | _ => r.endWord.flush r.position

end Reader

/-- A reader before the character at a position. -/
def start (position : Nat) : Reader := ⟨position, 0, .between, [], []⟩

/-- The lexemes of a text that starts at a position, in their order. -/
def lexemes (position : Nat) (cs : List Char) : List Located :=
  (cs.foldl Reader.feed (start position)).finish.found.reverse

/-- Blanks that may stand inside a line. -/
def isGap (c : Char) : Bool := c = ' ' || c = '\t'

def isKeyStart (c : Char) : Bool := c.isAlpha || c = '_'

/-- The field a text starts with: its key, its value, and the rest of the text from the end of
the line on. -/
def field? : List Char → Option (String × String × List Char)
  | '#' :: rest =>
    let (key, rest) := (rest.dropWhile isGap).span isNameChar
    match rest.dropWhile isGap with
    | ':' :: rest =>
      if (key.head?.map isKeyStart).getD false then
        let (value, rest) := (rest.dropWhile isGap).span (· ≠ '\n')
        some (String.ofList key, String.ofList (Text.trim value), rest)
      else none
    | _ => none
  | _ => none

/-- The fields at the start of a text, with blanks around them, and the rest of the text. At most
`fuel` fields and blanks are taken. -/
def fieldsUpTo : Nat → List Char → List (String × String) × List Char
  | 0, cs => ([], cs)
  | fuel + 1, cs =>
    match field? cs with
    | some (key, value, rest) =>
      let (fields, rest) := fieldsUpTo fuel rest
      ((key, value) :: fields, rest)
    | none =>
      match cs with
      | [] => ([], [])
      | c :: rest => if Text.isBlank c then fieldsUpTo fuel rest else ([], c :: rest)

/-- The fields at the start of a text, and the rest of the text. Each step takes a character, so
that there are no more steps than characters. -/
def fields (cs : List Char) : List (String × String) × List Char := fieldsUpTo cs.length cs

end Reading

/-- A text taken apart: its fields, its lexemes, and how long it is. -/
structure Document where
  fields : List (String × String)
  lexemes : List Located
  length : Nat
  deriving DecidableEq, Repr

/-- Takes a text apart. -/
def Document.read (text : String) : Document :=
  let cs := text.toList
  let (fields, rest) := Reading.fields cs
  ⟨fields, Reading.lexemes (cs.length - rest.length) rest, cs.length⟩

end LeadSheet
