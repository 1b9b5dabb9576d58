import LeadSheet.Markup.DigitLimit

/-!
Tokens: the lexemes of a text with all that says how they were written left out. Blanks, comments
and text that makes no sense are gone; numbers, letters and quotes have one form only. The text
written from tokens has the same tokens again.
-/
namespace LeadSheet

/-- What stands behind a note or rest. The multiplier is its text, such as `*2` or `/4`. -/
structure TokenTiming where
  multiplier : Option String
  dots : Option Int
  start : Option Int
  deriving DecidableEq, Repr

/-- A token. Those that may be written in several ways keep the text they have. -/
inductive Token where
  | field (key value : String)
  | note (written letter : String) (accidental : Option String) (octave : Option Int)
    (timing : TokenTiming)
  | rest (written : String) (timing : TokenTiming)
  | command (text : String)
  | string (text : String)
  /-- a chord, with the `$` in front -/
  | chord (text : String)
  | opening (text : String)
  | closing (text : String)
  | bar (text : String)
  /-- a token of a kind that nothing is known about -/
  | other (kind text : String)
  deriving DecidableEq, Repr

namespace TokenTiming

/-- The timing of a note or rest that says nothing about it. -/
def plain : TokenTiming := ⟨none, none, none⟩

/-- The timing of a word, with its numbers in their shortest form. -/
def ofWritten (t : WrittenTiming) : TokenTiming where
  multiplier := t.scaling.map fun (scaling, n) =>
    String.ofList (scaling.toChar :: (toString n).toList)
  dots := if t.dots = 0 then none else some t.dots
  start := t.start.map Int.ofNat

/-- The text of a timing. -/
def text (t : TokenTiming) : String :=
  let dots := String.ofList (List.replicate (t.dots.getD 0).toNat '.')
  let start := match t.start with
    | none => ""
    | some n => "@" ++ toString n
  t.multiplier.getD "" ++ dots ++ start

end TokenTiming

namespace Token

/-- The text of a command, with its numbers in their shortest form. -/
def commandText : Word → String
  | .keySignature count => "ks" ++ toString count
  | .timeSignature beats unit => "ts" ++ toString beats ++ "/" ++ toString unit
  | .tempo tempo count =>
    String.ofList [tempo.toChar, 't'] ++ (count.map toString).getD ""
  | .measure number => "m" ++ (number.map toString).getD ""
  | .track number => "t" ++ toString number
  | .clef letter => String.ofList ['/', letter]
  | .note _ | .rest _ => ""

/-- The token of a word. -/
def ofWord (written : String) : Word → Token
  | .note n =>
    note written (String.ofList [n.letter.toChar.toLower])
      (n.mark.map fun mark => String.ofList [mark.toChar]) (n.octave.map Int.ofNat)
      (.ofWritten n.timing)
  | .rest timing => rest written (.ofWritten timing)
  | word => command (commandText word)

/-- The token of a lexeme; skipped text has none. -/
def ofLexeme? (l : Located) : Option Token :=
  match l.lexeme with
  | .word word => some (ofWord (String.ofList l.written) word)
  | .chord name => some (chord ("$" ++ name))
  | .opening => some (opening "\x7b")
  | .closing => some (closing "\x7d")
  | .bar => some (bar "|")
  | .quoted text _ _ => some (string text)
  | .skipped => none

/-- The text of a note. -/
def noteText (letter : String) (accidental : Option String) (octave : Option Int)
    (timing : TokenTiming) : String :=
  letter ++ accidental.getD "" ++ (octave.map toString).getD "" ++ timing.text

/-- The text of a rest. -/
def restText (timing : TokenTiming) : String := "r" ++ timing.text

/-- How a character stands in a string. -/
def escape (c : Char) : List Char :=
  if c = '\n' then ['\\', 'n'] else if c = '\\' || c = '"' then ['\\', c] else [c]

/-- The text of a string. -/
def stringText (text : String) : String :=
  String.ofList ('"' :: (text.toList.flatMap escape ++ ['"']))

/-- The text of a token. -/
def text : Token → String
  | field key value => "# " ++ key ++ ": " ++ value
  | note _ letter accidental octave timing => noteText letter accidental octave timing
  | rest _ timing => restText timing
  | string text => stringText text
  | command text | chord text | opening text | closing text | bar text | other _ text => text

/-- What stands between two tokens: a line ends behind a field, and no blank stands behind an
opening brace or in front of a closing one. -/
def gap : Token → Token → String
  | opening _, _ => ""
  | _, closing _ => ""
  | field .., _ => "\n"
  | _, _ => " "

/-- The texts of tokens behind another one, with what stands between them. -/
def textsBehind : Token → List Token → List String
  | _, [] => []
  | before, token :: tail => gap before token :: token.text :: textsBehind token tail

/-- The text written from tokens. -/
def write : List Token → String
  | [] => ""
  | token :: tail => String.join (token.text :: textsBehind token tail)

end Token

/-- The tokens of a document, its fields first. -/
def Document.tokens (d : Document) : List Token :=
  (d.fields.map fun (key, value) => Token.field key value) ++ d.lexemes.filterMap Token.ofLexeme?

/-- The tokens of a text. -/
def tokens (text : String) : List Token := (Document.read text).tokens

/-- The tokens of a text, unless it has a number with too many digits. -/
def checkedTokens (text : String) : Except Failure (List Token) :=
  match (Document.read text).tokenExcess? with
  | some count => .error (.tooManyDigits count)
  | none => .ok (tokens text)

end LeadSheet
