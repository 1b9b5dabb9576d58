import LeadSheet.Data.Shown
import LeadSheet.Packed.Encode

/-!
Tokens as plain data: nine fields, of which each kind of token uses some. What is not used may be
any data. What is used is looked at only when it is needed, so that a token that cannot be packed
may still have a text, and the other way round.
-/
namespace LeadSheet

structure TokenFields where
  kind : Datum
  value : Datum
  letter : Datum
  accidental : Datum
  octave : Datum
  multiplier : Datum
  dots : Datum
  start : Datum
  key : Datum
  deriving DecidableEq, Repr

namespace TokenFields

/-- The fields in a row. Kind and value must be there, and others may be left out at the end. -/
def ofData (parts : List Datum) : Except Failure TokenFields :=
  let part (i : Nat) : Datum := parts.getD i .none
  if parts.length < 2 || 9 < parts.length then .error .wrongType
  else .ok ⟨part 0, part 1, part 2, part 3, part 4, part 5, part 6, part 7, part 8⟩

def toData (f : TokenFields) : List Datum :=
  [f.kind, f.value, f.letter, f.accidental, f.octave, f.multiplier, f.dots, f.start, f.key]

/-- Fields of a kind with a value and nothing else. -/
def plain (kind : String) (value : Datum) : TokenFields :=
  ⟨.text kind, value, .none, .none, .none, .none, .none, .none, .none⟩

/-- Fields with those of a timing filled in. -/
def withTiming (f : TokenFields) (t : TokenTiming) : TokenFields :=
  let number (n : Option Int) : Datum := (n.map Datum.whole).getD .none
  { f with
    multiplier := (t.multiplier.map Datum.text).getD .none
    dots := number t.dots
    start := number t.start }

/-- The fields of a token. -/
def ofToken : Token → TokenFields
  | .field key value => { plain "frontmatter" (.text value) with key := .text key }
  | .note written letter accidental octave timing =>
    { plain "note" (.text written) with
      letter := .text letter
      accidental := (accidental.map Datum.text).getD .none
      octave := (octave.map Datum.whole).getD .none }.withTiming timing
  | .rest written timing => (plain "rest" (.text written)).withTiming timing
  | .command text => plain "command" (.text text)
  | .string text => plain "string" (.text text)
  | .chord text => plain "macro" (.text text)
  | .opening text => plain "block_start" (.text text)
  | .closing text => plain "block_end" (.text text)
  | .bar text => plain "pipe" (.text text)
  | .other kind text => plain kind (.text text)

/-! ### Texts -/

/-- A text that is left out where a datum stands for no. -/
def optionalText (d : Datum) : Except Failure String := if d.holds then d.toText else .ok ""

/-- The text of a datum, unless it is nothing. -/
def shownUnlessNone (before : String) (d : Datum) : String :=
  if d = .none then "" else before ++ d.display

/-- The text of the timing. -/
def timingText (f : TokenFields) : Except Failure String := do
  let multiplier ← optionalText f.multiplier
  let dots ← if f.dots.holds then f.dots.toInt else pure 0
  return multiplier ++ String.ofList (List.replicate dots.toNat '.')
    ++ shownUnlessNone "@" f.start

/-- The text of a note, or of a rest. -/
def noteText (f : TokenFields) : Except Failure String := do
  if f.kind = .text "rest" then return "r" ++ (← f.timingText)
  let letter ← f.letter.toText
  let accidental ← optionalText f.accidental
  return letter ++ accidental ++ shownUnlessNone "" f.octave ++ (← f.timingText)

/-- The text of a token. The parts of what stands in a string may be texts themselves. -/
def text (f : TokenFields) : Except Failure String := do
  match f.kind with
  | .text "frontmatter" => return "# " ++ f.key.display ++ ": " ++ f.value.display
  | .text "note" | .text "rest" => f.noteText
  | .text "string" =>
    return Token.stringText (String.join (← (← f.value.parts).mapM Datum.toText))
  | _ => f.value.toText

/-- What stands between tokens of two kinds: a line ends behind a field, and no blank stands behind
an opening brace or in front of a closing one. -/
def gap (before kind : Datum) : String :=
  if before = .text "block_start" || kind = .text "block_end" then ""
  else if before = .text "frontmatter" then "\n" else " "

/-- The texts of tokens behind another one, with what stands between them. -/
def textsBehind (before : Datum) : List TokenFields → Except Failure (List String)
  | [] => .ok []
  | f :: rest => do return gap before f.kind :: (← f.text) :: (← textsBehind f.kind rest)

/-- The text written from tokens. -/
def write : List TokenFields → Except Failure String
  | [] => .ok ""
  | f :: rest => do return String.join ((← f.text) :: (← textsBehind f.kind rest))

/-! ### Packing -/

/-- A text that is to be packed. -/
def packedText : Datum → Except Failure String
  | .text value => .ok value
  | _ => .error .noAttribute

/-- A name that is sought in a table, or nothing where a datum stands for no. -/
def soughtName (d : Datum) : Except Failure (Option String) :=
  match d with
  | .text name => .ok (some name)
  | d =>
    if !d.holds then .ok none else .error (if d.isKey then .missingKey else .wrongType)

/-- The timing that is to be packed. -/
def timing (f : TokenFields) : Except Failure TokenTiming := do
  let multiplier ← if f.multiplier.holds then some <$> f.multiplier.toText else pure none
  let dots ← if f.dots.holds then some <$> f.dots.toInt else pure none
  let start ← f.start.toOption.mapM Datum.toInt
  return ⟨multiplier, dots, start⟩

/-- The token that is to be packed. -/
def toToken (f : TokenFields) : Except Failure Token := do
  match f.kind with
  | .text "frontmatter" => return .field (← packedText f.key) (← packedText f.value)
  | .text "block_start" => return .opening ""
  | .text "block_end" => return .closing ""
  | .text "pipe" => return .bar ""
  | .text "note" =>
    let accidental ← soughtName f.accidental
    let letter ← packedText f.letter
    let octave ← f.octave.toOption.mapM Datum.toInt
    return .note "" letter accidental octave (← f.timing)
  | .text "rest" => return .rest "" (← f.timing)
  | .text "command" => return .command (← packedText f.value)
  | .text "string" => return .string (← packedText f.value)
  | .text "macro" =>
    match f.value with
    | .list _ | .tuple _ => throw .noAttribute
    | value => return .chord (← value.toText)
  | kind => return .other kind.display ""

/-- The bytes of tokens. The fields are taken first; a token that cannot be packed is noticed when
it is reached. -/
def encode (tokens : List TokenFields) : Except Failure Bytes := do
  let fields ← (tokens.filter fun f => f.kind = .text "frontmatter").mapM toToken
  let head ← Packed.packed (Packed.writeHead (Packed.fieldsOf fields))
  let rest ← tokens.mapM fun f => do
    if f.kind = .text "frontmatter" then return []
    Packed.writeToken (← f.toToken)
  return Packed.magic ++ head ++ rest.flatten

end TokenFields
end LeadSheet
