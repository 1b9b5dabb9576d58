import LeadSheet.Markup.Command
import LeadSheet.Pitch.NoteName

/-!
Commands as plain data: a list of a tag and what belongs to it. Notes and rests have a record with
their options. A command is read part by part, in the order in which the parts are needed; data that
makes no command becomes one that is not valid.
-/
namespace LeadSheet

/-- An option that may be left out; what stands for no counts as left out. -/
def Datum.option (opts : Datum) (key : String) (read : Datum → Except Failure α) :
    Except Failure (Option α) :=
  if (opts.field key).holds then return some (← read (opts.field key)) else return .none

namespace Command

/-- The tags of changes of tempo. -/
def tempoTags : List (String × Tempo) :=
  [("halfTime", .half), ("doubleTime", .double), ("tripleTime", .triple)]

/-- The options of a mark. -/
def markKey : Mark → String
  | .sharp => "sharp"
  | .flat => "flat"
  | .natural => "natural"

/-- A part that must not be missing. -/
def part (parts : List Datum) (i : Nat) : Except Failure Datum :=
  match parts[i]? with
  | some d => .ok d
  | none => .error .outOfRange

/-- The options among the parts, empty if there are none. -/
def options (parts : List Datum) (i : Nat) : Except Failure Datum :=
  match parts[i]? with
  | none => .ok (.record [])
  | some (.record fields) => .ok (.record fields)
  | some d => if d.holds then .error .noAttribute else .ok (.record [])

/-- The timing in the options of a note or rest. -/
def timing (opts : Datum) : Except Failure Timing := do
  let multiplier ← opts.option "duration" Datum.toNumber
  let dots ← opts.option "dots" Datum.toInt
  return ⟨multiplier, dots, (opts.field "start").toOption⟩

/-- The name of a note. A pitch will do where no accidental is put to the name. -/
def noteName (mark : Option Mark) : Datum → Except Failure String
  | .text name => .ok name
  | d => if mark.isSome then .error .wrongType else return NoteName.ofPitch (← d.toInt)

/-- The note with a name and options. A negative number of dots is noticed before the name is
looked at. -/
def noteOf (name opts : Datum) : Except Failure Command := do
  let timing ← timing opts
  let asks (mark : Mark) : Bool := (opts.field (markKey mark)).holds
  let mark := Mark.ofFlags? (asks .sharp) (asks .flat) (asks .natural)
  match noteName mark name with
  | .ok name => return note name mark timing (Location.ofDatum? (opts.field "location"))
  | .error e => if timing.dots.getD 0 < 0 then throw .negativeDots else throw e

/-- The rest with options. If it has a start of its own nothing else counts. -/
def restOf (opts : Datum) : Except Failure Command := do
  match (opts.field "start").toOption with
  | some start => return rest ⟨none, none, some start⟩
  | none => return rest (← timing opts)

/-- The command with a tag, other than a block, and its parts. -/
def ofTag (tag : String) (parts : List Datum) : Except Failure Command := do
  if let some change := tempoTags.lookup tag then
    return tempo change (← parts[1]?.mapM Datum.toInt)
  match tag with
  | "frontmatter" => return field (parts.getD 1 .none) (parts.getD 2 .none)
  | "note" => noteOf (← part parts 1) (← options parts 2)
  | "rest" => restOf (← options parts 1)
  | "restoreStartPosition" => return backToStart
  | "measure" => return measure (← (parts.getD 1 .none).toOption.mapM Datum.toInt)
  | "setTrack" => return track (← part parts 1)
  | "clef" => return clef (← part parts 1)
  | "keySignature" =>
    let count ← part parts 1
    let location ← (Location.ofDatum? (parts.getD 2 .none)).mapM Location.fixed
    return keySignature count location
  | "timeSignature" =>
    let beats ← part parts 1
    match ← part parts 2 with
    | .none => return timeSignature beats 1
    | unit => return timeSignature beats (← unit.toInt)
  | "macro" => return chord (← (← part parts 1).toText)
  | "string" => return remark (← part parts 1)
  | _ => return unknown (.tuple parts)

/-- A text is taken for a command with its first character as the tag. -/
def ofTagText (text : String) : Command :=
  if text = "" then invalid .outOfRange else unknown (.text text)

mutual

/-- The command that a datum stands for. -/
def ofDatum : Datum → Command
  | .list parts | .tuple parts => ofParts parts
  | .text text => ofTagText text
  | .record _ => invalid .missingKey
  | _ => invalid .wrongType

/-- The command of a tag and what belongs to it. -/
def ofParts : List Datum → Command
  | [] => invalid .outOfRange
  | .text "block" :: .list nodes :: _ | .text "block" :: .tuple nodes :: _ => block (ofAll nodes)
  | .text "block" :: .text text :: _ =>
    block (text.toList.map fun c => unknown (.character c))
  | .text "block" :: .record fields :: _ => block (fields.map fun f => ofTagText f.1)
  | [.text "block"] => invalid .outOfRange
  | .text "block" :: _ => invalid .wrongType
  | .text tag :: tail =>
    match ofTag tag (.text tag :: tail) with
    | .ok command => command
    | .error cause => invalid cause
  | tag :: tail => if tag.isKey then unknown (.tuple (tag :: tail)) else invalid .wrongType

def ofAll : List Datum → List Command
  | [] => []
  | node :: nodes => ofDatum node :: ofAll nodes

end

/-- The options of a timing. -/
def timingFields (t : Timing) : List (String × Datum) :=
  (t.multiplier.map fun m => ("duration", Datum.number m)).toList
    ++ (t.dots.map fun n => ("dots", Datum.whole n)).toList
    ++ (t.start.map fun start => ("start", start)).toList

/-- A tag with what belongs to it. -/
def tagged (tag : String) (parts : List Datum) : Datum := .tuple (.text tag :: parts)

mutual

/-- A command as data. One that is not valid has no parts left. -/
def toDatum : Command → Datum
  | field key value => tagged "frontmatter" [key, value]
  | note name mark timing location =>
    let opts := timingFields timing
      ++ (mark.map fun mark => (markKey mark, Datum.truth true)).toList
      ++ (location.map fun l => ("location", l.toDatum)).toList
    tagged "note" [.text name, .record opts]
  | rest timing =>
    let opts := timingFields timing
    tagged "rest" (if opts.isEmpty then [] else [.record opts])
  | block commands => tagged "block" [.list (toData commands)]
  | backToStart => tagged "restoreStartPosition" []
  | tempo change count =>
    let tag := (tempoTags.find? fun entry => entry.2 = change).map Prod.fst
    tagged (tag.getD "") (count.map Datum.whole).toList
  | measure number => tagged "measure" (number.map Datum.whole).toList
  | track number => tagged "setTrack" [number]
  | clef sign => tagged "clef" [sign]
  | keySignature count location =>
    tagged "keySignature" [count, (location.map Location.toDatum).getD .none]
  | timeSignature beats unit => tagged "timeSignature" [beats, .whole unit]
  | chord name => tagged "macro" [.text name]
  | remark text => tagged "string" [text]
  | unknown node => node
  | invalid _ => .tuple []

def toData : List Command → List Datum
  | [] => []
  | command :: commands => command.toDatum :: toData commands

end

end Command
end LeadSheet
