import LeadSheet.Harmony.ChordSymbol

/-!
Warnings: what went wrong without keeping an operation from giving its answer.
-/
namespace LeadSheet

inductive Warning where
  | unnamedChord (chord : Chord)
  /-- a chord marker whose block would have no length -/
  | rejectedChord (chord : Datum) (start stop : Number)
  | unknownCommand (node : Datum)
  deriving Repr

namespace Warning

/-- The wording of a warning. -/
def message : Warning → String
  | unnamedChord chord =>
    "don't know name of chord " ++ chord.root ++ " "
      ++ (Datum.tuple (chord.steps.map Datum.whole)).shown
  | rejectedChord chord start stop =>
    "rejecting chord " ++ chord.display ++ " at " ++ start.text ++ "-" ++ stop.text
  | unknownCommand node => "unknown command when compiling song: " ++ node.shown

end Warning

/-- What is to be said when the label of a chord is written. -/
def Chord.labelWarnings (chord : Chord) : List Warning :=
  if chord.shapeName? = none then [.unnamedChord chord] else []

end LeadSheet
