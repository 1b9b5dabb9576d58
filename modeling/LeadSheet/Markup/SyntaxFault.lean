import LeadSheet.Text.Quoted

/-!
What can be wrong with the text of a lead sheet, where it is wrong, and what was expected there.
-/
namespace LeadSheet

/-- A fault in a text. Positions count characters; the faults of something left open lie at the
end of the text. -/
inductive SyntaxFault where
  | unexpected (position : Nat) (text : String)
  | zeroDivisor (position : Nat) (text : String)
  | zeroDenominator (position : Nat) (text : String)
  | unclosedString (position : Nat) (quote : Char)
  | unclosedBlock (position : Nat)
  deriving DecidableEq, Repr

namespace SyntaxFault

/-- What may stand in a lead sheet. -/
def items : List String :=
  ["note", "rest", "key signature", "time signature", "tempo change", "measure", "track", "clef",
   "macro", "string", "block", "'|'", "comment", "whitespace"]

/-- Where the fault lies. -/
def position : SyntaxFault → Nat
  | unexpected p _ | zeroDivisor p _ | zeroDenominator p _ | unclosedString p _
  | unclosedBlock p => p

/-- What was expected there. -/
def expected : SyntaxFault → List String
  | unexpected .. => items
  | zeroDivisor .. => ["non-zero divisor"]
  | zeroDenominator .. => ["non-zero time signature denominator"]
  | unclosedString _ quote => [String.ofList ("closing quote ".toList ++ [quote])]
  | unclosedBlock _ => "'\x7d'" :: items

/-- The faulty text, empty at the end of the input. -/
def text : SyntaxFault → String
  | unexpected _ t | zeroDivisor _ t | zeroDenominator _ t => t
  | unclosedString .. | unclosedBlock _ => ""

/-- The wording of a fault: what was expected, what was found, and where. -/
def message (fault : SyntaxFault) : String :=
  let found := if fault.text.isEmpty then "end of input" else Text.quoted fault.text
  "expected " ++ ", ".intercalate fault.expected ++ " but " ++ found ++ " found at position "
    ++ toString fault.position

end SyntaxFault
end LeadSheet
