import LeadSheet.Data.Basic
import LeadSheet.Text.Quoted

/-!
The text of data. Inside other data a text stands in quotes and a ratio is shown as such; alone, a
text is itself and a ratio is written like a number.
-/
namespace LeadSheet

/-- The text of a number inside other data. -/
def Number.shown : Number → String
  | ratio q => "Fraction(" ++ toString q.num ++ ", " ++ toString q.den ++ ")"
  | n => n.text

namespace Datum

/-- Shown data between two brackets. -/
def bracketed (opening : String) (items : List String) (closing : String) : String :=
  opening ++ ", ".intercalate items ++ closing

/-- Shown data in parentheses; a single datum has a comma behind it. -/
def inParentheses : List String → String
  | [item] => "(" ++ item ++ ",)"
  | items => bracketed "(" items ")"

mutual

/-- The text of a datum inside other data. -/
def shown : Datum → String
  | none => "None"
  | truth value => if value then "True" else "False"
  | number value => value.shown
  | text value => Text.quoted value
  | list items => bracketed "[" (shownAll items) "]"
  | tuple items => inParentheses (shownAll items)
  | record fields => bracketed "\x7b" (shownFields fields) "\x7d"

def shownAll : List Datum → List String
  | [] => []
  | item :: rest => item.shown :: shownAll rest

def shownFields : List (String × Datum) → List String
  | [] => []
  | (key, value) :: rest => (Text.quoted key ++ ": " ++ value.shown) :: shownFields rest

end

/-- The text of a datum that stands alone. -/
def display : Datum → String
  | text value => value
  | number value => value.text
  | d => d.shown

end Datum
end LeadSheet
