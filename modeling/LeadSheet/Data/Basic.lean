import LeadSheet.Number.Basic
import LeadSheet.Number.RatioText

/-!
Plain data: what a command carries besides what it needs, what is asked for in settings, and what
is kept in the logs of a session. Data is taken as it comes; what is made of it decides which kinds
of data will do, and other kinds fail.
-/
namespace LeadSheet

inductive Datum where
  | none
  | truth (value : Bool)
  | number (value : Number)
  | text (value : String)
  | list (items : List Datum)
  /-- a list that does not change -/
  | tuple (items : List Datum)
  | record (fields : List (String × Datum))
  deriving Inhabited, Repr

namespace Datum

/-- A whole number. -/
@[match_pattern] abbrev whole (n : Int) : Datum := .number (.whole n)

/-- A text of one character. -/
def character (c : Char) : Datum := .text (String.ofList [c])

/-! ### What data can stand for -/

/-- Whether a datum stands for yes. Nothing, zero, and what is empty stand for no. -/
def holds : Datum → Bool
  | none => false
  | truth value => value
  | number value => !value.isZero
  | text value => value ≠ ""
  | list items | tuple items => !items.isEmpty
  | record fields => !fields.isEmpty

/-- The datum, unless it is nothing. -/
def toOption : Datum → Option Datum
  | none => .none
  | d => some d

/-- A number. Truth values count as one and zero. -/
def toNumber : Datum → Except Failure Number
  | truth value => .ok (.whole (if value then 1 else 0))
  | number value => .ok value
  | none | text _ | list _ | tuple _ | record _ => .error .wrongType

/-- A whole number of the first kind. -/
def toInt (d : Datum) : Except Failure Int := do
  match ← d.toNumber with
  | .whole n => return n
  | .ratio _ | .approx _ => throw .wrongType

def toText : Datum → Except Failure String
  | text value => .ok value
  | none | truth _ | number _ | list _ | tuple _ | record _ => .error .wrongType

/-- The integer that a datum stands for. Texts are read, and truth values count as numbers. -/
def readInt : Datum → Except Failure Int
  | text value => IntegerText.read value.toList
  | d => d.toInt

/-- The exact rational that a datum stands for. Texts are read. -/
def readRat : Datum → Except Failure Rat
  | text value => RatioText.read value
  | d => do (← d.toNumber).toRat

/-- The parts of a datum that has parts: the items of a list, the characters of a text, the keys of
a record. -/
def parts : Datum → Except Failure (List Datum)
  | list items | tuple items => .ok items
  | text value => .ok (value.toList.map character)
  | record fields => .ok (fields.map fun f => .text f.1)
  | none | truth _ | number _ => .error .wrongType

/-- A part by its place. -/
def part (d : Datum) (i : Nat) : Except Failure Datum :=
  match d with
  | record _ => .error .missingKey
  | d => do
    match (← d.parts)[i]? with
    | some item => return item
    | .none => throw .outOfRange

/-- All parts of a datum that must have a number of them. -/
def exactly (count : Nat) (d : Datum) : Except Failure (List Datum) := do
  let parts ← d.parts
  if parts.length < count then throw (.tooFewParts count parts.length)
  if count < parts.length then throw (.tooManyParts count)
  return parts

/-- The field of a record with a key, nothing if there is none. -/
def field (d : Datum) (key : String) : Datum :=
  match d with
  | record fields => (fields.lookup key).getD none
  | _ => none

/-- A record with a field changed, or added at the end. -/
def withField (d : Datum) (key : String) (value : Datum) : Except Failure Datum :=
  match d with
  | record fields =>
    if (fields.lookup key).isSome then
      .ok (record (fields.map fun f => if f.1 = key then (key, value) else f))
    else .ok (record (fields ++ [(key, value)]))
  | _ => .error .wrongType

/-- Whether a record has a field. -/
def hasField (d : Datum) (key : String) : Bool :=
  match d with
  | record fields => (fields.lookup key).isSome
  | _ => false

/-- Whether a datum can be a key: what can change can not. -/
def isKey : Datum → Bool
  | list _ | record _ => false
  | _ => true

mutual

/-- The datum with all its lists made into ones that do not change. Records are left alone. -/
def fixed : Datum → Datum
  | list items | tuple items => tuple (fixedAll items)
  | d => d

def fixedAll : List Datum → List Datum
  | [] => []
  | item :: items => item.fixed :: fixedAll items

end

/-! ### Equality -/

mutual

/-- Whether two data are the same: numbers of different kinds and truth values are compared as
numbers. -/
def same : Datum → Datum → Bool
  | none, none => true
  | text a, text b => a = b
  | list as, list bs => sameAll as bs
  | tuple as, tuple bs => sameAll as bs
  | record as, record bs => as.length = bs.length && sameFields as bs
  | a, b =>
    match a.toNumber, b.toNumber with
    | .ok m, .ok n => m.same n
    | _, _ => false

def sameAll : List Datum → List Datum → Bool
  | [], [] => true
  | a :: as, b :: bs => same a b && sameAll as bs
  | _, _ => false

def sameFields : List (String × Datum) → List (String × Datum) → Bool
  | [], _ => true
  | (key, a) :: as, bs => ((bs.lookup key).map fun b => same a b).getD false && sameFields as bs

end

mutual

/-- Whether two data are equal in all their parts. -/
def identical : Datum → Datum → Bool
  | none, none => true
  | truth a, truth b => a = b
  | number a, number b => a = b
  | text a, text b => a = b
  | list as, list bs => identicalAll as bs
  | tuple as, tuple bs => identicalAll as bs
  | record as, record bs => identicalFields as bs
  | _, _ => false

def identicalAll : List Datum → List Datum → Bool
  | [], [] => true
  | a :: as, b :: bs => identical a b && identicalAll as bs
  | _, _ => false

def identicalFields : List (String × Datum) → List (String × Datum) → Bool
  | [], [] => true
  | (key, a) :: as, (key', b) :: bs => key = key' && identical a b && identicalFields as bs
  | _, _ => false

end

mutual

theorem eq_of_identical : ∀ a b : Datum, a.identical b = true → a = b
  | none, b => by cases b <;> simp [identical]
  | truth _, b => by cases b <;> simp [identical]
  | number _, b => by cases b <;> simp [identical]
  | text _, b => by cases b <;> simp [identical]
  | list as, b => by cases b <;> simp [identical]; exact eq_of_identicalAll as _
  | tuple as, b => by cases b <;> simp [identical]; exact eq_of_identicalAll as _
  | record as, b => by cases b <;> simp [identical]; exact eq_of_identicalFields as _

theorem eq_of_identicalAll : ∀ as bs : List Datum, identicalAll as bs = true → as = bs
  | [], bs => by cases bs <;> simp [identicalAll]
  | a :: as, [] => by simp [identicalAll]
  | a :: as, b :: bs => by
    simp only [identicalAll, Bool.and_eq_true, List.cons.injEq]
    exact fun h => ⟨eq_of_identical a b h.1, eq_of_identicalAll as bs h.2⟩

theorem eq_of_identicalFields :
    ∀ as bs : List (String × Datum), identicalFields as bs = true → as = bs
  | [], bs => by cases bs <;> simp [identicalFields]
  | _ :: _, [] => by simp [identicalFields]
  | (key, a) :: as, (key', b) :: bs => by
    simp only [identicalFields, Bool.and_eq_true, decide_eq_true_eq, List.cons.injEq, Prod.mk.injEq]
    exact fun h => ⟨⟨h.1.1, eq_of_identical a b h.1.2⟩, eq_of_identicalFields as bs h.2⟩

end

mutual

theorem identical_self : ∀ a : Datum, a.identical a = true
  | none | truth _ | number _ | text _ => by simp [identical]
  | list as => by simpa [identical] using identicalAll_self as
  | tuple as => by simpa [identical] using identicalAll_self as
  | record as => by simpa [identical] using identicalFields_self as

theorem identicalAll_self : ∀ as : List Datum, identicalAll as as = true
  | [] => rfl
  | a :: as => by simp [identicalAll, identical_self a, identicalAll_self as]

theorem identicalFields_self : ∀ as : List (String × Datum), identicalFields as as = true
  | [] => rfl
  | (_, a) :: as => by simp [identicalFields, identical_self a, identicalFields_self as]

end

theorem identical_iff {a b : Datum} : a.identical b = true ↔ a = b :=
  ⟨eq_of_identical a b, fun h => h ▸ identical_self a⟩

instance : DecidableEq Datum := fun _ _ => decidable_of_iff _ identical_iff

end Datum
end LeadSheet
