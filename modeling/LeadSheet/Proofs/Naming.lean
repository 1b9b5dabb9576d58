import LeadSheet.Markup.Location
import LeadSheet.Pitch.NoteName
import LeadSheet.Proofs.Outcome
import LeadSheet.Timeline.Ticks

/-!
Computations that never fail because of a note name: those that reckon with numbers, and those that
take numbers from data, whatever they are given.
-/
namespace LeadSheet

/-- Whether a failure is about the form of a note name, or of a root. -/
def Failure.isNoteFormat : Failure → Bool
  | .noPitch _ | .noLetter _ | .notBareLetter _ | .noKeyLetter _ | .noRoot _ => true
  | _ => false

/-- A name that has a pitch. -/
def NoteName.Readable (name : String) : Prop := ∃ p, pitch name = .ok p

end LeadSheet

/-- What a computation gives is good, and where it fails, this is not because of a note name. -/
abbrev Except.WellNamed {α : Type} (x : Except LeadSheet.Failure α) (good : α → Prop) : Prop :=
  x.Yields good fun e => e.isNoteFormat = false

/-- A computation that never fails because of a note name. -/
abbrev Except.Nameless {α : Type} (x : Except LeadSheet.Failure α) : Prop :=
  x.WellNamed fun _ => True

/-- A value is the one that the computation gives. -/
theorem Except.Nameless.self {α : Type} {x : Except LeadSheet.Failure α} (h : x.Nameless) :
    x.WellNamed fun a => x = .ok a := by
  cases h with
  | ok => exact .ok rfl
  | error he => exact .error he

theorem Except.nameless_pure {α : Type} (a : α) : (pure a : Except LeadSheet.Failure α).Nameless :=
  .ok trivial

/-- A computation goes on from a value that does not matter. -/
theorem Except.Nameless.bind {α β : Type} {x : Except LeadSheet.Failure α}
    {f : α → Except LeadSheet.Failure β} {goal : β → Prop} (h : x.Nameless)
    (hf : ∀ a, (f a).WellNamed goal) : (x >>= f).WellNamed goal :=
  Except.Yields.bind h fun a _ => hf a

theorem Except.wellNamed_mapM {α β : Type} {f : α → Except LeadSheet.Failure β} {xs : List α}
    {good : β → Prop} (h : ∀ x ∈ xs, (f x).WellNamed good) :
    (xs.mapM f).WellNamed fun ys => ∀ y ∈ ys, good y := by
  have hall : (xs.mapM f).Yields
      (fun ys => (∀ x ∈ xs, ∃ y ∈ ys, good y) ∧ ∀ y ∈ ys, ∃ x ∈ xs, good y)
      fun e => ∃ x ∈ xs, e.isNoteFormat = false := Except.yields_mapM h
  refine hall.mono ?_ ?_
  · rintro ys ⟨-, hys⟩ y hy
    obtain ⟨_, -, hgood⟩ := hys y hy
    exact hgood
  · rintro e ⟨_, -, he⟩
    exact he

theorem Except.nameless_filterM {α : Type} {p : α → Except LeadSheet.Failure Bool} {xs : List α}
    (h : ∀ x ∈ xs, (p x).Nameless) : (xs.filterM p).Nameless := by
  cases hxs : xs.filterM p with
  | ok ys => exact .ok trivial
  | error e =>
    obtain ⟨x, hx, he⟩ := Except.exists_of_filterM_eq_error hxs
    exact .error (he ▸ h x hx).of_error

namespace LeadSheet
open Except (nameless_pure)

/-! ### Numbers -/

namespace Number

theorem nameless_nearest (q : Rat) : (nearest q).Nameless := by
  rw [nearest]
  split
  · exact .error rfl
  · exact .ok trivial

private theorem nameless_toBinary64 (a : Number) : a.toBinary64.Nameless := by
  cases a with
  | whole n => exact nameless_nearest n
  | ratio q => exact nameless_nearest q
  | approx x => exact .ok trivial

private theorem nameless_lift (onWhole : Int → Int → Int) (onRatio : Rat → Rat → Rat)
    (onApprox : Binary64 → Binary64 → Binary64) (a b : Number) :
    (lift onWhole onRatio onApprox a b).Nameless := by
  unfold lift
  split
  · exact .ok trivial
  · exact (nameless_toBinary64 _).bind fun _ => nameless_pure _
  · exact (nameless_toBinary64 _).bind fun _ => nameless_pure _
  · exact .ok trivial

theorem nameless_add (a b : Number) : (a.add b).Nameless := nameless_lift _ _ _ a b

theorem nameless_sub (a b : Number) : (a.sub b).Nameless := nameless_lift _ _ _ a b

theorem nameless_mul (a b : Number) : (a.mul b).Nameless := nameless_lift _ _ _ a b

private theorem nameless_wholeQuotient (m n : Int) : (wholeQuotient m n).Nameless := by
  rw [wholeQuotient]
  split
  · exact .ok trivial
  · exact (nameless_nearest _).bind fun _ => nameless_pure _

/-- A guard against zero in front of a value. -/
theorem nameless_guarded {p : Prop} [Decidable p] (a : Number) :
    (if p then .error .divisionByZero else pure a : Except Failure Number).Nameless := by
  split
  · exact .error rfl
  · exact .ok trivial

theorem nameless_div (a b : Number) : (a.div b).Nameless := by
  unfold div
  split
  · split
    · exact .error rfl
    · exact nameless_wholeQuotient _ _
  · split
    · exact (nameless_toBinary64 _).bind fun _ => nameless_guarded _
    · exact (nameless_toBinary64 _).bind fun _ => nameless_guarded _
    · exact nameless_guarded _

theorem nameless_floorDiv (a b : Number) : (a.floorDiv b).Nameless := by
  unfold floorDiv
  split
  · exact (nameless_toBinary64 _).bind fun _ => nameless_guarded _
  · exact (nameless_toBinary64 _).bind fun _ => nameless_guarded _
  · exact nameless_guarded _

private theorem nameless_toInt (rule : Rat → Int) (a : Number) : (a.toInt rule).Nameless := by
  unfold toInt
  split
  · exact .error rfl
  · exact .error rfl
  · exact .ok trivial

private theorem nameless_toRat (a : Number) : a.toRat.Nameless := by
  unfold toRat
  split
  · exact .error rfl
  · exact .error rfl
  · exact .ok trivial

private theorem nameless_approxTwoPow (exponent : Rat) : (approxTwoPow exponent).Nameless := by
  rw [approxTwoPow]
  split
  · exact .error rfl
  · exact .ok trivial

theorem nameless_twoPow (a : Number) : a.twoPow.Nameless := by
  unfold twoPow
  split
  · split
    · exact .ok trivial
    · exact nameless_approxTwoPow _
  · split
    · exact .ok trivial
    · exact (nameless_nearest _).bind fun _ => nameless_approxTwoPow _
  · exact .ok trivial
  · exact .ok trivial
  · exact nameless_approxTwoPow _

end Number

/-! ### Data -/

namespace IntegerText

private theorem nameless_read (cs : List Char) : (read cs).Nameless := by
  rw [read]
  split
  · exact .ok trivial
  · exact .error rfl

end IntegerText

namespace RatioText

private theorem nameless_of_unsigned? {cs : List Char} {ratio : Except Failure Rat}
    (h : unsigned? cs = some ratio) : ratio.Nameless := by
  rw [unsigned?] at h
  generalize spanDigits cs = parts at h
  obtain ⟨whole, rest⟩ := parts
  dsimp only at h
  split at h
  · obtain ⟨numerator, -, h⟩ := Option.bind_eq_some_iff.mp h
    obtain ⟨denominator, -, h⟩ := Option.bind_eq_some_iff.mp h
    cases h
    split
    · exact .error rfl
    · exact .ok trivial
  · obtain ⟨ratio, -, h⟩ := Option.bind_eq_some_iff.mp h
    cases h
    exact .ok trivial
  · obtain ⟨ratio, -, h⟩ := Option.bind_eq_some_iff.mp h
    cases h
    exact .ok trivial

private theorem nameless_read (text : String) : (read text).Nameless := by
  have hget {ratio? : Option (Except Failure Rat)} (h : ∀ ratio ∈ ratio?, ratio.Nameless) :
      (ratio?.getD (.error (.notARatio text))).Nameless := by
    cases ratio? with
    | none => exact .error rfl
    | some ratio => exact h ratio rfl
  rw [read]
  split
  · refine hget fun ratio hratio => ?_
    obtain ⟨unsigned, hu, rfl⟩ := Option.map_eq_some_iff.mp hratio
    exact (nameless_of_unsigned? hu).map fun _ _ => trivial
  · exact hget fun ratio hratio => nameless_of_unsigned? hratio
  · exact hget fun ratio hratio => nameless_of_unsigned? hratio

end RatioText

namespace Datum

private theorem nameless_toNumber (d : Datum) : d.toNumber.Nameless := by
  cases d with
  | truth | number => exact .ok trivial
  | none | text | list | tuple | record => exact .error rfl

theorem nameless_toInt (d : Datum) : d.toInt.Nameless := by
  refine d.nameless_toNumber.bind fun a => ?_
  cases a with
  | whole n => exact .ok trivial
  | ratio | approx => exact .error rfl

theorem nameless_readInt (d : Datum) : d.readInt.Nameless := by
  cases d with
  | text value => exact IntegerText.nameless_read _
  | none | truth | number | list | tuple | record => exact nameless_toInt _

private theorem nameless_readRat (d : Datum) : d.readRat.Nameless := by
  cases d with
  | text value => exact RatioText.nameless_read value
  | none | truth | number | list | tuple | record =>
    exact (nameless_toNumber _).bind fun a => a.nameless_toRat

end Datum

theorem Location.nameless_fixed (location : Location) : location.fixed.Nameless := by
  cases location with
  | span span => exact .ok trivial
  | other d =>
    refine Except.Nameless.bind ?_ fun _ => nameless_pure _
    cases d with
    | text | list | tuple | record => exact .ok trivial
    | none | truth | number => exact .error rfl

namespace Ticks

theorem nameless_dotted (dots : Int) : (dotted dots).Nameless := by
  rw [dotted]
  split
  · exact .error rfl
  · exact .ok trivial

theorem nameless_round (ticks : Number) : (round ticks).Nameless :=
  (ticks.nameless_add _).bind fun a => a.nameless_toInt _

theorem nameless_ofBeats (beats : Datum) : (ofBeats beats).Nameless :=
  beats.nameless_readRat.bind fun _ => nameless_pure _

theorem nameless_toBeats (ticks : Rat) : (toBeats ticks : Except Failure Number).Nameless :=
  (Number.nameless_nearest _).bind fun _ => nameless_pure _

end Ticks
end LeadSheet
