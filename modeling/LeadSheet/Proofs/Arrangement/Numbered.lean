import LeadSheet.Arrangement
import LeadSheet.Proofs.Timeline.Measure

/-!
Measures with and without numbers. A piece in measures that follow each other is the same piece when
the measures have their numbers, as long as nothing in a measure goes on behind its end.
-/
namespace LeadSheet
variable {α : Type}

namespace Command

/-- The time signature in front of a piece, if there is one. -/
def opening (meter : Option (Datum × Int)) : List Command :=
  (meter.map fun m => .timeSignature m.1 m.2).toList

def isField : Command → Bool
  | .field _ _ => true
  | _ => false

private theorem filter_isField_inMeasures (n : Int) (groups : List (List Command)) :
    (inMeasures groups).filter isField = (inNumberedMeasures n groups).filter isField := by
  induction groups generalizing n with
  | nil => rfl
  | cons group groups ih =>
    rw [inMeasures_cons, inNumberedMeasures, List.filter_cons_of_neg Bool.false_ne_true,
      List.filter_cons_of_neg Bool.false_ne_true, List.filter_append, List.filter_append, ih (n + 1)]

end Command

namespace Cursor
variable [Timebase α]

/-- A piece starts in front of measure zero, also behind its first time signature. -/
theorem faces_opening {octave : Int} {meter : Option (Datum × Int)} {c : Cursor}
    (h : ((initial octave).walkAll (Command.opening meter) : Walk α).outcome = .ok c) :
    c.Faces 0 := by
  cases meter with
  | none =>
    obtain rfl : initial octave = c := Except.ok.inj h
    exact ⟨rfl, (zero_mul _).symm, (zero_mul _).ge⟩
  | some meter =>
    obtain ⟨d, hd, h⟩ := Walk.andThen_outcome_eq_ok_iff.mp h
    obtain rfl : d = c := Except.ok.inj h
    rw [walk_of_not_block _ rfl] at hd
    obtain ⟨events, hs⟩ := Walk.ofStep_outcome_eq_ok_iff.mp hd
    obtain ⟨-, beats, -, rfl⟩ := changeMeter_eq_ok (moves_of_step hs)
    exact ⟨rfl, (zero_mul _).symm, (zero_mul _).ge⟩

end Cursor

namespace Arrangement
open Command (opening inMeasures inNumberedMeasures setsMeasures isField)

/-- Only fields among the commands make the fields of a piece. -/
theorem fieldsOf_filter_isField (commands : List Command) :
    fieldsOf (commands.filter isField) = fieldsOf commands := by
  rw [fieldsOf, fieldsOf, List.foldl_filter]
  congr 1
  funext fields command
  cases command <;> rfl

variable [Timebase α]

/-- A piece in measures that follow each other has the same walk and the same arrangement when the
measures have their numbers. -/
theorem ofCommands_inMeasures {meter : Option (Datum × Int)} {groups : List (List Command)}
    {options : ArrangementOptions} {octave : Int} (ho : options.defaultOctave.toInt = .ok octave)
    (hquiet : ∀ group ∈ groups, Command.occursIn setsMeasures group = false)
    (hwithin : ∀ k < groups.length, ∀ d,
      ((Cursor.initial octave).walkAll (opening meter ++ inMeasures (groups.take (k + 1))) :
          Walk α).outcome = .ok d →
        d.position ≤ (k + 1) * d.measureLength) :
    ((Cursor.initial octave).walkAll (opening meter ++ inMeasures groups) : Walk α) =
        (Cursor.initial octave).walkAll (opening meter ++ inNumberedMeasures 0 groups) ∧
      (ofCommands (opening meter ++ inMeasures groups) options : Arrangement α) =
        ofCommands (opening meter ++ inNumberedMeasures 0 groups) options := by
  have hwalk : ((Cursor.initial octave).walkAll (opening meter ++ inMeasures groups) : Walk α) =
      (Cursor.initial octave).walkAll (opening meter ++ inNumberedMeasures 0 groups) := by
    rw [Cursor.walkAll_append, Cursor.walkAll_append]
    apply Walk.andThen_congr
    intro c hc
    apply (Cursor.faces_opening hc).walkAll_inMeasures hquiet
    intro k hk d hd
    have hlast := hwithin k hk d (by
      rw [Cursor.walkAll_append, Walk.andThen_outcome_eq_ok_iff]
      exact ⟨c, hc, hd⟩)
    push_cast
    rwa [zero_add]
  have hfields : fieldsOf (opening meter ++ inMeasures groups) =
      fieldsOf (opening meter ++ inNumberedMeasures 0 groups) := by
    rw [← fieldsOf_filter_isField, List.filter_append, Command.filter_isField_inMeasures 0,
      ← List.filter_append, fieldsOf_filter_isField]
  have hplain : (plainSong (opening meter ++ inMeasures groups) octave :
      List (Event α) × Except Failure (Song α)) =
        plainSong (opening meter ++ inNumberedMeasures 0 groups) octave := by
    rw [plainSong, plainSong, hwalk, hfields]
  refine ⟨hwalk, ?_⟩
  rw [ofCommands, ofCommands, ho]
  dsimp only
  rw [hplain]

/-- Measures with a block of two voices, a rest and a way back to the start, behind a time signature
of three quarters. -/
theorem ofCommands_inMeasures_voices :
    let meter : Option (Datum × Int) := some (.whole 3, 4)
    let groups : List (List Command) :=
      [[.block [.note "C" none .plain none, .backToStart, .note "E" none .plain none]],
        [.rest .plain, .note "G" none .plain none, .field (.text "title") (.text "Song")],
        [.note "C" none .plain none, .backToStart]]
    ((Cursor.initial 4).walkAll (opening meter ++ inMeasures groups) : Walk Number) =
        (Cursor.initial 4).walkAll (opening meter ++ inNumberedMeasures 0 groups) ∧
      (ofCommands (opening meter ++ inMeasures groups) .standard : Arrangement Number) =
        ofCommands (opening meter ++ inNumberedMeasures 0 groups) .standard := by
  intro meter groups
  have ho : ArrangementOptions.standard.defaultOctave.toInt = .ok 4 := rfl
  apply ofCommands_inMeasures ho
  · decide
  · have hends : ∀ k < groups.length,
        (((Cursor.initial 4).walkAll (opening meter ++ inMeasures (groups.take (k + 1))) :
          Walk Number).outcome.toOption.all
            fun d => decide (d.position ≤ ((k : Rat) + 1) * d.measureLength)) = true := by
      decide +kernel
    intro k hk d hd
    have hend := hends k hk
    rw [hd] at hend
    exact of_decide_eq_true hend

end Arrangement
end LeadSheet
