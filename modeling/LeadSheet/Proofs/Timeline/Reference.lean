import LeadSheet.Proofs.Timeline.Voices

/-!
The reference of notes that are written without octave. Only notes change it, so along a run it is
the pitch of the note before, or the default pitch in front of the first one. A note without octave
is put into the octave that is closest to it.
-/
namespace LeadSheet
variable {α : Type}

/-! ### Names without octave -/

namespace NoteName

private theorem spanDigits_cons_of_sign {sign : Char} (hsign : sign = '#' ∨ sign = 'b')
    (rest : List Char) :
    (spanDigits (sign :: rest)).1 = [] := by
  rw [spanDigits, List.span_eq_takeWhile_dropWhile]
  rcases hsign with rfl | rfl
  · rfl
  · rfl

private theorem hasOctave_iff {name : String} : hasOctave name = true ↔
    ∃ (letter : Letter) (alteration : Alteration) (rest : List Char),
      name.toList = letter.toChar :: (alteration.sign ++ rest) ∧ (spanDigits rest).1 ≠ [] := by
  constructor
  · intro h
    rw [hasOctave] at h
    split at h
    · next letter alteration rest hhead =>
      exact ⟨letter, alteration, rest, eq_of_head? hhead, of_decide_eq_true h⟩
    · cases h
  · rintro ⟨letter, alteration, rest, hname, hne⟩
    have hrest : ∀ c ∈ rest.head?, c ≠ '#' ∧ c ≠ 'b' := by
      intro c hc
      obtain ⟨tail, rfl⟩ := List.head?_eq_some_iff.mp hc
      exact ⟨fun h => hne (spanDigits_cons_of_sign (.inl h) tail),
        fun h => hne (spanDigits_cons_of_sign (.inr h) tail)⟩
    rw [hasOctave, hname, head?_of_parts letter alteration hrest]
    exact decide_eq_true hne

private theorem hasOctave_of_pitch {name : String} {p : Int} (h : pitch name = .ok p) :
    hasOctave name = true := by
  have hp := pitch_eq_ok_iff.mp h
  rw [pitch?] at hp
  obtain ⟨⟨letter, alteration, rest⟩, hhead, hp⟩ := Option.bind_eq_some_iff.mp hp
  rw [hasOctave, hhead]
  refine decide_eq_true fun hnil => ?_
  dsimp only at hp
  rw [hnil] at hp
  cases hp

private theorem hasOctave_inParts (letter : Letter) (alteration : Alteration) :
    hasOctave (inParts letter alteration none) = false := by
  rw [hasOctave, head?_inParts_none]
  rfl

/-- An accidental is no octave. -/
theorem hasOctave_of_withSign {name : String} {sign : Char} (hsign : sign = '#' ∨ sign = 'b')
    (h : hasOctave (Cursor.withSign name sign) = true) : hasOctave name = true := by
  obtain ⟨letter, alteration, rest, hname, hne⟩ := hasOctave_iff.mp h
  rw [Cursor.withSign, String.toList_ofList] at hname
  cases hchars : name.toList with
  | nil =>
    rw [hchars] at hname
    obtain ⟨hletter, -⟩ := List.cons.inj hname
    rcases hsign with rfl | rfl <;> cases letter <;> cases hletter
  | cons c tail =>
    rw [hchars] at hname
    obtain ⟨hletter, hrest⟩ := List.cons.inj hname
    refine hasOctave_iff.mpr ⟨letter, .natural, tail, hchars.trans (congrArg (· :: tail) hletter), ?_⟩
    cases alteration with
    | natural =>
      obtain rfl : sign :: tail = rest := hrest
      exact absurd (spanDigits_cons_of_sign hsign tail) hne
    | sharp | flat =>
      obtain ⟨-, rfl⟩ := List.cons.inj hrest
      exact hne

/-- Nor is the sign of a key. -/
theorem hasOctave_of_soundingUnder {count : Datum} {name settled : String}
    (h : KeySignature.soundingUnder count name = .ok settled) (ho : hasOctave settled = true) :
    hasOctave name = true := by
  rw [KeySignature.soundingUnder] at h
  split at h
  · rw [KeySignature.sounding] at h
    split at h
    · cases h
      exact ho
    · split at h
      · cases h
      · next c rest hname =>
        split at h
        · cases h
        · next letter hletter =>
          dsimp only at h
          split at h
          · cases h
            refine hasOctave_iff.mpr ⟨letter, .natural, rest, ?_, fun hnil => ?_⟩
            · rw [hname, toChar_of_ofChar? hletter]
              rfl
            · rw [hnil] at ho
              exact absurd ho (Bool.eq_false_iff.mp (hasOctave_inParts letter _))
          · cases h
            exact ho
  · obtain ⟨_, -, h⟩ := Except.bind_eq_ok_iff.mp h
    cases h

end NoteName

namespace Cursor
open NoteName

/-- A note that is written without octave and has a pitch is in the octave that is closest to the
reference. -/
theorem soundingName_of_lacks {c : Cursor} {name sounding : String} {mark : Option Mark} {p : Int}
    (h : hasOctave name = false) (hs : c.soundingName name mark = .ok sounding)
    (hp : pitch sounding = .ok p) : ∃ (letter : Letter) (alteration : Alteration) (octave : Nat),
      sounding = inParts letter alteration (some octave) ∧
        IsClosest letter alteration c.reference octave := by
  have hnatural {settled : String} (hsettled : hasOctave settled = false)
      (hs : c.soundingName settled (some .natural) = .ok sounding) :
      ∃ (letter : Letter) (alteration : Alteration) (octave : Nat),
        sounding = inParts letter alteration (some octave) ∧
          IsClosest letter alteration c.reference octave := by
    rw [soundingName_natural] at hs
    split at hs
    · cases hs
    · split at hs
      · obtain rfl := Except.ok.inj hs
        exact absurd (hasOctave_of_pitch hp) (Bool.eq_false_iff.mp hsettled)
      · obtain ⟨letter, alteration, rfl⟩ := eq_inParts_of_closestOctave hs
        obtain ⟨octave, ho, hclosest⟩ := exists_closestOctave letter alteration c.reference
        exact ⟨letter, alteration, octave, Except.ok.inj (hs.symm.trans ho), hclosest⟩
  have hname := Bool.eq_false_iff.mp h
  rcases mark with _ | _ | _ | _
  · rw [soundingName_none] at hs
    obtain ⟨settled, hsettled, hs⟩ := Except.bind_eq_ok_iff.mp hs
    exact hnatural (Bool.eq_false_iff.mpr fun ho => hname (hasOctave_of_soundingUnder hsettled ho)) hs
  · exact hnatural (Bool.eq_false_iff.mpr fun ho => hname (hasOctave_of_withSign (.inl rfl) ho)) hs
  · exact hnatural (Bool.eq_false_iff.mpr fun ho => hname (hasOctave_of_withSign (.inr rfl) ho)) hs
  · exact hnatural h hs

end Cursor

/-! ### References along a run -/

/-- Stops that take the reference over from one another. -/
def Stop.Linked : Int → List (Stop α) → Int → Prop
  | r, [], r' => r' = r
  | r, s :: stops, r' => s.front.reference = r ∧ Linked s.behind.reference stops r'

namespace Stop
variable {r r' : Int} {stops : List (Stop α)}

private theorem Linked.append (h : Linked r stops r') {stops' : List (Stop α)} {r'' : Int}
    (h' : Linked r' stops' r'') : Linked r (stops ++ stops') r'' := by
  induction stops generalizing r with
  | nil =>
    obtain rfl : r' = r := h
    exact h'
  | cons s stops ih => exact ⟨h.1, ih h.2⟩

/-- Stops that leave the reference as it is can be left out. -/
theorem Linked.filter (h : Linked r stops r') {keep : Stop α → Bool}
    (hkeep : ∀ s ∈ stops, keep s = false → s.behind.reference = s.front.reference) :
    Linked r (stops.filter keep) r' := by
  induction stops generalizing r with
  | nil => exact h
  | cons s stops ih =>
    obtain ⟨hs, hstops⟩ := List.forall_mem_cons.mp hkeep
    obtain ⟨rfl, htail⟩ := h
    rw [List.filter_cons]
    split
    · exact ⟨rfl, ih htail hstops⟩
    · next hk =>
      rw [hs (Bool.eq_false_iff.mpr hk)] at htail
      exact ih htail hstops

theorem Linked.front_reference (h : Linked r stops r') {i : Nat} {s : Stop α}
    (hi : stops[i]? = some s) :
    i = 0 ∧ s.front.reference = r ∨
      ∃ j t, i = j + 1 ∧ stops[j]? = some t ∧ s.front.reference = t.behind.reference := by
  induction stops generalizing r i with
  | nil => cases hi
  | cons t stops ih =>
    cases i with
    | zero =>
      obtain rfl : t = s := Option.some.inj hi
      exact .inl ⟨rfl, h.1⟩
    | succ i =>
      rw [List.getElem?_cons_succ] at hi
      rcases ih h.2 hi with ⟨rfl, hr⟩ | ⟨j, u, rfl, hu, hr⟩
      · exact .inr ⟨0, t, rfl, rfl, hr⟩
      · exact .inr ⟨j + 1, u, rfl, hu, hr⟩

end Stop

namespace Cursor
variable [Timebase α]

/-- No command changes the default pitch, and none but a note the last one. -/
theorem pitches_of_moves {c d : Cursor} {command : Command} (h : c.Moves command d) :
    d.defaultPitch = c.defaultPitch ∧ (command.isNote = false → d.lastPitch = c.lastPitch) := by
  cases command with
  | note =>
    obtain ⟨_, _, -, rfl⟩ := h
    exact ⟨rfl, fun hn => by cases hn⟩
  | rest =>
    obtain ⟨-, rfl⟩ | ⟨_, -, -, rfl⟩ := h
    · exact ⟨rfl, fun _ => rfl⟩
    · exact ⟨rfl, fun _ => rfl⟩
  | track =>
    obtain ⟨_, -, rfl⟩ := h
    exact ⟨rfl, fun _ => rfl⟩
  | timeSignature =>
    obtain ⟨-, _, -, rfl⟩ := changeMeter_eq_ok h
    exact ⟨rfl, fun _ => rfl⟩
  | measure number =>
    obtain rfl := h
    cases number <;> exact ⟨rfl, fun _ => rfl⟩
  | _ =>
    obtain rfl := h
    exact ⟨rfl, fun _ => rfl⟩

/-- Along a run each stop takes the reference over from the one before. -/
theorem Run.linked {c e : Cursor} {commands : List Command} {stops : List (Stop α)}
    (h : Run c commands stops e) :
    e.defaultPitch = c.defaultPitch ∧ Stop.Linked c.reference stops e.reference := by
  induction h with
  | done c => exact ⟨rfl, rfl⟩
  | step hb hs tail ih =>
    obtain ⟨hdefault, hlinked⟩ := ih
    exact ⟨hdefault.trans (pitches_of_moves (moves_of_step hs)).1, rfl, hlinked⟩
  | @block c d e inside commands stops stops' inner tail hi ht =>
    -- a block hands its last pitch on, and its default pitch is that of the text around it
    have hleave : (c.leave d).reference = d.reference := by
      rw [reference, reference, hi.1]
      rfl
    exact ⟨ht.1, hi.2.append (hleave ▸ ht.2)⟩

/-- The reference at a note is the pitch behind the note before it. -/
theorem Run.linked_notes {c e : Cursor} {commands : List Command} {stops : List (Stop α)}
    (h : Run c commands stops e) :
    Stop.Linked c.reference (stops.filter fun stop => stop.command.isNote) e.reference := by
  refine h.linked.2.filter fun s hs hn => ?_
  obtain ⟨hdefault, hlast⟩ := pitches_of_moves (moves_of_step (h.step_of_mem hs))
  rw [reference, reference, hdefault, hlast hn]

end Cursor
end LeadSheet
