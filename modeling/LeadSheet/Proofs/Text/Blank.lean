import LeadSheet.Text.Blank
import Mathlib.Data.List.DropRight
import Mathlib.Data.List.TakeDrop

/-! Where a run of characters ends, and texts without blanks at their ends, which trimming leaves as
they are. -/
namespace LeadSheet.Text

/-- Visible characters of ASCII are no blanks. -/
theorem isBlank_of_visible {c : Char} (hl : 0x20 < c.toNat) (hu : c.toNat < 0x7F) :
    isBlank c = false := by
  simp only [isBlank, CodeRanges.contains, blankRanges, List.any_cons, List.any_nil,
    Bool.or_false, Bool.or_eq_false_iff, Bool.and_eq_false_iff, decide_eq_false_iff_not]
  omega

theorem dropWhile_of_head_not {p : Char → Bool} {cs : List Char}
    (h : ∀ c ∈ cs.head?, p c = false) : cs.dropWhile p = cs := by
  cases cs with
  | nil => rfl
  | cons c cs => exact List.dropWhile_cons_of_neg (by rw [h c rfl]; decide)

theorem dropWhile_of_forall_not {p : Char → Bool} {cs : List Char}
    (h : ∀ c ∈ cs, p c = false) : cs.dropWhile p = cs :=
  dropWhile_of_head_not fun c hc => h c (List.mem_of_mem_head? hc)

theorem span_append {p : Char → Bool} {cs rest : List Char} (h : ∀ c ∈ cs, p c = true)
    (hr : ∀ c ∈ rest.head?, p c = false) : (cs ++ rest).span p = (cs, rest) := by
  rw [List.span_eq_takeWhile_dropWhile, List.takeWhile_append_of_pos h,
    List.dropWhile_append_of_pos h, dropWhile_of_head_not hr]
  cases rest with
  | nil => rw [List.takeWhile_nil, List.append_nil]
  | cons c rest =>
    rw [List.takeWhile_cons_of_neg (by rw [hr c rfl]; decide), List.append_nil]

/-- A character that does not belong to the run ends it, whatever stands behind. -/
theorem dropWhile_append_cons {p : Char → Bool} {c : Char} (hc : p c = false)
    (cs rest : List Char) : (cs ++ c :: rest).dropWhile p = cs.dropWhile p ++ c :: rest := by
  have hstop : (c :: rest).dropWhile p = c :: rest := List.dropWhile_cons_of_neg (by rw [hc]; decide)
  rw [List.dropWhile_append, hstop]
  split
  · next hd => rw [List.isEmpty_iff.mp hd, List.nil_append]
  · rfl

theorem span_append_cons {p : Char → Bool} {c : Char} (hc : p c = false) (cs rest : List Char) :
    (cs ++ c :: rest).span p = ((cs.span p).1, (cs.span p).2 ++ c :: rest) := by
  have hstop : (c :: rest).takeWhile p = [] := List.takeWhile_cons_of_neg (by rw [hc]; decide)
  rw [List.span_eq_takeWhile_dropWhile, List.span_eq_takeWhile_dropWhile,
    dropWhile_append_cons hc, List.takeWhile_append, hstop]
  split
  · next hl =>
    rw [List.append_nil, (List.takeWhile_prefix p).eq_of_length hl]
  · rfl

theorem trim_of_forall_not {cs : List Char} (h : ∀ c ∈ cs, isBlank c = false) : trim cs = cs := by
  rw [trim, trimStart, dropWhile_of_forall_not h, trimEnd,
    dropWhile_of_forall_not fun c hc => h c (List.mem_reverse.mp hc), List.reverse_reverse]

private theorem trimEnd_isPrefix (cs : List Char) :
    trimEnd cs <+: cs := List.rdropWhile_prefix isBlank cs

/-- A trimmed text does not start with a blank. -/
theorem isBlank_of_mem_head?_trim {cs : List Char} {c : Char} (h : c ∈ (trim cs).head?) :
    isBlank c = false := by
  obtain ⟨rest, hr⟩ := trimEnd_isPrefix (trimStart cs)
  have hs := List.head?_dropWhile_not isBlank cs
  rw [trim] at h
  rw [← trimStart, ← hr, List.head?_append, Option.mem_def.mp h] at hs
  exact hs

theorem mem_of_mem_trim {cs : List Char} {c : Char} (h : c ∈ trim cs) : c ∈ cs :=
  (List.dropWhile_suffix isBlank).mem ((trimEnd_isPrefix (trimStart cs)).mem h)

/-- Trimming once is enough. -/
theorem trim_trim (cs : List Char) : trim (trim cs) = trim cs := by
  have hs : trimStart (trim cs) = trim cs :=
    dropWhile_of_head_not fun _ hc => isBlank_of_mem_head?_trim hc
  rw [trim, hs]
  exact List.rdropWhile_idempotent isBlank (trimStart cs)

end LeadSheet.Text
