import Mathlib.Data.List.Forall2

/-! Two lists side by side: what stands at the same place in both of them belongs together. -/
namespace LeadSheet
variable {α β γ δ : Type} {R : α → β → Prop} {as : List α} {bs : List β}

theorem forall₂_trans {S : β → γ → Prop} {T : α → γ → Prop}
    (h : ∀ a b c, R a b → S b c → T a c) {cs : List γ} (hR : List.Forall₂ R as bs)
    (hS : List.Forall₂ S bs cs) : List.Forall₂ T as cs := by
  induction hR generalizing cs with
  | nil =>
    cases hS
    exact .nil
  | cons hab _ ih =>
    cases hS with
    | cons hbc hS => exact .cons (h _ _ _ hab hbc) (ih hS)

theorem exists_of_mem_forall₂ (h : List.Forall₂ R as bs) {b : β} (hb : b ∈ bs) :
    ∃ a ∈ as, R a b := by
  induction h with
  | nil => cases hb
  | cons hab _ ih =>
    rcases List.mem_cons.mp hb with rfl | hb
    · exact ⟨_, List.mem_cons_self .., hab⟩
    · obtain ⟨a, ha, hab⟩ := ih hb
      exact ⟨a, List.mem_cons_of_mem _ ha, hab⟩

theorem map_eq_of_forall₂ {f : α → γ} {g : β → γ} (h : List.Forall₂ (fun a b => f a = g b) as bs) :
    as.map f = bs.map g := by
  induction h with
  | nil => rfl
  | cons hab _ ih => rw [List.map_cons, List.map_cons, hab, ih]

/-- What holds of the members of a list may be used about those that stand beside them. -/
theorem forall₂_imp_of_mem {S : α → β → Prop} (h : List.Forall₂ R as bs)
    (hS : ∀ a ∈ as, ∀ b, R a b → S a b) : List.Forall₂ S as bs :=
  ((List.forall₂_and_left as bs).mpr ⟨fun _ ha => ha, h⟩).imp fun a b hab => hS a hab.1 b hab.2

theorem map_eq_self {f : α → α} (h : ∀ a ∈ as, f a = a) : as.map f = as :=
  (List.map_congr_left h).trans (List.map_id as)

/-- Lists whose members are told apart by what they are mapped to are told apart by it too. -/
theorem eq_of_map_eq {f : α → γ} {as' : List α} (hf : ∀ a ∈ as, ∀ a' ∈ as', f a = f a' → a = a')
    (h : as.map f = as'.map f) : as = as' := by
  induction as generalizing as' with
  | nil => exact (List.map_eq_nil_iff.mp h.symm).symm
  | cons a as ih =>
    cases as' with
    | nil => cases h
    | cons a' as' =>
      obtain ⟨hhead, htail⟩ := List.cons.inj h
      rw [hf a (List.mem_cons_self ..) a' (List.mem_cons_self ..) hhead,
        ih (fun b hb b' hb' => hf b (List.mem_cons_of_mem _ hb) b' (List.mem_cons_of_mem _ hb')) htail]

theorem forall₂_getElem? (h : List.Forall₂ R as bs) (i : Nat) : Option.Rel R as[i]? bs[i]? := by
  induction h generalizing i with
  | nil => exact .none
  | cons hab _ ih =>
    cases i with
    | zero => exact .some hab
    | succ i => exact ih i

theorem rel_bind {S : γ → δ → Prop} {f : α → Option γ} {g : β → Option δ}
    (hf : ∀ a b, R a b → Option.Rel S (f a) (g b)) {x : Option α} {y : Option β}
    (h : Option.Rel R x y) : Option.Rel S (x.bind f) (y.bind g) := by
  cases h with
  | none => exact .none
  | some hab => exact hf _ _ hab

theorem rel_eq_iff (hR : ∀ a b a' b', R a b → R a' b' → (b = b' ↔ a = a')) {x x' : Option α}
    {y y' : Option β} (h : Option.Rel R x y) (h' : Option.Rel R x' y') : y = y' ↔ x = x' := by
  cases h with
  | none => cases h' <;> simp
  | some hab =>
    cases h' with
    | none => simp
    | some hab' => rw [Option.some_inj, Option.some_inj, hR _ _ _ _ hab hab']

end LeadSheet
