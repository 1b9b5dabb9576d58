import Mathlib.Data.List.Forall2
import Mathlib.Tactic.Common

/-! Computations that may fail: when they give a value, and what is done to it. -/
namespace Except
variable {ε α β γ : Type}

theorem bind_eq_ok_iff {x : Except ε α} {f : α → Except ε β} {b : β} :
    x >>= f = .ok b ↔ ∃ a, x = .ok a ∧ f a = .ok b := by
  cases x with
  | error e =>
    constructor
    · intro h
      cases h
    · rintro ⟨a, h, -⟩
      cases h
  | ok a =>
    constructor
    · intro h
      exact ⟨a, rfl, h⟩
    · rintro ⟨a', h, hf⟩
      cases h
      exact hf

theorem of_bind_eq_ok {x : Except ε α} {f : α → Except ε β} {a : α} {b : β} (hx : x = .ok a)
    (h : x >>= f = .ok b) : f a = .ok b := by
  rwa [hx] at h

theorem map_eq_ok_iff {x : Except ε α} {f : α → β} {b : β} :
    x.map f = .ok b ↔ ∃ a, x = .ok a ∧ f a = b := by
  cases x with
  | error e => simp [Except.map]
  | ok a => simp [Except.map]

theorem pure_eq_ok_iff {a b : α} : (pure a : Except ε α) = .ok b ↔ a = b := by
  constructor
  · intro h
    exact Except.ok.inj h
  · rintro rfl
    rfl

theorem exists_eq_ok {x : Except ε α} (h : x.isOk = true) : ∃ a, x = .ok a := by
  cases x with
  | error e => cases h
  | ok a => exact ⟨a, rfl⟩

theorem exists_bind_eq_ok {x : Except ε α} {f : α → Except ε β} {a : α} (hx : x = .ok a)
    (hf : ∃ b, f a = .ok b) : ∃ b, x >>= f = .ok b := by
  obtain ⟨b, hb⟩ := hf
  exact ⟨b, bind_eq_ok_iff.mpr ⟨a, hx, hb⟩⟩

theorem map_bind (x : Except ε α) (f : α → Except ε β) (g : β → γ) :
    (x >>= f).map g = x >>= fun a => (f a).map g := by
  cases x <;> rfl

theorem bind_eq_map_bind {δ : Type} {x : Except ε α} {f : α → Except ε β} {f' : α → Except ε δ}
    {h : β → δ} (hf : ∀ a, f' a = (f a).map h) : x >>= f' = (x >>= f).map h := by
  rw [map_bind, funext hf]

theorem map_bind_eq_map_bind {δ : Type} {x : Except ε α} {g : α → γ} {f : α → Except ε β}
    {f' : γ → Except ε δ} {h : β → δ} (hf : ∀ a, f' (g a) = (f a).map h) :
    x.map g >>= f' = (x >>= f).map h := by
  cases x with
  | error e => rfl
  | ok a => exact hf a

/-! ### Lists -/

theorem exists_mapM_eq_ok {f : α → Except ε β} {xs : List α} (h : ∀ x ∈ xs, ∃ y, f x = .ok y) :
    ∃ ys, xs.mapM f = .ok ys := by
  induction xs with
  | nil => exact ⟨[], rfl⟩
  | cons x xs ih =>
    obtain ⟨⟨y, hy⟩, h⟩ := List.forall_mem_cons.mp h
    obtain ⟨ys, hys⟩ := ih h
    rw [List.mapM_cons]
    exact exists_bind_eq_ok hy (exists_bind_eq_ok hys ⟨_, rfl⟩)

theorem mapM_cons_eq_ok_iff {f : α → Except ε β} {x : α} {xs : List α} {ys : List β} :
    (x :: xs).mapM f = .ok ys ↔ ∃ y tail, f x = .ok y ∧ xs.mapM f = .ok tail ∧ ys = y :: tail := by
  simp only [List.mapM_cons, bind_eq_ok_iff, pure_eq_ok_iff]
  constructor
  · rintro ⟨y, hy, tail, ht, rfl⟩
    exact ⟨y, tail, hy, ht, rfl⟩
  · rintro ⟨y, tail, hy, ht, rfl⟩
    exact ⟨y, hy, tail, ht, rfl⟩

/-- The values of a list stand where the members of the list do that they come from. -/
theorem mapM_eq_ok_iff_forall₂ {f : α → Except ε β} {xs : List α} {ys : List β} :
    xs.mapM f = .ok ys ↔ List.Forall₂ (fun x y => f x = .ok y) xs ys := by
  induction xs generalizing ys with
  | nil => rw [List.mapM_nil, pure_eq_ok_iff, List.forall₂_nil_left_iff, eq_comm]
  | cons x xs ih =>
    rw [mapM_cons_eq_ok_iff, List.forall₂_cons_left_iff]
    constructor
    · rintro ⟨y, tail, hy, ht, rfl⟩
      exact ⟨y, tail, hy, ih.mp ht, rfl⟩
    · rintro ⟨y, tail, hy, ht, rfl⟩
      exact ⟨y, tail, hy, ih.mpr ht, rfl⟩

/-- What is in the list of the values comes from something in the list. -/
theorem exists_of_mem_mapM {f : α → Except ε β} {xs : List α} {ys : List β}
    (h : xs.mapM f = .ok ys) {y : β} (hy : y ∈ ys) : ∃ x ∈ xs, f x = .ok y := by
  induction xs generalizing ys with
  | nil =>
    obtain rfl := pure_eq_ok_iff.mp h
    cases hy
  | cons x xs ih =>
    obtain ⟨z, tail, hz, ht, rfl⟩ := mapM_cons_eq_ok_iff.mp h
    rcases List.mem_cons.mp hy with rfl | hy
    · exact ⟨x, List.mem_cons_self .., hz⟩
    · obtain ⟨x', hx', hy⟩ := ih ht hy
      exact ⟨x', List.mem_cons_of_mem _ hx', hy⟩

theorem exists_mem_of_mapM {f : α → Except ε β} {xs : List α} {ys : List β}
    (h : xs.mapM f = .ok ys) {x : α} (hx : x ∈ xs) : ∃ y ∈ ys, f x = .ok y := by
  induction xs generalizing ys with
  | nil => cases hx
  | cons x' xs ih =>
    obtain ⟨z, tail, hz, ht, rfl⟩ := mapM_cons_eq_ok_iff.mp h
    rcases List.mem_cons.mp hx with rfl | hx
    · exact ⟨z, List.mem_cons_self .., hz⟩
    · obtain ⟨y, hy, hf⟩ := ih ht hx
      exact ⟨y, List.mem_cons_of_mem _ hy, hf⟩

/-- What keeps a list from having values is a failure of one of its members. -/
theorem exists_of_mapM_eq_error {f : α → Except ε β} {xs : List α} {e : ε}
    (h : xs.mapM f = .error e) : ∃ x ∈ xs, f x = .error e := by
  induction xs with
  | nil => cases h
  | cons x xs ih =>
    rw [List.mapM_cons] at h
    cases hx : f x with
    | error e' =>
      rw [hx] at h
      cases h
      exact ⟨x, List.mem_cons_self .., hx⟩
    | ok y =>
      rw [hx] at h
      cases hxs : xs.mapM f with
      | error e' =>
        rw [hxs] at h
        cases h
        obtain ⟨x', hx', he⟩ := ih hxs
        exact ⟨x', List.mem_cons_of_mem _ hx', he⟩
      | ok ys =>
        rw [hxs] at h
        cases h

theorem ne_nil_of_mapM {f : α → Except ε β} {xs : List α} {ys : List β} (h : xs.mapM f = .ok ys)
    (hne : xs ≠ []) : ys ≠ [] := by
  obtain ⟨x, hx⟩ := List.exists_mem_of_ne_nil xs hne
  obtain ⟨y, hy, -⟩ := exists_mem_of_mapM h hx
  exact List.ne_nil_of_mem hy

theorem mapM_eq_map_mapM {f : α → Except ε β} {f' : α → Except ε γ} {h : β → γ}
    (hf : ∀ x, f' x = (f x).map h) (xs : List α) : xs.mapM f' = (xs.mapM f).map (List.map h) := by
  induction xs with
  | nil => rfl
  | cons x xs ih =>
    rw [List.mapM_cons, List.mapM_cons, hf, ih]
    exact map_bind_eq_map_bind fun y => map_bind_eq_map_bind fun ys => rfl

theorem mapM_map_eq_map_mapM {δ : Type} {g : α → γ} {f : α → Except ε β} {f' : γ → Except ε δ}
    {h : β → δ} (hf : ∀ x, f' (g x) = (f x).map h) (xs : List α) :
    (xs.map g).mapM f' = (xs.mapM f).map (List.map h) := by
  rw [List.mapM_map]
  exact mapM_eq_map_mapM hf xs

private theorem filterAuxM_map {g : α → β} {p : α → Except ε Bool} {p' : β → Except ε Bool}
    (hp : ∀ x, p' (g x) = p x) (xs acc : List α) :
    List.filterAuxM p' (xs.map g) (acc.map g) = (List.filterAuxM p xs acc).map (List.map g) := by
  induction xs generalizing acc with
  | nil => rfl
  | cons x xs ih =>
    rw [List.map_cons, List.filterAuxM, List.filterAuxM, hp]
    refine bind_eq_map_bind fun b => ?_
    rw [← ih]
    cases b <;> rfl

theorem filterM_map {g : α → β} {p : α → Except ε Bool} {p' : β → Except ε Bool}
    (hp : ∀ x, p' (g x) = p x) (xs : List α) :
    (xs.map g).filterM p' = (xs.filterM p).map (List.map g) := by
  have h := filterAuxM_map hp xs []
  rw [List.map_nil] at h
  rw [List.filterM, List.filterM, h]
  exact map_bind_eq_map_bind fun ys => congrArg Except.ok List.map_reverse.symm

private theorem filterAuxM_eq_ok {p : α → Except ε Bool} {keep : α → Bool} {xs : List α}
    (h : ∀ x ∈ xs, p x = .ok (keep x)) (acc : List α) :
    xs.filterAuxM p acc = .ok ((xs.filter keep).reverse ++ acc) := by
  induction xs generalizing acc with
  | nil => rfl
  | cons x xs ih =>
    obtain ⟨hx, h⟩ := List.forall_mem_cons.mp h
    rw [List.filterAuxM, hx]
    refine (ih h _).trans (congrArg Except.ok ?_)
    cases hk : keep x with
    | true => rw [List.filter_cons_of_pos hk, List.reverse_cons, List.append_assoc]; rfl
    | false => rw [List.filter_cons_of_neg (by simp [hk])]; rfl

/-- A condition that never fails filters as a plain one does. -/
theorem filterM_eq_ok {p : α → Except ε Bool} {keep : α → Bool} {xs : List α}
    (h : ∀ x ∈ xs, p x = .ok (keep x)) : xs.filterM p = .ok (xs.filter keep) := by
  rw [List.filterM, filterAuxM_eq_ok h, List.append_nil]
  exact congrArg Except.ok (List.reverse_reverse _)

theorem filterM_cons_eq_error {p : α → Except ε Bool} {x : α} {e : ε} (h : p x = .error e)
    (xs : List α) : (x :: xs).filterM p = .error e := by
  rw [List.filterM, List.filterAuxM, h]
  rfl

private theorem mem_filterAuxM {p : α → Except ε Bool} {xs acc ys : List α}
    (h : xs.filterAuxM p acc = .ok ys) {x : α} :
    x ∈ ys ↔ x ∈ acc ∨ x ∈ xs ∧ p x = .ok true := by
  induction xs generalizing acc with
  | nil =>
    obtain rfl := pure_eq_ok_iff.mp h
    simp
  | cons x' xs ih =>
    rw [List.filterAuxM] at h
    obtain ⟨kept, hk, h⟩ := bind_eq_ok_iff.mp h
    rw [ih h]
    cases kept with
    | true =>
      simp only [cond_true, List.mem_cons, or_and_right]
      constructor
      · rintro ((rfl | ha) | hx)
        · exact .inr (.inl ⟨rfl, hk⟩)
        · exact .inl ha
        · exact .inr (.inr hx)
      · rintro (ha | ⟨rfl, -⟩ | hx)
        · exact .inl (.inr ha)
        · exact .inl (.inl rfl)
        · exact .inr hx
    | false =>
      simp only [cond_false, List.mem_cons, or_and_right]
      constructor
      · rintro (ha | hx)
        · exact .inl ha
        · exact .inr (.inr hx)
      · rintro (ha | ⟨rfl, hp⟩ | hx)
        · exact .inl ha
        · cases hk.symm.trans hp
        · exact .inr hx

/-- What is kept of a list is what the condition holds for. -/
theorem mem_filterM {p : α → Except ε Bool} {xs ys : List α} (h : xs.filterM p = .ok ys) {x : α} :
    x ∈ ys ↔ x ∈ xs ∧ p x = .ok true := by
  obtain ⟨kept, hk, h⟩ := bind_eq_ok_iff.mp h
  obtain rfl := pure_eq_ok_iff.mp h
  rw [List.mem_reverse, mem_filterAuxM hk]
  simp

private theorem exists_of_filterAuxM_eq_error {p : α → Except ε Bool} {xs acc : List α} {e : ε}
    (h : xs.filterAuxM p acc = .error e) : ∃ x ∈ xs, p x = .error e := by
  induction xs generalizing acc with
  | nil => cases h
  | cons x xs ih =>
    rw [List.filterAuxM] at h
    cases hx : p x with
    | error e' =>
      rw [hx] at h
      cases h
      exact ⟨x, List.mem_cons_self .., hx⟩
    | ok kept =>
      rw [hx] at h
      obtain ⟨x', hx', he⟩ := ih h
      exact ⟨x', List.mem_cons_of_mem _ hx', he⟩

/-- What keeps a list from being filtered is a failure of the condition. -/
theorem exists_of_filterM_eq_error {p : α → Except ε Bool} {xs : List α} {e : ε}
    (h : xs.filterM p = .error e) : ∃ x ∈ xs, p x = .error e := by
  rw [List.filterM] at h
  cases hxs : xs.filterAuxM p [] with
  | error e' =>
    rw [hxs] at h
    cases h
    exact exists_of_filterAuxM_eq_error hxs
  | ok ys =>
    rw [hxs] at h
    cases h

/-! ### What may come out -/

/-- Every value of a computation is good, and every failure of it is one of those that may be. -/
inductive Yields (good : α → Prop) (bad : ε → Prop) : Except ε α → Prop where
  | ok {a : α} : good a → Yields good bad (.ok a)
  | error {e : ε} : bad e → Yields good bad (.error e)

section Yields
variable {x : Except ε α} {good good' : α → Prop} {bad bad' : ε → Prop}

theorem Yields.of_ok {a : α} (h : Yields good bad (.ok a)) : good a := by
  cases h with
  | ok h => exact h

theorem Yields.of_error {e : ε} (h : Yields good bad (.error e)) : bad e := by
  cases h with
  | error h => exact h

theorem Yields.mono (h : x.Yields good bad) (hg : ∀ a, good a → good' a)
    (hb : ∀ e, bad e → bad' e) : x.Yields good' bad' := by
  cases h with
  | ok h => exact .ok (hg _ h)
  | error h => exact .error (hb _ h)

theorem Yields.bind {f : α → Except ε β} {goal : β → Prop} (h : x.Yields good bad)
    (hf : ∀ a, good a → (f a).Yields goal bad) : (x >>= f).Yields goal bad := by
  cases h with
  | ok h => exact hf _ h
  | error h => exact .error h

theorem yields_bind {f : α → Except ε β} {a : α} {goal : β → Prop} (hx : x = .ok a)
    (hf : (f a).Yields goal bad) : (x >>= f).Yields goal bad := by
  rw [hx]
  exact hf

theorem Yields.map {f : α → β} {goal : β → Prop} (h : x.Yields good bad)
    (hf : ∀ a, good a → goal (f a)) : (x.map f).Yields goal bad := by
  cases h with
  | ok h => exact .ok (hf _ h)
  | error h => exact .error h

theorem Yields.exists_good (h : x.Yields good bad) (hb : ∀ e, ¬ bad e) : ∃ a, x = .ok a ∧ good a := by
  cases h with
  | ok h => exact ⟨_, rfl, h⟩
  | error h => exact absurd h (hb _)

theorem Yields.exists_eq_ok {p : Prop} (h : x.Yields (fun _ => ¬ p) fun e => p ∧ bad e)
    (hp : ¬ p) : ∃ a, x = .ok a := by
  cases h with
  | ok => exact ⟨_, rfl⟩
  | error h => exact absurd h.1 hp

/-- Members of a list and values belong together, and a failure is that of a member. -/
theorem yields_mapM {f : α → Except ε β} {xs : List α} {goal : α → β → Prop}
    {bad : α → ε → Prop} (h : ∀ x ∈ xs, (f x).Yields (goal x) (bad x)) :
    (xs.mapM f).Yields
      (fun ys => (∀ x ∈ xs, ∃ y ∈ ys, goal x y) ∧ ∀ y ∈ ys, ∃ x ∈ xs, goal x y)
      fun e => ∃ x ∈ xs, bad x e := by
  cases he : xs.mapM f with
  | ok ys =>
    refine .ok ⟨?_, ?_⟩
    · intro x hx
      obtain ⟨y, hy, hf⟩ := exists_mem_of_mapM he hx
      exact ⟨y, hy, (hf ▸ h x hx).of_ok⟩
    · intro y hy
      obtain ⟨x, hx, hf⟩ := exists_of_mem_mapM he hy
      exact ⟨x, hx, (hf ▸ h x hx).of_ok⟩
  | error e =>
    obtain ⟨x, hx, hf⟩ := exists_of_mapM_eq_error he
    exact .error ⟨x, hx, (hf ▸ h x hx).of_error⟩

end Yields
end Except
