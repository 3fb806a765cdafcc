import Mathlib.Data.List.Forall2

/-!
# Checked computations

A checked computation with a result goes on with it. The results of all members of a list are
the list of their results.
-/

namespace AdmissibleRegion

@[simp] theorem ok_bind {ε α β : Type} (a : α) (f : α → Except ε β) :
    (Except.ok a >>= f) = f a := rfl

@[simp] theorem pure_eq_ok {ε α : Type} (a : α) : (pure a : Except ε α) = .ok a := rfl

/-- What a computation goes on with is the result of its first part. -/
theorem exists_of_bind_eq_ok {ε α β : Type} {x : Except ε α} {f : α → Except ε β} {b : β}
    (h : (x >>= f) = .ok b) : ∃ a, x = .ok a ∧ f a = .ok b := by
  cases x with
  | error e => cases h
  | ok a => exact ⟨a, rfl, h⟩

/-- A computation fails as before if its results and its errors are mapped. -/
theorem exists_mapError_eq_error_iff {ε ε' α β : Type} {x : Except ε α} {f : α → β}
    {g : ε → ε'} :
    (∃ e, (x.map f).mapError g = .error e) ↔ ∃ e, x = .error e := by
  cases x with
  | error e => exact ⟨fun _ => ⟨e, rfl⟩, fun _ => ⟨g e, rfl⟩⟩
  | ok a =>
    constructor
    · rintro ⟨_, h⟩
      cases h
    · rintro ⟨_, h⟩
      cases h

/-- Checked results of all members of a list are the results of their checks, in order. -/
theorem exists_mapM_eq_ok {ε α β : Type} {f : α → Except ε β} {P : α → β → Prop} {xs : List α}
    (h : ∀ a ∈ xs, ∃ b, f a = .ok b ∧ P a b) :
    ∃ bs, xs.mapM f = .ok bs ∧ List.Forall₂ P xs bs := by
  induction xs with
  | nil => exact ⟨[], rfl, .nil⟩
  | cons a xs ih =>
    obtain ⟨b, hb, hP⟩ := h a List.mem_cons_self
    obtain ⟨bs, hbs, hall⟩ := ih fun x hx => h x (List.mem_cons_of_mem _ hx)
    refine ⟨b :: bs, ?_, .cons hP hall⟩
    rw [List.mapM_cons, hb, hbs]
    rfl

/-- If all members of a list have results, so has the list. -/
theorem exists_mapM {ε α β : Type} {f : α → Except ε β} {xs : List α}
    (h : ∀ a ∈ xs, ∃ b, f a = .ok b) : ∃ bs, xs.mapM f = .ok bs := by
  have hall : ∀ a ∈ xs, ∃ b, f a = .ok b ∧ True := by
    intro a ha
    obtain ⟨b, hb⟩ := h a ha
    exact ⟨b, hb, trivial⟩
  obtain ⟨bs, hbs, _⟩ := exists_mapM_eq_ok hall
  exact ⟨bs, hbs⟩

/-- If all members of a list have results, they are the results, in order. -/
theorem forall₂_of_mapM {ε α β : Type} {f : α → Except ε β} {xs : List α} {bs : List β}
    (h : xs.mapM f = .ok bs) : List.Forall₂ (fun a b => f a = .ok b) xs bs := by
  induction xs generalizing bs with
  | nil =>
    obtain rfl := Except.ok.inj h
    exact .nil
  | cons a xs ih =>
    rw [List.mapM_cons] at h
    obtain ⟨c, hfirst, h⟩ := exists_of_bind_eq_ok h
    obtain ⟨cs, hrest, h⟩ := exists_of_bind_eq_ok h
    obtain rfl := Except.ok.inj h
    exact .cons hfirst (ih hrest)

private theorem exists_of_forall₂ {α β : Type} {P : α → β → Prop} {xs : List α} {bs : List β}
    (h : List.Forall₂ P xs bs) {b : β} (hb : b ∈ bs) : ∃ a ∈ xs, P a b := by
  induction h with
  | nil => cases hb
  | cons hfirst _ ih =>
    rcases List.mem_cons.mp hb with rfl | hb
    · exact ⟨_, List.mem_cons_self, hfirst⟩
    · obtain ⟨a, ha, hab⟩ := ih hb
      exact ⟨a, List.mem_cons_of_mem _ ha, hab⟩

/-- Every result comes from a member of the list. -/
theorem exists_of_mem_mapM {ε α β : Type} {f : α → Except ε β} {xs : List α} {bs : List β}
    (h : xs.mapM f = .ok bs) {b : β} (hb : b ∈ bs) : ∃ a ∈ xs, f a = .ok b :=
  exists_of_forall₂ (forall₂_of_mapM h) hb

/-- Every member of the list has a result. -/
theorem exists_mem_of_mapM {ε α β : Type} {f : α → Except ε β} {xs : List α} {bs : List β}
    (h : xs.mapM f = .ok bs) {a : α} (ha : a ∈ xs) : ∃ b ∈ bs, f a = .ok b :=
  exists_of_forall₂ (forall₂_of_mapM h).flip ha

/-- A map that never fails maps a list. -/
theorem mapM_eq_ok {ε α β : Type} {f : α → Except ε β} {g : α → β} {xs : List α}
    (h : ∀ a ∈ xs, f a = .ok (g a)) : xs.mapM f = .ok (xs.map g) := by
  induction xs with
  | nil => rfl
  | cons a xs ih =>
    rw [List.mapM_cons, h a List.mem_cons_self, ih fun b hb => h b (List.mem_cons_of_mem _ hb)]
    rfl

end AdmissibleRegion
