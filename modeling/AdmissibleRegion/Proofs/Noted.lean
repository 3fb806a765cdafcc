import AdmissibleRegion.Notice
import Mathlib.Tactic

/-!
# Computations with remarks

A noted computation is told by its remarks and its outcome. Computations that do not fail, run
one after another, put their remarks behind each other; so do those of all members of a list.
-/

namespace AdmissibleRegion

namespace Noted

variable {K α β γ : Type}

theorem pure_eq (a : α) : (pure a : Noted K α) = ⟨[], .ok a⟩ := rfl

theorem ok_bind (notices : List (Notice K)) (a : α) (f : α → Noted K β) :
    ((⟨notices, .ok a⟩ : Noted K α) >>= f) = ⟨notices ++ (f a).notices, (f a).outcome⟩ := rfl

theorem lift_eq (x : Except (Fault K) α) : (liftM x : Noted K α) = ⟨[], x⟩ := rfl

theorem ofExcept_eq (x : Except (Fault K) α) : (ofExcept x : Noted K α) = ⟨[], x⟩ := rfl

theorem id_map (x : Noted K α) : id <$> x = x := by
  obtain ⟨notices, fault | a⟩ := x
  · rfl
  · exact congrArg (Noted.mk · (.ok a)) (List.append_nil notices)

theorem bind_assoc (x : Noted K α) (f : α → Noted K β) (g : β → Noted K γ) :
    x >>= f >>= g = x >>= fun a => f a >>= g := by
  obtain ⟨notices, fault | a⟩ := x
  · rfl
  · rw [ok_bind, ok_bind]
    obtain ⟨more, fault | b⟩ := f a
    · rfl
    · rw [ok_bind, ok_bind, List.append_assoc]

instance : LawfulMonad (Noted K) := LawfulMonad.mk' (Noted K) id_map (fun _ _ => rfl) bind_assoc

/-- What a computation goes on with is the result of its first part. -/
theorem exists_of_bind_eq_ok {x : Noted K α} {f : α → Noted K β} {b : β}
    (h : (x >>= f).outcome = .ok b) : ∃ a, x.outcome = .ok a ∧ (f a).outcome = .ok b := by
  obtain ⟨notices, fault | a⟩ := x
  · cases h
  · exact ⟨a, rfl, h⟩

/-- The outcome of a computation is that of its parts, one after another. -/
theorem outcome_bind (x : Noted K α) (f : α → Noted K β) :
    (x >>= f).outcome = x.outcome >>= fun a => (f a).outcome := by
  obtain ⟨notices, fault | a⟩ := x <;> rfl

/-- So is that of the computations of all members of a list. -/
theorem outcome_mapM (f : α → Noted K β) (xs : List α) :
    (xs.mapM f).outcome = xs.mapM fun a => (f a).outcome := by
  induction xs with
  | nil => rfl
  | cons a xs ih =>
    simp only [List.mapM_cons, outcome_bind, ih]
    rfl

/-- Computations of all members of a list that do not fail put their remarks behind each
other. -/
theorem mapM_eq_ok {f : α → Noted K β} {notes : α → List (Notice K)} {g : α → β} {xs : List α}
    (h : ∀ a ∈ xs, f a = ⟨notes a, .ok (g a)⟩) :
    xs.mapM f = ⟨xs.flatMap notes, .ok (xs.map g)⟩ := by
  induction xs with
  | nil => rfl
  | cons a xs ih =>
    rw [List.mapM_cons, h a List.mem_cons_self, ih fun b hb => h b (List.mem_cons_of_mem _ hb),
      ok_bind, ok_bind, pure_eq, List.append_nil, List.flatMap_cons, List.map_cons]

/-- Checked computations of all members of a list leave no remarks. -/
theorem mapM_lift_eq_ok {f : α → Except (Fault K) β} {g : α → β} {xs : List α}
    (h : ∀ a ∈ xs, f a = .ok (g a)) :
    xs.mapM (fun a => (liftM (f a) : Noted K β)) = ⟨[], .ok (xs.map g)⟩ := by
  have hnone : xs.flatMap (fun _ => ([] : List (Notice K))) = [] := by simp
  rw [← hnone]
  exact mapM_eq_ok fun a ha => by rw [lift_eq, h a ha]

end Noted

end AdmissibleRegion
