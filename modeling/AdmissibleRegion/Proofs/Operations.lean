import AdmissibleRegion.Proofs.Checked
import AdmissibleRegion.Proofs.Noted
import AdmissibleRegion.Station

/-!
# Operations without a check of their own

Most failures report a value that was refused. A zero divisor, a power that is too large, the
floor of an infinity and an index outside a table are no such reports: they come from the
operation itself. A computation performs a list of operations if it fails in this way only where
one of them fails, and has no result if one of them fails.
-/

namespace AdmissibleRegion

variable {K α β : Type}

/-- Whether a failure comes from an operation itself and reports no value that was refused. -/
def Fault.isUnchecked : Fault K → Bool
  | .divisionByZero | .powerOverflow | .floorOfInfinity | .outsideTable => true
  | _ => false

/-- An operation that may fail unchecked, by the numbers that decide whether it does. -/
inductive Operation (K : Type) where
  /-- A power. -/
  | power (base : K) (exponent : ℕ)
  /-- A quotient. -/
  | quotient (divisor : K)
  /-- The largest integer at most a number. -/
  | floor (argument : K)

variable [Scalar K]

open Scalar

/-- How an operation fails, if it does. -/
def Operation.failure? : Operation K → Option (Fault K)
  | .power x n =>
    if isFinite x && !isFinite (Scalar.power x n) && !isNaN (Scalar.power x n) then
      some .powerOverflow
    else none
  | .quotient divisor => if isZero divisor then some .divisionByZero else none
  | .floor x => if isFinite x || isNaN x then none else some .floorOfInfinity

/-- None of the operations reads a table. -/
theorem Operation.failure?_ne_outsideTable (op : Operation K) :
    op.failure? ≠ some .outsideTable := by
  cases op with
  | power x n =>
    unfold failure?
    split <;> simp
  | quotient divisor =>
    unfold failure?
    split <;> simp
  | floor x =>
    unfold failure?
    split <;> simp

/-- A square exists unless it is too large. -/
theorem Scalar.square_cases (x : K) :
    square x = .ok (power x 2) ∨ square x = .error .powerOverflow := by
  unfold square raise
  dsimp only
  split
  · exact .inr rfl
  · exact .inl rfl

/-- The operations that depend on a result, if there is one. -/
def Operation.following (x : Except (Fault K) α) (operations : α → List (Operation K)) :
    List (Operation K) :=
  match x with
  | .ok a => operations a
  | .error _ => []

/-- A computation performs some operations. -/
structure Performs (operations : List (Operation K)) (x : Except (Fault K) α) : Prop where
  /-- An unchecked failure is that of one of them. -/
  cause : ∀ fault, x = .error fault → fault.isUnchecked = true →
    ∃ op ∈ operations, op.failure? = some fault
  /-- There is no result unless all of them succeed. -/
  needed : ∀ op ∈ operations, ∀ fault, op.failure? = some fault → ∃ reported, x = .error reported

namespace Performs

variable {x : Except (Fault K) α} {f : α → Except (Fault K) β} {s t : List (Operation K)}
  {op : Operation K} {fault : Fault K}

/-- A computation with a result performs no operation. -/
theorem of_ok (a : α) : Performs [] (.ok a : Except (Fault K) α) where
  cause _ h := by cases h
  needed _ h := by cases h

/-- A computation that fails may perform whatever includes the cause. -/
theorem of_cause (h : fault.isUnchecked = true → ∃ op ∈ s, op.failure? = some fault) :
    Performs s (.error fault : Except (Fault K) α) where
  cause other hother hunchecked := by
    obtain rfl := Except.error.inj hother
    exact h hunchecked
  needed _ _ _ _ := ⟨fault, rfl⟩

/-- Refusing a value performs no operation. -/
theorem of_refusal (h : fault.isUnchecked = false) :
    Performs s (.error fault : Except (Fault K) α) :=
  of_cause fun hunchecked => by
    rw [h] at hunchecked
    cases hunchecked

/-- Only the operations that fail matter, and neither their order nor their number. -/
theorem congr (h : Performs s x)
    (hst : ∀ op fault, op.failure? = some fault → (op ∈ s ↔ op ∈ t)) : Performs t x where
  cause fault hfault hunchecked := by
    obtain ⟨op, hop, hfails⟩ := h.cause fault hfault hunchecked
    exact ⟨op, (hst op fault hfails).mp hop, hfails⟩
  needed op hop fault hfails := h.needed op ((hst op fault hfails).mpr hop) fault hfails

theorem cons_iff (h : op.failure? = none) : Performs (op :: s) x ↔ Performs s x := by
  have hmem : ∀ other fault, other.failure? = some fault → (other ∈ op :: s ↔ other ∈ s) := by
    intro other fault hfails
    rw [List.mem_cons, or_iff_right]
    rintro rfl
    rw [h] at hfails
    cases hfails
  exact ⟨fun hx => hx.congr hmem,
    fun hx => hx.congr fun other fault hfails => (hmem other fault hfails).symm⟩

/-- A computation performs the operations of its parts. -/
theorem bind (hx : Performs s x) (hf : ∀ a, x = .ok a → Performs t (f a)) :
    Performs (s ++ t) (x >>= f) := by
  cases x with
  | error fault =>
    -- the second part is not reached, so only the first can be the cause
    refine of_cause fun hunchecked => ?_
    obtain ⟨op, hop, hfails⟩ := hx.cause fault rfl hunchecked
    exact ⟨op, List.mem_append_left t hop, hfails⟩
  | ok a =>
    have ha := hf a rfl
    refine ⟨fun fault hfault hunchecked => ?_, fun op hop fault hfails => ?_⟩
    · obtain ⟨op, hop, hfails⟩ := ha.cause fault hfault hunchecked
      exact ⟨op, List.mem_append_right s hop, hfails⟩
    · rcases List.mem_append.mp hop with hop | hop
      · obtain ⟨_, hreported⟩ := hx.needed op hop fault hfails
        cases hreported
      · exact ha.needed op hop fault hfails

/-- A first part that performs no operation can be left out. -/
theorem nil_bind (hx : Performs [] x) (hf : ∀ a, x = .ok a → Performs t (f a)) :
    Performs t (x >>= f) := hx.bind hf

/-- So can a second part. -/
theorem bind_nil (hx : Performs s x) (hf : ∀ a, x = .ok a → Performs [] (f a)) :
    Performs s (x >>= f) := by
  rw [← List.append_nil s]
  exact hx.bind hf

/-- The operations of the second part may depend on the result of the first. -/
theorem bind_following {t : α → List (Operation K)} (hx : Performs s x)
    (hf : ∀ a, x = .ok a → Performs (t a) (f a)) :
    Performs (s ++ Operation.following x t) (x >>= f) := by
  refine hx.bind fun a ha => ?_
  rw [ha]
  exact hf a ha

theorem map {g : α → β} (h : Performs s x) : Performs s (x.map g) :=
  h.bind_nil fun a _ => of_ok (g a)

/-- A computation of all members of a list performs the operations of each. -/
theorem mapM {xs : List α} {s : α → List (Operation K)}
    (h : ∀ a ∈ xs, Performs (s a) (f a)) : Performs (xs.flatMap s) (xs.mapM f) := by
  induction xs with
  | nil => exact of_ok []
  | cons a xs ih =>
    rw [List.mapM_cons, List.flatMap_cons]
    refine (h a List.mem_cons_self).bind fun b _ => ?_
    exact (ih fun c hc => h c (List.mem_cons_of_mem a hc)).bind_nil fun bs _ => of_ok _

/-- Both ways of a decision may perform the operations. -/
theorem ite {c : Prop} [Decidable c] {y : Except (Fault K) α} (hx : c → Performs s x)
    (hy : ¬c → Performs s y) : Performs s (if c then x else y) := by
  split
  · exact hx ‹_›
  · exact hy ‹_›

section Noted

variable {x : Noted K α} {f : α → Noted K β}

/-- A computation with remarks performs the operations of its parts. -/
theorem outcome_bind (hx : Performs s x.outcome)
    (hf : ∀ a, x.outcome = .ok a → Performs t (f a).outcome) :
    Performs (s ++ t) (x >>= f).outcome := by
  rw [Noted.outcome_bind]
  exact hx.bind hf

theorem outcome_bind_nil (hx : Performs s x.outcome)
    (hf : ∀ a, x.outcome = .ok a → Performs [] (f a).outcome) :
    Performs s (x >>= f).outcome := by
  rw [Noted.outcome_bind]
  exact hx.bind_nil hf

theorem lift_bind {x : Except (Fault K) α} (hx : Performs s x)
    (hf : ∀ a, x = .ok a → Performs t (f a).outcome) :
    Performs (s ++ t) (liftM x >>= f : Noted K β).outcome :=
  outcome_bind (x := liftM x) hx hf

theorem outcome_mapM {xs : List α} {s : α → List (Operation K)}
    (h : ∀ a ∈ xs, Performs (s a) (f a).outcome) :
    Performs (xs.flatMap s) (xs.mapM f).outcome := by
  rw [Noted.outcome_mapM]
  exact mapM h

end Noted

/-- A check for the failure of an operation performs it, and goes on with its value. -/
theorem check_bind {c : Prop} [Decidable c] {a : α}
    (h : op.failure? = if c then some fault else none) (hf : Performs t (f a)) :
    Performs (op :: t) ((if c then .error fault else .ok a) >>= f) := by
  split
  · rename_i hc
    exact of_cause fun _ => ⟨op, List.mem_cons_self, h.trans (if_pos hc)⟩
  · rename_i hc
    exact (cons_iff (h.trans (if_neg hc))).mpr hf

section Scalar

variable {f : K → Except (Fault K) β} {x : K}

theorem raise_bind {n : ℕ} (h : Performs t (f (Scalar.power x n))) :
    Performs (.power x n :: t) (raise x n >>= f) := check_bind rfl h

theorem square_bind (h : Performs t (f (Scalar.power x 2))) :
    Performs (.power x 2 :: t) (square x >>= f) := raise_bind h

theorem divide_bind {b : K} (h : Performs t (f (x / b))) :
    Performs (.quotient b :: t) (divide x b >>= f) := check_bind rfl h

/-- A divisor other than zero needs no check. -/
theorem divide_bind_of_isZero_eq_false {b : K} (hb : isZero b = false)
    (h : Performs t (f (x / b))) : Performs t (divide x b >>= f) := by
  refine (cons_iff ?_).mp (divide_bind h)
  simp [Operation.failure?, hb]

theorem floor?_bind {f : ℤ → Except (Fault K) β} (h : Performs t (f (floor x))) :
    Performs (.floor x :: t) (floor? x >>= f) := by
  unfold floor?
  split
  · exact of_refusal rfl
  · rename_i hdefined
    split
    · rename_i hfinite
      exact (cons_iff (by simp [Operation.failure?, hfinite])).mpr h
    · rename_i hinfinite
      exact of_cause fun _ => ⟨_, List.mem_cons_self,
        by simp [Operation.failure?, hdefined, hinfinite]⟩

theorem squareRoot_bind (h : Performs t (f (sqrt x))) :
    Performs t (squareRoot x >>= f) := by
  unfold squareRoot
  split
  · exact of_refusal rfl
  · exact h

theorem angle_bind (h : Performs t (f x)) : Performs t (angle x >>= f) := by
  unfold angle
  split
  · exact h
  · exact of_refusal rfl

end Scalar

end Performs

theorem Sightline.performs_of (ra dec : K) : Performs [] (Sightline.of ra dec) := by
  unfold Sightline.of
  exact .angle_bind <| .angle_bind <| .of_ok _

theorem performs_realRootBounds {roots : RootFinder K} (hroots : ∀ c, Performs [] (roots c))
    (coefficients : List K) (tolerance : K) :
    Performs [] (realRootBounds roots coefficients tolerance) :=
  .nil_bind (hroots coefficients) fun _ _ => .of_ok _

end AdmissibleRegion
