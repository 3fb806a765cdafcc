import AdmissibleRegion.Region

/-!
# Remarks on the way to a result

A computation may remark on what it met without failing: that a region is empty, that a fit
stopped early, that a weight was dropped. A noted computation carries its remarks in the
order in which they arose, whether it has a result or not.
-/

namespace AdmissibleRegion

/-- How much a remark matters. -/
inductive Level where
  /-- The result is as it should be. -/
  | info
  /-- The result may not be what was asked for. -/
  | warning
  deriving DecidableEq, Repr

/-- A remark. -/
inductive Notice (K : Type) where
  /-- Some samples have no region. -/
  | empty (reason : Emptiness K)
  /-- No sample of the grid satisfies both kinds of constraints. -/
  | nothingAdmissible (model : String)
  /-- The samples of the grid have no region. -/
  | noRegion (model : String)
  /-- A weight fit used up its evaluations and goes on with its best point. -/
  | notConverged (evaluations : Nat)
  /-- A weight fit gave no candidate a positive weight. -/
  | noWeights (candidates : Nat)
  /-- A fitted mean lies in no cell. -/
  | outsideRegion (mean : K)
  /-- No arc has a positive width at a fitted mean, whose weight is dropped. -/
  | noOrdinates (mean : K) (kind : CellKind) (weight : K)

/-- The level of a remark. -/
def Notice.level {K : Type} : Notice K → Level
  | .empty _ | .nothingAdmissible _ | .noRegion _ => .info
  | .notConverged _ | .noWeights _ | .outsideRegion _ | .noOrdinates _ _ _ => .warning

/-- A computation that may fail, with its remarks. -/
structure Noted (K α : Type) where
  /-- The remarks, in order. -/
  notices : List (Notice K)
  /-- The result, or the cause of the failure. -/
  outcome : Except (Fault K) α

namespace Noted

variable {K α β : Type}

/-- A computation without remarks. -/
def ofExcept (outcome : Except (Fault K) α) : Noted K α := ⟨[], outcome⟩

/-- Runs one computation after another; a failure ends both. -/
def andThen (x : Noted K α) (f : α → Noted K β) : Noted K β :=
  match x.outcome with
  | .error fault => ⟨x.notices, .error fault⟩
  | .ok a => ⟨x.notices ++ (f a).notices, (f a).outcome⟩

instance : Monad (Noted K) where
  pure a := ⟨[], .ok a⟩
  bind := andThen

instance : MonadLift (Except (Fault K)) (Noted K) := ⟨ofExcept⟩

/-- Makes a remark. -/
def note (notice : Notice K) : Noted K Unit := ⟨[notice], .ok ()⟩

end Noted

end AdmissibleRegion
