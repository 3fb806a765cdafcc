import AdmissibleRegion.Proofs.Region.FirstRun

/-!
# Which samples a region stands on

The window of some samples begins at the first one at which a region can begin and ends before
the next incomplete one; it has at least two samples. Nothing behind that sample matters to the
region, and samples in front at which no region can begin only move the indices. This holds of
numbers of every kind.
-/

namespace AdmissibleRegion

/-- The longest prefix of members with a property ends with the list or before the first member
without it. -/
theorem length_takeWhile_eq_iff {α : Type} {p : α → Bool} {xs : List α} {n : ℕ} :
    (xs.takeWhile p).length = n ↔ (∀ k < n, ∃ x, xs[k]? = some x ∧ p x = true) ∧
      (n = xs.length ∨ ∃ x, xs[n]? = some x ∧ p x = false) := by
  induction xs generalizing n with
  | nil =>
    cases n with
    | zero => simp
    | succ n => simp
  | cons first xs ih =>
    cases hfirst : p first with
    | false =>
      rw [List.takeWhile_cons_of_neg (by simp [hfirst])]
      cases n with
      | zero => simp [hfirst]
      | succ n =>
        constructor
        · intro h
          cases h
        · rintro ⟨hall, _⟩
          obtain ⟨x, hx, hpass⟩ := hall 0 n.succ_pos
          obtain rfl := Option.some.inj hx
          rw [hfirst] at hpass
          cases hpass
    | true =>
      rw [List.takeWhile_cons_of_pos hfirst]
      cases n with
      | zero => simp [hfirst]
      | succ n =>
        rw [List.length_cons, Nat.succ_inj, ih, List.length_cons, Nat.succ_inj,
          List.getElem?_cons_succ]
        refine and_congr_left fun _ => ⟨fun h k hk => ?_, fun h k hk => ?_⟩
        · cases k with
          | zero => exact ⟨first, rfl, hfirst⟩
          | succ k => exact h k (Nat.succ_lt_succ_iff.mp hk)
        · exact h (k + 1) (Nat.succ_lt_succ hk)

variable {K : Type} [Scalar K]

namespace Sample

/-- Both outer bounds are present. -/
def Complete (s : Sample K) : Prop :=
  (∃ a, s.amax = some a) ∧ ∃ e, s.emax = some e

/-- Both outer bounds are present, and they exceed the hole on either side if there is one. -/
def Startable (s : Sample K) : Prop :=
  ∃ a e, s.amax = some a ∧ s.emax = some e ∧ ∀ hole, s.amin = some hole →
    hole.upper < a.upper ∧ hole.upper < e.upper ∧ a.lower < hole.lower ∧ e.lower < hole.lower

variable {s : Sample K}

omit [Scalar K] in
theorem isComplete_iff : s.isComplete = true ↔ s.Complete := by
  rw [isComplete, Bool.and_eq_true, Option.isSome_iff_exists, Option.isSome_iff_exists, Complete]

theorem canStart_iff : s.canStart = true ↔ s.Startable := by
  unfold canStart Startable
  cases s.amax with
  | none => simp
  | some a =>
    cases s.emax with
    | none => simp
    | some e => cases s.amin <;> simp [and_assoc]

end Sample

/-- The first and the last index of the window of some samples. -/
structure IsWindow (samples : List (Sample K)) (first last : ℕ) : Prop where
  /-- A region can begin at the first sample. -/
  startable : ∃ s, samples[first]? = some s ∧ s.Startable
  /-- It can begin at no sample before. -/
  least : ∀ i < first, ∀ s, samples[i]? = some s → ¬s.Startable
  /-- There are at least two samples. -/
  first_lt_last : first < last
  /-- All samples are complete. -/
  complete : ∀ i, first ≤ i → i ≤ last → ∃ s, samples[i]? = some s ∧ s.Complete
  /-- No complete sample follows. -/
  stops : last + 1 = samples.length ∨ ∃ s, samples[last + 1]? = some s ∧ ¬s.Complete

/-- A region begins at the least index at which it can. -/
theorem findIdx?_canStart_eq_some_iff {samples : List (Sample K)} {first : ℕ} :
    samples.findIdx? Sample.canStart = some first ↔
      (∃ s, samples[first]? = some s ∧ s.Startable) ∧
        ∀ i < first, ∀ s, samples[i]? = some s → ¬s.Startable := by
  simp only [← Sample.canStart_iff, List.findIdx?_eq_some_iff_getElem, List.getElem?_eq_some_iff]
  constructor
  · rintro ⟨hlt, hstart, hbefore⟩
    refine ⟨⟨_, ⟨hlt, rfl⟩, hstart⟩, ?_⟩
    rintro i hi s ⟨_, rfl⟩
    exact hbefore i hi
  · rintro ⟨⟨s, ⟨hlt, rfl⟩, hstart⟩, hbefore⟩
    exact ⟨hlt, hstart, fun i hi => hbefore i hi _ ⟨hi.trans hlt, rfl⟩⟩

omit [Scalar K] in
/-- The run of complete samples from an index on ends before the next incomplete one. -/
theorem length_run_eq_iff {samples : List (Sample K)} {first last : ℕ} (hle : first ≤ last)
    (hlt : last < samples.length) :
    ((samples.drop first).takeWhile Sample.isComplete).length = last + 1 - first ↔
      (∀ i, first ≤ i → i ≤ last → ∃ s, samples[i]? = some s ∧ s.Complete) ∧
        (last + 1 = samples.length ∨ ∃ s, samples[last + 1]? = some s ∧ ¬s.Complete) := by
  rw [length_takeWhile_eq_iff, List.length_drop, List.getElem?_drop,
    (by omega : first + (last + 1 - first) = last + 1)]
  simp only [← Sample.isComplete_iff, Bool.not_eq_true, List.getElem?_drop]
  refine and_congr ⟨fun h i hfirst hlast => ?_, fun h k hk => ?_⟩ (or_congr_left (by omega))
  · have hat := h (i - first) (by omega)
    rwa [Nat.add_sub_cancel' hfirst] at hat
  · exact h (first + k) (Nat.le_add_right _ _) (by omega)

/-- The window is found where there is one. -/
theorem window?_eq_some_iff_isWindow {samples : List (Sample K)} {first last : ℕ} :
    window? samples = some (first, last) ↔ IsWindow samples first last := by
  unfold window?
  cases hstart : samples.findIdx? Sample.canStart with
  | none =>
    constructor
    · intro h
      cases h
    · intro h
      have hfound := findIdx?_canStart_eq_some_iff.mpr ⟨h.startable, h.least⟩
      rw [hstart] at hfound
      cases hfound
  | some start =>
    obtain ⟨hstartable, hleast⟩ := findIdx?_canStart_eq_some_iff.mp hstart
    have hshort := (List.takeWhile_sublist Sample.isComplete (l := samples.drop start)).length_le
    rw [List.length_drop] at hshort
    simp only [Option.ite_none_right_eq_some, Option.some.injEq, Prod.mk.injEq]
    generalize hrun : ((samples.drop start).takeWhile Sample.isComplete).length = n at *
    constructor
    · rintro ⟨htwo, rfl, rfl⟩
      have hlength : n = start + n - 1 + 1 - start := by omega
      obtain ⟨hcomplete, hstops⟩ :=
        (length_run_eq_iff (by omega) (by omega)).mp (hrun.trans hlength)
      exact ⟨hstartable, hleast, by omega, hcomplete, hstops⟩
    · intro h
      have hsame := findIdx?_canStart_eq_some_iff.mpr ⟨h.startable, h.least⟩
      obtain rfl := Option.some.inj (hstart.symm.trans hsame)
      have hlt := h.first_lt_last
      obtain ⟨_, hlast, _⟩ := h.complete last hlt.le le_rfl
      have hlength := (length_run_eq_iff hlt.le (List.getElem?_eq_some_iff.mp hlast).1).mpr
        ⟨h.complete, h.stops⟩
      rw [hrun] at hlength
      exact ⟨by omega, rfl, by omega⟩

/-- There is no window only where none fits. -/
theorem window?_eq_none_iff {samples : List (Sample K)} :
    window? samples = none ↔ ∀ first last, ¬IsWindow samples first last := by
  rw [Option.eq_none_iff_forall_ne_some]
  simp only [Prod.forall, ne_eq, window?_eq_some_iff_isWindow]

namespace Region

/-- A region that stands on a window, unless its cells have no area. -/
def ofWindow (first last : ℕ) (window : List (Sample K)) : Option (Region K) :=
  let cells := Cell.ofSamples window
  let area := areaOf cells
  if 0.0 < area then
    some {
      first, last, samples := window, cells, area
      density := cells.map fun cell => cell.meanWidth / area }
  else none

/-- The region of some samples is that of their window. -/
theorem toOption_ofSamples (samples : List (Sample K)) :
    (ofSamples samples).toOption = (window? samples).bind fun (first, last) =>
      ofWindow first last ((samples.drop first).take (last + 1 - first)) := by
  unfold ofSamples
  cases window? samples with
  | none => rfl
  | some range =>
    simp only [Option.bind_some, ofWindow]
    split <;> rfl

/-- The same region at later indices. -/
def moved (r : Region K) (n : ℕ) : Region K :=
  { r with first := r.first + n, last := r.last + n }

theorem ofWindow_add (first last n : ℕ) (window : List (Sample K)) :
    ofWindow (first + n) (last + n) window = (ofWindow first last window).map (moved · n) := by
  simp only [ofWindow]
  by_cases harea : 0.0 < areaOf (Cell.ofSamples window)
  · rw [if_pos harea, if_pos harea]
    rfl
  · rw [if_neg harea, if_neg harea]
    rfl

end Region

section Append

variable {front rest samples : List (Sample K)} {s : Sample K}

/-- Samples in front at which no region can begin move the window. -/
theorem window?_append (h : ∀ t ∈ front, ¬t.Startable) :
    window? (front ++ samples) =
      (window? samples).map fun (first, last) => (first + front.length, last + front.length) := by
  have hnone : front.findIdx? Sample.canStart = none := by
    rw [List.findIdx?_eq_none_iff]
    intro t ht
    rw [Bool.eq_false_iff, ne_eq, Sample.canStart_iff]
    exact h t ht
  unfold window?
  rw [List.findIdx?_append, hnone, Option.none_or]
  cases samples.findIdx? Sample.canStart with
  | none => rfl
  | some start =>
    simp only [Option.map_some]
    rw [Nat.add_comm start, List.drop_length_add_append]
    generalize ((samples.drop start).takeWhile Sample.isComplete).length = n
    by_cases htwo : 2 ≤ n
    · rw [if_pos htwo, if_pos htwo, Option.map_some, Option.some.injEq, Prod.mk.injEq]
      omega
    · rw [if_neg htwo, if_neg htwo]
      rfl

/-- They move the region as well. -/
theorem toOption_ofSamples_append (h : ∀ t ∈ front, ¬t.Startable) :
    (Region.ofSamples (front ++ samples)).toOption =
      (Region.ofSamples samples).toOption.map (·.moved front.length) := by
  rw [Region.toOption_ofSamples, Region.toOption_ofSamples, window?_append h]
  cases window? samples with
  | none => rfl
  | some range =>
    obtain ⟨first, last⟩ := range
    have hcount : last + front.length + 1 - (first + front.length) = last + 1 - first := by omega
    simp only [Option.map_some, Option.bind_some]
    rw [hcount, Nat.add_comm first, List.drop_length_add_append, Nat.add_comm front.length,
      Region.ofWindow_add]

/-- What follows an incomplete sample behind one at which a region can begin is not part of the
window. -/
theorem window?_append_cons (h : ∃ t ∈ front, t.Startable) (hs : ¬s.Complete) :
    window? (front ++ s :: rest) = window? front := by
  obtain ⟨t, ht, hstartable⟩ := h
  have hincomplete : s.isComplete = false := by
    rw [Bool.eq_false_iff, ne_eq, Sample.isComplete_iff]
    exact hs
  unfold window?
  rw [List.findIdx?_append]
  cases hstart : front.findIdx? Sample.canStart with
  | none =>
    have hnever := List.findIdx?_eq_none_iff.mp hstart t ht
    rw [Bool.eq_false_iff, ne_eq, Sample.canStart_iff] at hnever
    exact absurd hstartable hnever
  | some start =>
    obtain ⟨hlt, _⟩ := List.findIdx?_eq_some_iff_getElem.mp hstart
    have hrun : ((front ++ s :: rest).drop start).takeWhile Sample.isComplete =
        (front.drop start).takeWhile Sample.isComplete := by
      rw [List.drop_append_of_le_length hlt.le, List.takeWhile_append]
      split
      · rename_i hall
        rw [List.takeWhile_cons_of_neg (by simp [hincomplete]), List.append_nil]
        exact ((List.takeWhile_sublist _).eq_of_length hall).symm
      · rfl
    simp only [Option.some_or, hrun]

/-- Nor is it part of the region. -/
theorem toOption_ofSamples_append_cons (h : ∃ t ∈ front, t.Startable) (hs : ¬s.Complete) :
    (Region.ofSamples (front ++ s :: rest)).toOption = (Region.ofSamples front).toOption := by
  rw [Region.toOption_ofSamples, Region.toOption_ofSamples, window?_append_cons h hs]
  cases hw : window? front with
  | none => rfl
  | some range =>
    obtain ⟨first, last⟩ := range
    have hwindow := window?_eq_some_iff_isWindow.mp hw
    obtain ⟨_, hlast, _⟩ := hwindow.complete last hwindow.first_lt_last.le le_rfl
    have hlt := (List.getElem?_eq_some_iff.mp hlast).1
    have hfirst := hwindow.first_lt_last
    have hcount : last + 1 - first ≤ (front.drop first).length := by
      rw [List.length_drop]
      omega
    simp only [Option.bind_some]
    rw [List.drop_append_of_le_length (by omega), List.take_append_of_le_length hcount]

end Append

/-- The window of some samples is found exactly if there is one. What follows the first incomplete
sample behind its start does not matter to window and region, and samples in front at which no
region can begin only move their indices. -/
theorem window_determined :
    (∀ (samples : List (Sample K)) (first last : ℕ),
      window? samples = some (first, last) ↔ IsWindow samples first last) ∧
    (∀ samples : List (Sample K),
      window? samples = none ↔ ∀ first last, ¬IsWindow samples first last) ∧
    (∀ (front : List (Sample K)) (s : Sample K) (rest rest' : List (Sample K)),
      (∃ t ∈ front, t.Startable) → ¬s.Complete →
        window? (front ++ s :: rest) = window? (front ++ s :: rest') ∧
        (Region.ofSamples (front ++ s :: rest)).toOption =
          (Region.ofSamples (front ++ s :: rest')).toOption) ∧
    ∀ front samples : List (Sample K), (∀ t ∈ front, ¬t.Startable) →
      (window? (front ++ samples) = (window? samples).map fun (first, last) =>
        (first + front.length, last + front.length)) ∧
      (Region.ofSamples (front ++ samples)).toOption =
        (Region.ofSamples samples).toOption.map fun region =>
          { region with
            first := region.first + front.length
            last := region.last + front.length } := by
  refine ⟨fun _ _ _ => window?_eq_some_iff_isWindow, fun _ => window?_eq_none_iff,
    fun front s rest rest' h hs => ⟨?_, ?_⟩,
    fun front samples h => ⟨window?_append h, toOption_ofSamples_append h⟩⟩
  · rw [window?_append_cons h hs, window?_append_cons h hs]
  · rw [toOption_ofSamples_append_cons h hs, toOption_ofSamples_append_cons h hs]

namespace Region

/-- A sample without a bound on the semi-major axis. -/
def unbounded : Sample ℝ := ⟨0, none, none, some ⟨-1, 1⟩⟩

/-- Two samples at which a region can begin have the same window before an incomplete sample,
whatever follows it, and behind one. -/
theorem window_determined_unbounded :
    (∃ t ∈ [openAt 1, openAt 2], t.Startable) ∧ ¬unbounded.Complete ∧
      (∀ t ∈ [unbounded], ¬t.Startable) ∧
      window? ([openAt 1, openAt 2] ++ unbounded :: [openAt 3, openAt 4]) = some (0, 1) ∧
      window? ([unbounded] ++ [openAt 1, openAt 2]) = some (1, 2) := by
  obtain ⟨hexact, _, hbehind, hfront⟩ := window_determined (K := ℝ)
  have hstartable : ∀ k, (openAt k).Startable := fun k =>
    Sample.canStart_iff.mp (isOpen_openAt k).canStart
  have hexists : ∃ t ∈ [openAt 1, openAt 2], t.Startable :=
    ⟨openAt 1, List.mem_cons_self, hstartable 1⟩
  have hincomplete : ¬unbounded.Complete := by simp [Sample.Complete, unbounded]
  have hnever : ∀ t ∈ [unbounded], ¬t.Startable := by simp [Sample.Startable, unbounded]
  have hwindow : ∀ rest, (2 = rest.length + 2 ∨ ∃ s, rest[0]? = some s ∧ ¬s.Complete) →
      window? (openAt 1 :: openAt 2 :: rest) = some (0, 1) := by
    intro rest hstops
    have hcomplete : ∀ k, (openAt k).Complete := fun k =>
      Sample.isComplete_iff.mp (isOpen_openAt k).isComplete
    refine (hexact _ 0 1).mpr ⟨⟨_, rfl, hstartable 1⟩, by omega, one_pos, ?_, hstops⟩
    intro i _ hi
    rcases Nat.le_one_iff_eq_zero_or_eq_one.mp hi with rfl | rfl
    · exact ⟨_, rfl, hcomplete 1⟩
    · exact ⟨_, rfl, hcomplete 2⟩
  have hmoved := (hfront [unbounded] [openAt 1, openAt 2] hnever).1
  rw [hwindow [] (.inl rfl)] at hmoved
  refine ⟨hexists, hincomplete, hnever, ?_, hmoved⟩
  rw [(hbehind _ _ _ [] hexists hincomplete).1]
  exact hwindow [unbounded] (.inr ⟨_, rfl, hincomplete⟩)

end Region

end AdmissibleRegion
