import AdmissibleRegion.Proofs.Shares
import AdmissibleRegion.Proofs.Weights

/-!
# Conservation of weight

The components of a fitted mixture make a whole unless there is none. Weight is lost only with
a mean that has no ordinates, one warning for each; what is left is scaled by one common
factor, so that means keep their proportions.
-/

namespace AdmissibleRegion

open Scalar

/-- The total weight of the components of one mean. -/
noncomputable def Component.totalAt (components : List (Component ℝ)) (mean : ℝ) : ℝ :=
  ((components.filter fun c => c.abscissaMean = mean).map (·.weight)).sum

/-- A component with its weight as a share of a total. -/
noncomputable def Component.scaled (total : ℝ) (c : Component ℝ) : Component ℝ :=
  { c with weight := c.weight / total }

/-- Shares of one are the weights themselves. -/
theorem Component.scaled_one (c : Component ℝ) : c.scaled 1 = c := by
  rw [scaled, div_one]

/-- Scaling divides the sum of all weights. -/
theorem Component.sum_scaled (total : ℝ) (components : List (Component ℝ)) :
    ((components.map (scaled total)).map (·.weight)).sum =
      (components.map (·.weight)).sum / total := by
  rw [List.map_map, div_eq_mul_inv, ← List.sum_map_mul_right]
  rfl

/-- Normalising divides by the sum unless it is zero. -/
theorem normalised_eq_ok {components : List (Component ℝ)}
    (h : (components.map (·.weight)).sum ≠ 0) :
    normalised components =
      .ok (components.map (Component.scaled (components.map (·.weight)).sum)) := by
  unfold normalised
  apply mapM_eq_ok
  intro c _
  rw [sum_eq, divide_eq_ok _ h, ok_bind, pure_eq_ok, Component.scaled]

/-- What is kept of surviving means, and what is said of the lost ones. -/
structure Conserved (region : Region ℝ) (surviving : List (ℝ × ℝ))
    (components : List (Component ℝ)) (notices : List (Notice ℝ)) : Prop where
  /-- The surviving means ascend, so that no two are equal. -/
  ascending : (surviving.map Prod.fst).Pairwise (· < ·)
  /-- The weights make a whole unless everything is lost. -/
  sum_eq_one : components ≠ [] → (components.map (·.weight)).sum = 1
  weight_mem : ∀ c ∈ components, 0 < c.weight ∧ c.weight ≤ 1
  /-- Every component stands for a surviving mean. -/
  abscissaMean_mem : ∀ c ∈ components, ∃ p ∈ surviving, c.abscissaMean = p.1
  /-- The components of one mean have equal weights. -/
  weight_eq : ∀ c ∈ components, ∀ d ∈ components, c.abscissaMean = d.abscissaMean →
    c.weight = d.weight
  /-- The totals of two means with components are in the proportion of their fitted weights. -/
  proportion : ∀ p ∈ surviving, ∀ q ∈ surviving, (∃ c ∈ components, c.abscissaMean = p.1) →
    (∃ c ∈ components, c.abscissaMean = q.1) →
    Component.totalAt components p.1 / Component.totalAt components q.1 = p.2 / q.2
  /-- A mean has components exactly where the region has ordinates. -/
  kept_iff : ∀ p ∈ surviving,
    (∃ c ∈ components, c.abscissaMean = p.1) ↔ region.HasOrdinates p.1
  /-- There is one remark for every surviving mean without components, in their order. -/
  notices_eq : notices =
    (surviving.filter fun p => ∀ c ∈ components, c.abscissaMean ≠ p.1).map fun p =>
      region.loss p.1 p.2
  /-- Every remark is a warning. -/
  level_eq : ∀ notice ∈ notices, notice.level = .warning

/-- The parts of surviving means: each stands for its own mean and shares its weight. -/
structure Allotment (surviving : List (ℝ × ℝ)) (part : ℝ × ℝ → List (Component ℝ)) : Prop where
  ascending : (surviving.map Prod.fst).Pairwise (· < ·)
  weight_pos : ∀ p ∈ surviving, 0 < p.2
  shares : ∀ p ∈ surviving, Shares p.1 p.2 (part p)

namespace Allotment

variable {surviving : List (ℝ × ℝ)} {part : ℝ × ℝ → List (Component ℝ)} {p : ℝ × ℝ}

theorem of_cons (h : Allotment (p :: surviving) part) : Allotment surviving part where
  ascending := h.ascending.of_cons
  weight_pos := fun q hq => h.weight_pos q (List.mem_cons_of_mem _ hq)
  shares := fun q hq => h.shares q (List.mem_cons_of_mem _ hq)

theorem nodup (h : Allotment surviving part) : (surviving.map Prod.fst).Nodup :=
  h.ascending.imp ne_of_lt

/-- A component of a part tells its mean. -/
theorem exists_of_mem (h : Allotment surviving part) {c : Component ℝ}
    (hc : c ∈ surviving.flatMap part) :
    ∃ p ∈ surviving, c ∈ part p ∧ c.abscissaMean = p.1 := by
  obtain ⟨p, hp, hc⟩ := List.mem_flatMap.mp hc
  exact ⟨p, hp, hc, (h.shares p hp).abscissaMean_eq c hc⟩

/-- Two surviving pairs with one mean are the same. -/
theorem eq_of_fst_eq (h : Allotment surviving part) {q : ℝ × ℝ} (hp : p ∈ surviving)
    (hq : q ∈ surviving) (heq : p.1 = q.1) : p = q :=
  List.inj_on_of_nodup_map h.nodup hp hq heq

/-- The components of one mean are its part. -/
theorem filter_eq (h : Allotment surviving part) (hp : p ∈ surviving) :
    ((surviving.flatMap part).filter fun c => c.abscissaMean = p.1) = part p := by
  induction surviving with
  | nil => simp at hp
  | cons q surviving ih =>
    have hq := h.shares q List.mem_cons_self
    rw [List.flatMap_cons, List.filter_append]
    rcases List.mem_cons.mp hp with rfl | hp'
    · have hself : ((part p).filter fun c => c.abscissaMean = p.1) = part p := by
        rw [List.filter_eq_self]
        intro c hc
        simpa using hq.abscissaMean_eq c hc
      have hrest : ((surviving.flatMap part).filter fun c => c.abscissaMean = p.1) = [] := by
        rw [List.filter_eq_nil_iff]
        intro c hc hmean
        obtain ⟨r, hr, _, hcr⟩ := h.of_cons.exists_of_mem hc
        have hmem := List.mem_map_of_mem (f := Prod.fst) hr
        rw [← hcr, of_decide_eq_true hmean] at hmem
        exact (List.nodup_cons.mp h.nodup).1 hmem
      rw [hself, hrest, List.append_nil]
    · have hother : ((part q).filter fun c => c.abscissaMean = p.1) = [] := by
        rw [List.filter_eq_nil_iff]
        intro c hc hmean
        have hmem := List.mem_map_of_mem (f := Prod.fst) hp'
        rw [← of_decide_eq_true hmean, hq.abscissaMean_eq c hc] at hmem
        exact (List.nodup_cons.mp h.nodup).1 hmem
      rw [hother, List.nil_append, ih h.of_cons hp']

/-- A mean has components exactly if its part has. -/
theorem exists_abscissaMean_iff (h : Allotment surviving part) (hp : p ∈ surviving) :
    (∃ c ∈ surviving.flatMap part, c.abscissaMean = p.1) ↔ part p ≠ [] := by
  rw [← h.filter_eq hp]
  simp only [ne_eq, List.filter_eq_nil_iff, decide_eq_true_eq, not_forall, not_not, exists_prop]

theorem weight_pos_of_mem (h : Allotment surviving part) {c : Component ℝ}
    (hc : c ∈ surviving.flatMap part) : 0 < c.weight := by
  obtain ⟨p, hp, hc, _⟩ := h.exists_of_mem hc
  exact (h.shares p hp).weight_pos (h.weight_pos p hp) hc

/-- If no part is empty, all weight is kept. -/
theorem sum_weight (h : Allotment surviving part) (hne : ∀ p ∈ surviving, part p ≠ []) :
    ((surviving.flatMap part).map (·.weight)).sum = (surviving.map Prod.snd).sum := by
  induction surviving with
  | nil => rfl
  | cons p surviving ih =>
    have hp := (h.shares p List.mem_cons_self).sum_weight (hne p List.mem_cons_self)
    have hrest := ih h.of_cons fun q hq => hne q (List.mem_cons_of_mem _ hq)
    rw [List.flatMap_cons, List.map_append, List.sum_append, hp, hrest, List.map_cons,
      List.sum_cons]

/-- After scaling, the components of one mean are its part, scaled. -/
theorem filter_scaled (h : Allotment surviving part) (total : ℝ) (hp : p ∈ surviving) :
    (((surviving.flatMap part).map (Component.scaled total)).filter
      fun c => c.abscissaMean = p.1) = (part p).map (Component.scaled total) := by
  have hscaled : (fun c : Component ℝ => decide (c.abscissaMean = p.1)) ∘ Component.scaled total =
      fun c => decide (c.abscissaMean = p.1) := rfl
  rw [List.filter_map, hscaled, h.filter_eq hp]

/-- Scaling divides the total of every mean. -/
theorem totalAt_scaled (h : Allotment surviving part) (total : ℝ) (hp : p ∈ surviving)
    (hne : part p ≠ []) :
    Component.totalAt ((surviving.flatMap part).map (Component.scaled total)) p.1 =
      p.2 / total := by
  rw [Component.totalAt, h.filter_scaled total hp, Component.sum_scaled,
    (h.shares p hp).sum_weight hne]

/-- A scaled component comes from the part of its mean. -/
theorem exists_of_mem_scaled (h : Allotment surviving part) {total : ℝ} {c : Component ℝ}
    (hc : c ∈ (surviving.flatMap part).map (Component.scaled total)) :
    ∃ p ∈ surviving, c.abscissaMean = p.1 ∧ c.weight = p.2 / (part p).length / total := by
  obtain ⟨b, hb, rfl⟩ := List.mem_map.mp hc
  obtain ⟨p, hp, hb, hmean⟩ := h.exists_of_mem hb
  refine ⟨p, hp, hmean, ?_⟩
  rw [Component.scaled, (h.shares p hp).weight_eq b hb]

/-- Scaling neither adds nor drops means. -/
theorem exists_scaled_iff (h : Allotment surviving part) (total : ℝ) (hp : p ∈ surviving) :
    (∃ c ∈ (surviving.flatMap part).map (Component.scaled total), c.abscissaMean = p.1) ↔
      part p ≠ [] := by
  rw [← h.exists_abscissaMean_iff hp]
  constructor
  · rintro ⟨c, hc, hmean⟩
    obtain ⟨b, hb, rfl⟩ := List.mem_map.mp hc
    exact ⟨b, hb, hmean⟩
  · rintro ⟨b, hb, hmean⟩
    exact ⟨b.scaled total, List.mem_map_of_mem hb, hmean⟩

/-- Singletons where a test holds, behind each other, are the members that pass it. -/
private theorem flatMap_singleton_if {α β : Type} (test : α → Bool) (f : α → β) (xs : List α) :
    (xs.flatMap fun a => if test a then [f a] else []) = (xs.filter test).map f := by
  induction xs with
  | nil => rfl
  | cons a xs ih =>
    rw [List.flatMap_cons, ih]
    cases htest : test a with
    | true => simp [htest]
    | false => simp [htest]

/-- The remarks are those for the means without components. -/
theorem notices_eq (h : Allotment surviving part) (total : ℝ) (loss : ℝ × ℝ → Notice ℝ) :
    (surviving.flatMap fun p => if (part p).isEmpty then [loss p] else []) =
      (surviving.filter fun p => ∀ c ∈ (surviving.flatMap part).map (Component.scaled total),
        c.abscissaMean ≠ p.1).map loss := by
  have hempty : ∀ p ∈ surviving, decide (∀ c ∈ (surviving.flatMap part).map
      (Component.scaled total), c.abscissaMean ≠ p.1) = (part p).isEmpty := by
    intro p hp
    have hiff := not_congr (h.exists_scaled_iff total hp)
    rw [not_not, not_exists] at hiff
    rw [Bool.eq_iff_iff, decide_eq_true_eq, List.isEmpty_iff, ← hiff]
    simp only [not_and, ne_eq]
  rw [List.filter_congr hempty, flatMap_singleton_if]

theorem scaled_weight_pos (h : Allotment surviving part) {total : ℝ} (htotal : 0 < total) :
    ∀ c ∈ (surviving.flatMap part).map (Component.scaled total), 0 < c.weight := by
  intro c hc
  obtain ⟨b, hb, rfl⟩ := List.mem_map.mp hc
  exact div_pos (h.weight_pos_of_mem hb) htotal

/-- Shares of the sum of all weights make a whole. -/
theorem sum_scaled_eq_one {total : ℝ} (htotal : 0 < total)
    (hsum : surviving.flatMap part ≠ [] →
      ((surviving.flatMap part).map (·.weight)).sum = total)
    (hne : (surviving.flatMap part).map (Component.scaled total) ≠ []) :
    (((surviving.flatMap part).map (Component.scaled total)).map (·.weight)).sum = 1 := by
  rw [Component.sum_scaled, hsum (mt List.map_eq_nil_iff.mpr hne), div_self htotal.ne']

/-- Parts that are scaled to a whole conserve weight. -/
theorem conserved {region : Region ℝ} {total : ℝ} (h : Allotment surviving part)
    (hordinates : ∀ p ∈ surviving, part p = [] ↔ ¬region.HasOrdinates p.1) (htotal : 0 < total)
    (hsum : surviving.flatMap part ≠ [] →
      ((surviving.flatMap part).map (·.weight)).sum = total) :
    Conserved region surviving ((surviving.flatMap part).map (Component.scaled total))
      (surviving.flatMap fun p =>
        if (part p).isEmpty then [region.loss p.1 p.2] else []) := by
  have hpos := h.scaled_weight_pos htotal
  have hone := sum_scaled_eq_one htotal hsum
  have hnotices := h.notices_eq total fun p => region.loss p.1 p.2
  refine ⟨h.ascending, hone, ?_, ?_, ?_, ?_, ?_, hnotices, ?_⟩
  · -- no positive weight exceeds a sum of positive weights
    intro c hc
    refine ⟨hpos c hc, ?_⟩
    rw [← hone (List.ne_nil_of_mem hc)]
    refine List.single_le_sum (fun w hw => ?_) _ (List.mem_map_of_mem hc)
    obtain ⟨d, hd, rfl⟩ := List.mem_map.mp hw
    exact (hpos d hd).le
  · intro c hc
    obtain ⟨p, hp, hmean, _⟩ := h.exists_of_mem_scaled hc
    exact ⟨p, hp, hmean⟩
  · -- components with one mean come from one part
    intro c hc d hd heq
    obtain ⟨p, hp, hcp, hcw⟩ := h.exists_of_mem_scaled hc
    obtain ⟨q, hq, hdq, hdw⟩ := h.exists_of_mem_scaled hd
    obtain rfl := h.eq_of_fst_eq hp hq (hcp.symm.trans (heq.trans hdq))
    rw [hcw, hdw]
  · -- the common factor cancels
    intro p hp q hq hpc hqc
    rw [h.totalAt_scaled total hp ((h.exists_scaled_iff total hp).mp hpc),
      h.totalAt_scaled total hq ((h.exists_scaled_iff total hq).mp hqc)]
    exact div_div_div_cancel_right₀ htotal.ne' p.2 q.2
  · intro p hp
    rw [h.exists_scaled_iff total hp, ne_eq, hordinates p hp, not_not]
  · intro notice hnotice
    obtain ⟨p, _, hnotice⟩ := List.mem_flatMap.mp hnotice
    split at hnotice
    · rw [List.mem_singleton.mp hnotice, region.level_loss]
    · exact absurd hnotice List.not_mem_nil

/-- Whether weight is lost or not, the components end as shares of what is left. -/
theorem exists_total (h : Allotment surviving part)
    (hwhole : surviving ≠ [] → (surviving.map Prod.snd).sum = 1) :
    ∃ total, 0 < total ∧ (surviving.flatMap part ≠ [] →
        ((surviving.flatMap part).map (·.weight)).sum = total) ∧
      (if (surviving.map part).any (·.isEmpty) then
          Noted.ofExcept (normalised (surviving.flatMap part))
        else pure (surviving.flatMap part)) =
        ⟨[], .ok ((surviving.flatMap part).map (Component.scaled total))⟩ := by
  by_cases hlost : (surviving.map part).any (·.isEmpty) = true
  · -- the weights that are left may still be none at all
    rw [if_pos hlost]
    by_cases hnil : surviving.flatMap part = []
    · refine ⟨1, one_pos, fun hne => absurd hnil hne, ?_⟩
      rw [hnil]
      rfl
    · have hpos : 0 < ((surviving.flatMap part).map (·.weight)).sum := by
        apply List.sum_pos
        · intro w hw
          obtain ⟨c, hc, rfl⟩ := List.mem_map.mp hw
          exact h.weight_pos_of_mem hc
        · exact mt List.map_eq_nil_iff.mp hnil
      refine ⟨_, hpos, fun _ => rfl, ?_⟩
      rw [normalised_eq_ok hpos.ne', Noted.ofExcept_eq]
  · -- nothing is lost, and the fitted weights were a whole
    rw [if_neg hlost]
    have hne : ∀ p ∈ surviving, part p ≠ [] := by
      intro p hp hnil
      refine hlost (List.any_eq_true.mpr ⟨part p, List.mem_map_of_mem hp, ?_⟩)
      rw [hnil, List.isEmpty_nil]
    refine ⟨1, one_pos, fun hcomponents => ?_, ?_⟩
    · rw [h.sum_weight hne]
      refine hwhole fun hnil => hcomponents ?_
      rw [hnil, List.flatMap_nil]
    · rw [List.map_congr_left fun c _ => c.scaled_one, List.map_id']
      rfl

/-- Where every surviving mean has its part, the hypotheses are all parts behind each other,
with weights as shares of what is left. -/
theorem exists_hypotheses_eq {region : Region ℝ} {table : SplitTable ℝ} {mixture : Mixture ℝ}
    {sigma : ℝ} {notes : ℝ × ℝ → List (Notice ℝ)} (h : Allotment mixture.surviving part)
    (hwhole : mixture.surviving ≠ [] → (mixture.surviving.map Prod.snd).sum = 1)
    (hpart : ∀ p ∈ mixture.surviving,
      componentsAt region table mixture.sigma sigma p.1 p.2 = ⟨notes p, .ok (part p)⟩) :
    ∃ total, 0 < total ∧ (mixture.surviving.flatMap part ≠ [] →
        ((mixture.surviving.flatMap part).map (·.weight)).sum = total) ∧
      hypotheses region mixture sigma table = ⟨mixture.surviving.flatMap notes,
        .ok ((mixture.surviving.flatMap part).map (Component.scaled total))⟩ := by
  have hrun : (mixture.surviving.mapM fun (mean, weight) =>
      componentsAt region table mixture.sigma sigma mean weight) =
      ⟨mixture.surviving.flatMap notes, .ok (mixture.surviving.map part)⟩ :=
    Noted.mapM_eq_ok hpart
  obtain ⟨total, htotal, hsum, hend⟩ := h.exists_total hwhole
  refine ⟨total, htotal, hsum, ?_⟩
  unfold hypotheses
  rw [hrun, Noted.ok_bind, ← List.flatMap_def, hend, List.append_nil]

end Allotment

/-- The parts of the surviving means of a fit. -/
theorem Fit.Of.allotment {point : List ℝ} {fit : Fit ℝ} (h : fit.Of point)
    {part : ℝ × ℝ → List (Component ℝ)}
    (hshares : ∀ p ∈ fit.mixture.surviving, Shares p.1 p.2 (part p)) :
    Allotment fit.mixture.surviving part :=
  ⟨h.pairwise_surviving, fun _ => Mixture.weight_pos_of_mem_surviving, hshares⟩

namespace Region

variable {samples : List (Sample ℝ)} {region : Region ℝ} {table : SplitTable ℝ}

/-- The hypotheses of a fitted mixture conserve its weight. -/
theorem Of.exists_hypotheses (h : region.Of samples) (hasc : Ascending samples)
    (hvalues : table.values ≠ []) (sigma : ℝ) {point : List ℝ} {fit : Fit ℝ}
    (hfit : fit.Of point) :
    ∃ notices components,
      hypotheses region fit.mixture sigma table = ⟨notices, .ok components⟩ ∧
      Conserved region fit.mixture.surviving components notices := by
  choose part hpart hshares hordinates using fun p : ℝ × ℝ =>
    h.exists_componentsAt hasc hvalues fit.mixture.sigma sigma p.1 p.2
  have hallot := hfit.allotment fun p _ => hshares p
  obtain ⟨total, htotal, hsum, hrun⟩ :=
    hallot.exists_hypotheses_eq hfit.sum_surviving_eq_one fun p _ => hpart p
  exact ⟨_, _, hrun, hallot.conserved (fun p _ => hordinates p) htotal hsum⟩

/-- Whatever point a solver finds, a fit is made of it, the fitted weights and the weights of the
hypotheses are shares of one whole, and exactly the means with a positive weight go from one to
the other. -/
theorem fitted_and_conserved (hasc : Ascending samples) (hregion : ofSamples samples = .ok region)
    (hvalues : table.values ≠ []) (sigma₁ sigma₂ : ℝ) (budget : ℤ) (tolerance : ℝ)
    (strict : Bool) :
    ∃ problem : WeightProblem ℝ, 0 < problem.candidates ∧ ∀ solve solution,
      solve problem = .ok solution → solution.point.length = problem.candidates →
      (strict = true → solution.converged = true) →
      ∃ cover fit notices components,
        table.cover region.start region.stop sigma₁ = .ok cover ∧
        (fitMixture solve region sigma₁ table budget tolerance strict).outcome = .ok fit ∧
        fit.MadeOf cover solution ∧
        Fitted solution.point fit.mixture.weights ∧ fit.mixture.Accounted ∧
        hypotheses region fit.mixture sigma₂ table = ⟨notices, .ok components⟩ ∧
        Conserved region fit.mixture.surviving components notices := by
  have hof := of_ofSamples hregion
  obtain ⟨problem, hcandidates, hproblem⟩ :=
    hof.exists_fit hasc hvalues sigma₁ budget tolerance strict
  refine ⟨problem, hcandidates, fun solve solution hsolve hlength hstrict => ?_⟩
  obtain ⟨cover, fit, hcover, houtcome, hmade, hfit⟩ :=
    hproblem solve solution hsolve hlength hstrict
  obtain ⟨notices, components, hrun, hconserved⟩ := hof.exists_hypotheses hasc hvalues sigma₂ hfit
  exact ⟨cover, fit, notices, components, hcover, houtcome, hmade, hfit.fitted, hfit.accounted,
    hrun, hconserved⟩

/-- A solver that leaves the box on both sides. -/
noncomputable def outside : WeightSolver ℝ := fun problem =>
  .ok ⟨1.5 :: List.replicate (problem.candidates - 1) (-1), 0, 1, true⟩

/-- A table with one size. -/
noncomputable def single : SplitTable ℝ := ⟨[0.5], SplitTable.inMemory⟩

/-- A point with coordinates above one and below zero still gives a whole, and its first mean
survives. -/
theorem fitted_and_conserved_changing : ∃ region fit notices components,
    ofSamples changing = .ok region ∧ single.values ≠ [] ∧
    (fitMixture outside region 1 single 100 0 true).outcome = .ok fit ∧
    fit.mixture.weights.sum = 1 ∧
    (∃ p ∈ fit.mixture.surviving, fit.mixture.means[0]? = some p.1 ∧ 0 < p.2) ∧
    (fit.mixture.surviving.map Prod.snd).sum = 1 ∧
    hypotheses region fit.mixture 1 single = ⟨notices, .ok components⟩ ∧
    Conserved region fit.mixture.surviving components notices := by
  have hvalues : single.values ≠ [] := List.cons_ne_nil _ _
  obtain ⟨region, hregion, _⟩ := exists_region_changing
  obtain ⟨problem, hcandidates, hproblem⟩ :=
    fitted_and_conserved ascending_changing hregion hvalues 1 1 100 0 true
  have hlength : ((1.5 : ℝ) :: List.replicate (problem.candidates - 1) (-1)).length =
      problem.candidates := by
    rw [List.length_cons, List.length_replicate]
    omega
  obtain ⟨_, fit, notices, components, _, houtcome, _, hfitted, haccounted, hrun, hconserved⟩ :=
    hproblem outside _ rfl hlength fun _ => rfl
  have hfirst : (0 : ℝ) < 1.5 := by norm_num
  have hsum := hfitted.sum_eq_one ⟨1.5, List.mem_cons_self, hfirst⟩
  obtain ⟨p, hp, hmean⟩ := haccounted.exists_mem_surviving hfitted (k := 0) rfl hfirst
  exact ⟨region, fit, notices, components, hregion, hvalues, houtcome, hsum,
    ⟨p, hp, hmean, ((haccounted.mem_surviving_iff p).mp hp).1⟩,
    haccounted.sum_surviving.trans hsum, hrun, hconserved⟩

end Region

end AdmissibleRegion
