import AdmissibleRegion.Binary64
import AdmissibleRegion.LeastSquares.Matrix
import AdmissibleRegion.Mixture

/-!
# Weights between zero and one by least squares

The unknowns are scaled by their distances from the bounds their gradients point at, so
that a step that is short in the scaled unknowns stays inside. A step that would leave the
box is cut at the bound, reflected there, or replaced by one along the gradient, whichever
lowers the model most. Radius and raise are carried from step to step, and the fit ends when
the scaled gradient, the gain or the step is small.

The step that minimises a quadratic model inside a ball is either the free minimum, or that
of the model raised by just so much that the step ends on the ball. The raise is found by
Newton's method on the length of the step, kept between a lower and an upper bound.
-/

namespace AdmissibleRegion.LeastSquares

/-! ## Steps inside a ball -/

/-- A raise with the bounds it must lie between. -/
structure Raise where
  /-- The raise. -/
  value : Float
  /-- The lower bound. -/
  low : Float
  /-- The upper bound. -/
  high : Float

namespace Spectrum

/-- By how much the step of a raised model exceeds a radius, and the derivative of that by the
raise. -/
def excess (s : Spectrum) (radius raised : Float) : Float × Float :=
  let pull := s.pull
  let denominators := mapColumn (· + raised) s.squares
  let length := norm (zipColumns (· / ·) pull denominators)
  let slope := s.n.fold (fun j _ sum =>
    let d := denominators.get! j
    sum + pull.get! j * pull.get! j / (d * d * d)) 0
  (length - radius, -slope / length)

/-- A raise between two bounds, to begin with. -/
def firstRaise (low high : Float) : Float :=
  let least := 0.001 * high
  let middle := (low * high).sqrt
  if least < middle then middle else least

/-- Improves a raise until the step ends within one hundredth of the radius from the ball, at
most `fuel` times. -/
def improve (s : Spectrum) (radius : Float) : Nat → Raise → Float
  | 0, r => r.value
  | fuel + 1, r =>
    let value := if r.value < r.low ∨ r.high < r.value then firstRaise r.low r.high else r.value
    let (phi, slope) := s.excess radius value
    let high := if phi < 0 then value else r.high
    let ratio := phi / slope
    let low := if r.low < value - ratio then value - ratio else r.low
    let next := value - (phi + radius) * ratio / radius
    if phi.abs < 0.01 * radius then next else improve s radius fuel ⟨next, low, high⟩

/-- Whether the smallest singular value stands out from the rounding of a problem with a number
of residuals, which must not be less than that of unknowns. -/
def hasFullRank (s : Spectrum) (residuals : Nat) : Bool :=
  let top := greatest s.values
  let bottom := s.n.fold (fun j _ least => lower least (s.values.get! j)) top
  s.n ≤ residuals && resolution * residuals.toFloat * top < bottom

/-- The step inside a ball and the raise it took; the search begins at the last raise. -/
def step (s : Spectrum) (residuals : Nat) (radius lastRaise : Float) : FloatArray × Float :=
  let fullRank := s.hasFullRank residuals
  let free := s.solution
  if fullRank && norm free ≤ radius then (free, 0)
  else
    let high := norm s.pull / radius
    let low :=
      if fullRank then
        let (phi, slope) := s.excess radius 0
        (-phi) / slope
      else 0
    let first := if !fullRank && lastRaise == 0 then firstRaise low high else lastRaise
    let raised := s.improve radius 10 ⟨first, low, high⟩
    let p := s.raisedSolution raised
    let stretch := radius / norm p
    (mapColumn (· * stretch) p, raised)

end Spectrum

/-! ## Steps inside the box -/

/-- A weight moved into the open interval between zero and one by the least amount. -/
def inside (x : Float) : Float :=
  if x ≤ 0 then Float.ofBits 1 else if 1 ≤ x then 0.9999999999999999 else x

/-- The quadratic model of the cost around a point, in scaled unknowns. -/
structure QuadraticModel where
  /-- The derivatives of the residuals by the scaled unknowns. -/
  jacobian : Matrix
  /-- The point. -/
  point : FloatArray
  /-- The factor from scaled to plain unknowns. -/
  scale : FloatArray
  /-- The diagonal that the scaling adds to the second derivatives. -/
  diagonal : FloatArray
  /-- The gradient in scaled unknowns. -/
  gradient : FloatArray

/-- A candidate step: in plain and in scaled unknowns, with the value of the model. -/
structure Candidate where
  /-- The step in plain unknowns. -/
  plain : FloatArray
  /-- The step in scaled unknowns. -/
  scaled : FloatArray
  /-- The change of the model. -/
  value : Float

namespace QuadraticModel

/-- A scaled step in plain unknowns. -/
def toPlain (m : QuadraticModel) (s : FloatArray) : FloatArray := zipColumns (· * ·) m.scale s

/-- The change of the residuals along a scaled step. -/
def change (m : QuadraticModel) (s : FloatArray) : FloatArray := m.jacobian.mulVec s

/-- The scalar product of two scaled steps that the diagonal defines. -/
def weighted (m : QuadraticModel) (s t : FloatArray) : Float :=
  dot (zipColumns (· * ·) s m.diagonal) t

/-- The change of the model along a scaled step. -/
def value (m : QuadraticModel) (s : FloatArray) : Float :=
  let js := m.change s
  0.5 * (dot js js + m.weighted s s) + dot s m.gradient

/-- The coefficients of the model along a line: from `origin` in the direction `s`. -/
def along (m : QuadraticModel) (s : FloatArray) (origin : Option FloatArray) :
    Float × Float × Float :=
  let js := m.change s
  let a := 0.5 * (dot js js + m.weighted s s)
  let b := dot m.gradient s
  match origin with
  | none => (a, b, 0)
  | some o =>
    let jo := m.change o
    (a, b + dot jo js + m.weighted o s,
      0.5 * dot jo jo + dot m.gradient o + 0.5 * m.weighted o o)

end QuadraticModel

/-- Where `a * t ^ 2 + b * t + c` is least between two ends, and its value there; an undefined
value counts as less than all others. -/
def minimise (a b c low high : Float) : Float × Float :=
  let value (t : Float) : Float := t * (a * t + b) + c
  let better (x y : Float × Float) : Float × Float :=
    if !x.2.isNaN && (y.2 < x.2 || y.2.isNaN) then y else x
  let ends := better (low, value low) (high, value high)
  let stationary := -0.5 * b / a
  if a == 0 then ends
  else if low < stationary && stationary < high then better ends (stationary, value stationary)
  else ends

/-- How far a weight can go in a direction until it meets a bound. -/
def strideOf (x s : Float) : Float :=
  if s == 0 then 1 / 0
  else upper ((0 - x) / s) ((1 - x) / s)

/-- How far a point can go in a direction until it meets a bound. -/
def strideToBound (x s : FloatArray) : Float :=
  x.size.fold (fun i _ least => lower least (strideOf (x.get! i) (s.get! i))) (1 / 0)

/-- How far a scaled point inside a ball can go in a direction until it meets the ball. -/
def strideToBall (x s : FloatArray) (radius : Float) : Except (Fault Float) Float :=
  let a := dot s s
  let b := dot x s
  let c := dot x x - radius * radius
  let d := (b * b - a * c).sqrt
  let q := -(b + (if b < 0 then -d else d))
  let t1 := q / a
  let t2 := c / q
  if a == 0 then .error .noDirection
  else if 0 < c then .error .outsideBall
  else .ok (if t1 < t2 then t2 else t1)

/-- The step of a model: `p` itself if it stays in the box, and else the best of three; `theta`
is the part of the way to a bound that may be gone. -/
def QuadraticModel.select (m : QuadraticModel) (p : FloatArray) (radius theta : Float) :
    Except (Fault Float) Candidate := do
  let x := m.point
  let plain := m.toPlain p
  let target := zipColumns (· + ·) x plain
  if target.data.all fun t => 0 ≤ t && t ≤ 1 then return ⟨plain, p, m.value p⟩
  else
    let stride := strideToBound x plain
    let turned := tabulate p.size fun i =>
      let hit := strideOf (x.get! i) (plain.get! i) == stride && plain.get! i != 0
      if hit then -p.get! i else p.get! i
    let onBound := mapColumn (· * stride) p
    let boundary := zipColumns (· + ·) x (mapColumn (· * stride) plain)
    let toBall ← strideToBall onBound turned radius
    let toBound := strideToBound boundary (m.toPlain turned)
    let reach := if toBall < toBound then toBall else toBound
    let (low, high) : Float × Float :=
      if 0 < reach then
        ((1 - theta) * stride / reach, if reach == toBound then theta * toBound else toBall)
      else (0, -1)
    let reflected : Candidate :=
      if low ≤ high then
        let (a, b, c) := m.along turned (some onBound)
        let (t, value) := minimise a b c low high
        let scaled := zipColumns (· + ·) (mapColumn (· * t) turned) onBound
        ⟨m.toPlain scaled, scaled, value⟩
      else ⟨plain, p, 1 / 0⟩
    let cutScaled := mapColumn (· * theta) onBound
    let cut : Candidate :=
      ⟨mapColumn (· * theta) (mapColumn (· * stride) plain), cutScaled, m.value cutScaled⟩
    let downhill := mapColumn (-·) m.gradient
    let ballStride := radius / norm downhill
    let boundStride := strideToBound x (m.toPlain downhill)
    let limit := if boundStride < ballStride then theta * boundStride else ballStride
    let (a, b, _) := m.along downhill none
    let (t, value) := minimise a b 0 0 limit
    let steepest : Candidate :=
      ⟨mapColumn (· * t) (m.toPlain downhill), mapColumn (· * t) downhill, value⟩
    if cut.value < reflected.value && cut.value < steepest.value then return cut
    else if reflected.value < cut.value && reflected.value < steepest.value then return reflected
    else return steepest

/-- A least-squares problem whose residuals are linear in the weights. -/
structure Problem where
  /-- The derivatives of the residuals by the weights. -/
  jacobian : Matrix
  /-- What the residuals are measured from. -/
  target : FloatArray

/-- The linear problem that a weight problem poses. -/
def Problem.of (problem : WeightProblem Float) : Problem where
  jacobian := Matrix.ofRows problem.candidates problem.basis
  target := ⟨problem.target.toArray⟩

/-- The residuals at a point, whose weights count as if they were between zero and one. -/
def Problem.residuals (p : Problem) (x : FloatArray) : FloatArray :=
  zipColumns (· - ·) (p.jacobian.mulVec (mapColumn clamp x)) p.target

/-- How far a fit has come. -/
structure Progress where
  /-- The point. -/
  point : FloatArray
  /-- Its residuals. -/
  residuals : FloatArray
  /-- Half their squared length. -/
  cost : Float
  /-- The gradient of the cost. -/
  gradient : FloatArray
  /-- The radius of the ball. -/
  radius : Float
  /-- The last raise. -/
  raised : Float
  /-- The number of evaluations of the residuals. -/
  evaluations : Nat
  /-- Whether gain or step became small. -/
  settled : Bool

/-- The square of the scale of a weight and its derivative: the distance from the bound that its
gradient points at. -/
def scaling (x g : Float) : Float × Float :=
  if g < 0 then (1 - x, -1) else if 0 < g then (x, 1) else (1, 0)

/-- Tries steps from a point until one lowers the cost, evaluations run out, or gain or step
becomes small; each trial that fails shrinks the ball. -/
def attempt (problem : Problem) (model : QuadraticModel) (spectrum : Spectrum) (budget : Nat)
    (theta tolerance : Float) : Nat → Progress → Except (Fault Float) Progress
  | 0, now => return now
  | fuel + 1, now => do
    if budget ≤ now.evaluations then return now
    else
      let (p, raised) := spectrum.step problem.jacobian.rows now.radius now.raised
      let step ← model.select p now.radius theta
      let point := mapColumn inside (zipColumns (· + ·) now.point step.plain)
      let residuals := problem.residuals point
      let length := norm step.scaled
      let evaluations := now.evaluations + 1
      if !residuals.data.all Float.isFinite then
        attempt problem model spectrum budget theta tolerance fuel
          { now with radius := 0.25 * length, raised, evaluations }
      else
        let cost := 0.5 * dot residuals residuals
        let gain := now.cost - cost
        let predicted := -step.value
        let ratio :=
          if 0 < predicted then gain / predicted
          else if predicted == 0 && gain == 0 then 1 else 0
        let radius :=
          if ratio < 0.25 then 0.25 * length
          else if 0.75 < ratio && 0.95 * now.radius < length then 2 * now.radius
          else now.radius
        let smallGain := gain < tolerance * now.cost && 0.25 < ratio
        let smallStep := norm step.plain < tolerance * (tolerance + norm now.point)
        let settled := smallGain || smallStep
        let next : Progress := {
          now with
          evaluations, settled
          raised := if settled then raised else raised * (now.radius / radius)
          radius := if settled then now.radius else radius }
        if 0 < gain then
          return { next with
            point, residuals, cost
            gradient := problem.jacobian.transposeMulVec residuals }
        else if settled then return next
        else attempt problem model spectrum budget theta tolerance fuel next

/-- Improves a point until the fit has converged or evaluations run out; says which. -/
def improve (problem : Problem) (budget : Nat) (tolerance : Float) : Nat → Progress →
    Except (Fault Float) (Progress × Bool)
  | 0, now => return (now, now.settled)
  | fuel + 1, now => do
    let scalings (part : Float × Float → Float) : FloatArray :=
      zipColumns (fun x g => part (scaling x g)) now.point now.gradient
    let squares := scalings (·.1)
    let slopes := scalings (·.2)
    let size := greatest (zipColumns (fun g v => (g * v).abs) now.gradient squares)
    if now.settled || size < tolerance then return (now, true)
    else if now.evaluations == budget then return (now, false)
    else
      let scale := mapColumn Float.sqrt squares
      let diagonal := zipColumns (· * ·) now.gradient slopes
      let m := problem.jacobian.rows
      let n := problem.jacobian.columns
      let jacobian := Matrix.ofEntries m n fun i j =>
        problem.jacobian.entries.get! (j * m + i) * scale.get! j
      let model : QuadraticModel := {
        jacobian, point := now.point, scale, diagonal
        gradient := zipColumns (· * ·) scale now.gradient }
      let extended := Matrix.ofEntries (m + n) n fun i j =>
        if i < m then jacobian.entries.get! (j * m + i)
        else if i = m + j then (diagonal.get! j).sqrt else 0
      unless extended.entries.data.all Float.isFinite do throw .derivativesNotFinite
      let spectrum := Spectrum.of extended
        (tabulate (m + n) fun i => if i < m then now.residuals.get! i else 0)
      let theta := if 0.995 < 1 - size then 1 - size else 0.995
      improve problem budget tolerance fuel
        (← attempt problem model spectrum budget theta tolerance budget now)

/-- The weights of a problem, by steps from a point close to zero. -/
def binary64Weights : WeightSolver Float := fun problem => do
  if problem.budget ≤ 0 then throw .noBudget
  else if problem.tolerance < resolution then throw .toleranceTooSmall
  else
    let budget := problem.budget.toNat
    let linear := Problem.of problem
    let point := tabulate problem.candidates fun _ => 1e-10
    let residuals := linear.residuals point
    if !residuals.data.all Float.isFinite then throw .startNotFinite
    else
      let gradient := linear.jacobian.transposeMulVec residuals
      let radius := norm (zipColumns (fun x g => x / (scaling x g).1.sqrt) point gradient)
      let (last, converged) ← improve linear budget problem.tolerance (budget + 1) {
        point, residuals, gradient
        cost := 0.5 * dot residuals residuals
        radius := if radius == 0 then 1 else radius
        raised := 0, evaluations := 1, settled := false }
      return {
        point := last.point.data.toList
        cost := last.cost
        evaluations := last.evaluations
        converged }

end AdmissibleRegion.LeastSquares
