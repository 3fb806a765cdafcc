import AdmissibleRegion.Constants

/-!
# Split sizes

A uniform density on an interval is covered by equally spaced and equally weighted normal
densities. The table of split sizes gives, for one, two, three and so on of them, their best
standard deviation as a fraction of the width of the interval. Entry `k` of the table that
comes with the library is the one with which `k` densities approximate the uniform density on
an interval of width one best in the mean square.
-/

namespace AdmissibleRegion

/-- A table of split sizes. -/
structure SplitTable (K : Type) where
  /-- The standard deviation for one, two, ... densities on an interval of width one. -/
  values : List K
  /-- Where the values were read. -/
  source : String
  deriving Repr

/-- Normal densities that cover an interval together. -/
structure Cover (K : Type) where
  /-- Their means, in ascending order. -/
  means : List K
  /-- Their common standard deviation. -/
  std : K
  deriving Repr

namespace SplitTable

variable {K : Type} [Scalar K]

open Scalar

/-- The source of a table that was not read from anywhere. -/
def inMemory : String := "<memory>"

/-- The number of sizes. -/
def size (table : SplitTable K) : Nat := table.values.length

/-- The size at an index; negative indices count from the end. -/
def get (table : SplitTable K) (index : Int) : Except (Fault K) K :=
  match (Index.place? index table.size).bind (table.values[·]?) with
  | some value => .ok value
  | none => .error .outsideTable

/-- The least number of densities whose size is below a ratio, or the length of the table if
no size is. -/
def count (table : SplitTable K) (ratio : K) : Nat :=
  match table.values.findIdx? (· < ratio) with
  | some i => i + 1
  | none => table.size

/-- The places `k / (count + 1)` of an interval, for `k` from one to `count`. -/
def places (start stop : K) (count : Nat) : List K :=
  (List.range count).map fun k =>
    start + (stop - start) * ofNat (k + 1) / ofNat (count + 1)

/-- Covers an interval by as many densities as the desired standard deviation needs. -/
def cover (table : SplitTable K) (start stop sigma : K) : Except (Fault K) (Cover K) := do
  let width := stop - start
  let n := table.count (← divide sigma width)
  match table.values[n - 1]? with
  | some value => return ⟨places start stop n, width * value⟩
  | none => throw .outsideTable

/-! ## The table that comes with the library -/

/-- The sizes for one to a hundred densities. -/
def uniformValues : List K :=
  [0.347267458068471, 0.290976933037082, 0.247625820710602, 0.201953982928716,
   0.155547743400362, 0.124731686530396, 0.104671041899644, 0.090457882108831,
   0.079798083002955, 0.071479094204576, 0.064792305967118, 0.059292895629154,
   0.054686218120291, 0.050768739638291, 0.047395023808521, 0.044458221664839,
   0.041877974435823, 0.039592625646344, 0.037554049394626, 0.035724111813741,
   0.034072187570384, 0.032573394750058, 0.031207304063425, 0.029956975987665,
   0.028808249849728, 0.027749189709904, 0.026769663803739, 0.025861019593150,
   0.025015814347717, 0.024227616500430, 0.023490837322931, 0.022800597917569,
   0.022152619207003, 0.021543128670605, 0.020968793795872, 0.020426656613711,
   0.019914081521926, 0.019428712766523, 0.018968438278526, 0.018531363394314,
   0.018115775645676, 0.017720127792620, 0.017343018139301, 0.016983176556958,
   0.016639439240717, 0.016310753664470, 0.015996149681548, 0.015694743642492,
   0.015405721574156, 0.015128337526669, 0.014861901153008, 0.014605778454393,
   0.014359382490070, 0.014122170260961, 0.013893637962510, 0.013673319416996,
   0.013460777489730, 0.013255610363719, 0.013057441144220, 0.012865917518866,
   0.012680711515740, 0.012501516850467, 0.012328045138702, 0.012160026917050,
   0.011997211011089, 0.011839357924081, 0.011686245496944, 0.011537664369965,
   0.011393415909590, 0.011253314288788, 0.011117183191926, 0.010984856377414,
   0.010856178385234, 0.010730999160047, 0.010609178276141, 0.010490583666604,
   0.010375089440193, 0.010262574978925, 0.010152926422160, 0.010046036933175,
   0.009941804013440, 0.009840129750269, 0.009740921233625, 0.009644090895576,
   0.009549553085691, 0.009457228903912, 0.009367041442089, 0.009278917264706,
   0.009192786834825, 0.009108583681621, 0.009026243515880, 0.008945706463855,
   0.008866912694884, 0.008789807920478, 0.008714337929633, 0.008640451510503,
   0.008568099191012, 0.008497233954987, 0.008427812415515, 0.008359788326632]

/-- The table that is used unless another one is given. -/
def uniform : SplitTable K := ⟨uniformValues, "orbcar/resources/" ++ Constants.splitTableName⟩

end SplitTable

end AdmissibleRegion
