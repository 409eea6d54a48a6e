import Mathlib.Data.Rat.Floor
import Mathlib.Tactic.NormNum
import DaimDistributed.Interpolation

/-!
The statistics that the gate scripts report, over exact numbers.

`percentile`, `bootstrap_median_ci` and `latency_summary` stand in several scripts, word for
word the same. Sorted, the values are a sequence that does not decrease, and a percentile
interpolates it; the median is the percentile in the middle.
-/

namespace DaimDistributed.Percentile

open Interpolation

/-- The exceptions the functions could raise. -/
inductive Exception
  | indexError | statisticsError | valueError
  deriving DecidableEq

/-- `values[i]`; a negative index counts from the end. -/
def item (values : List ℚ) (i : ℤ) : Except Exception ℚ :=
  if 0 ≤ i then (values[i.toNat]?).elim (.error .indexError) .ok
  else if -values.length ≤ i then
    (values[(values.length + i).toNat]?).elim (.error .indexError) .ok
  else .error .indexError

variable {values : List ℚ} {q : ℚ}

end DaimDistributed.Percentile
