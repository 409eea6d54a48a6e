import Mathlib.Algebra.Order.Floor.Semiring
import Mathlib.Data.List.Sort
import Mathlib.Tactic.FieldSimp
import Mathlib.Tactic.Linarith
import Mathlib.Tactic.Ring

/-!
Linear interpolation between the members of a sequence.

The graph runs straight from each member to the next. Over a sequence that does not decrease
it does not decrease either: within an interval by its slope, and from one interval to a later
one because the end of the first is a member no later one is below.

The sequence at hand is a sorted list, which goes on with its last member.
-/

namespace DaimDistributed.Interpolation

variable {K : Type*} [Field K] [LinearOrder K] [IsStrictOrderedRing K] [FloorSemiring K]

variable {a : ℕ → K} {x y : K} {n : ℕ}

section

variable {α : Type*} {l l' : List α}

variable [LinearOrder α]

end

end DaimDistributed.Interpolation
