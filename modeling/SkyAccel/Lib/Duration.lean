import Mathlib.Algebra.Order.Ring.Int

/-!
# Durations

`time.Duration` counts nanoseconds in 64 bits. A product of durations wraps around, and a
difference of times that does not fit is cut off.
-/

namespace SkyAccel.Duration

/-- `t.Sub(u)`, for times in nanoseconds. -/
def sub (t u : Int) : Int := max (-2 ^ 63) (min (2 ^ 63 - 1) (t - u))

/-- The product of two durations. -/
def mul (a b : Int) : Int := (a * b).bmod (2 ^ 64)

def minute : Int := 60000000000

/-- Whether more time than a duration has passed does not depend on the cut, unless the
duration is the longest one. -/
theorem lt_sub_iff {d : Int} (low : -2 ^ 63 ≤ d) (high : d < 2 ^ 63 - 1) (t u : Int) :
    d < sub t u ↔ d < t - u := by
  unfold sub
  omega

end SkyAccel.Duration
