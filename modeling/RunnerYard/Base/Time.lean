import Mathlib.Data.Int.Basic
import Mathlib.Tactic.Linarith

/-!
# Instants and durations

`time.Time` and `time.Duration` are integers, counted in nanoseconds. An instant is its distance from Go's zero time, so `Time.IsZero` is a comparison with `0` and an instant before the year 1 is a negative number. Clock arithmetic is exact here: `Sub` saturates only past 292 years, and every difference the ledger takes is capped by a reservation of at most a day.
-/

namespace RunnerYard

namespace Duration

def second : Int := 1000000000

def minute : Int := 60 * second

def hour : Int := 60 * minute

/-- `durationSeconds` of `usage_budget.go`: whole seconds, rounded up. The source rounds a float64, exact for durations below 194 days and for whole seconds. -/
def seconds (value : Int) : Int := -((-value) / second)

/-- `time.Duration(n) * time.Second`. -/
def ofSeconds (n : Int) : Int := n * second

/-- `d.Round(time.Second)`: to the nearest second, halves away from zero. -/
def roundSeconds (d : Int) : Int :=
  if 0 ≤ d then (d + second / 2) / second * second else -((-d + second / 2) / second * second)

theorem seconds_mono {a b : Int} (hab : a ≤ b) : seconds a ≤ seconds b := by
  unfold seconds second
  omega

theorem seconds_pos {a : Int} (ha : 0 < a) : 0 < seconds a := by
  unfold seconds second
  omega

end Duration

end RunnerYard
