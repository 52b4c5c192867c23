import Mathlib.Data.Rat.Floor
import Mathlib.Order.WithBot
import ShardManager.Golang.Basic

namespace golang

/-- What `float64` arithmetic does, which is left open: how results are rounded,
the conversion to an integer, and `math.Pow` with an integer as exponent. `⊤` is
`+Inf`. -/
structure Rounding where
  round : ℚ → ℚ
  toInt : WithTop ℚ → ℤ
  pow : ℚ → ℕ → WithTop ℚ

namespace Rounding

/-- Arithmetic that does not round. -/
def unrounded : Rounding where
  round q := q
  toInt
    | ⊤ => 0
    | (q : ℚ) => ⌊q⌋
  pow b n := (b ^ n : ℚ)

variable (fl : Rounding)

/-- The product of a constant and a value, which `+Inf` stays. -/
def mul (c : ℚ) (x : WithTop ℚ) : WithTop ℚ := x.map fun q => fl.round (c * q)

/-- The sum of a value and a constant. -/
def add (x : WithTop ℚ) (c : ℚ) : WithTop ℚ := x.map fun q => fl.round (q + c)

end Rounding

end golang
