import Mathlib.Data.Rat.Init
import Mathlib.Algebra.Order.Ring.Rat

/-!
# Support — the arithmetic of `double`

The operations a program applies to values of type `double`, with no law assumed.  A
definition over `[Double D]` runs at every arithmetic that offers them: the machine's own
numbers, and the extended reals of `XReal.lean`, where a double is read as a real.  What is
proved over `[Double D]` does not depend on rounding, overflow or the order of `NaN`.
-/

namespace DrivingSim

/-- The operations on `double`.  `pow2 x` is `pow(x, 2)`, `==` is the comparison of the
hardware (false at `NaN`), and `ofRat q` is the literal `q`. -/
class Double (D : Type) extends
    Add D, Sub D, Mul D, Div D, Neg D, LT D, LE D, BEq D where
  ofRat : ℚ → D
  infinity : D
  sqrt : D → D
  pow2 : D → D
  decLt : DecidableRel fun a b : D => a < b
  decLe : DecidableRel fun a b : D => a ≤ b

namespace Double

variable {D : Type} [Double D]

instance : DecidableRel fun a b : D => a < b := decLt
instance : DecidableRel fun a b : D => a ≤ b := decLe

instance (priority := low) (n : ℕ) : OfNat D n := ⟨ofRat n⟩

instance (priority := low) : OfScientific D :=
  ⟨fun m s e => ofRat (OfScientific.ofScientific m s e)⟩

/-- `std::min`: the second argument only when it is smaller. -/
def stdMin (a b : D) : D := if b < a then b else a

end Double

end DrivingSim
