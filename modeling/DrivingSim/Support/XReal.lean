import Mathlib.Analysis.Real.Sqrt
import DrivingSim.Support.Double

/-!
# Support — the extended reals under the IEEE conventions

The real numbers with two infinities and a value that is not a number.  `∞ - ∞`, `0 * ∞`,
`∞ / ∞`, `0 / 0` and the square root of a negative number are not a number; a nonzero number
divided by zero is an infinity; every comparison with what is not a number is false.  There is
one zero, and division reads it as `+0`.

`XReal` is the arithmetic in which a `double` is read as a real: no rounding, no overflow.
-/

noncomputable section

namespace DrivingSim

inductive XReal where
  | nan
  | ninf
  | fin (x : ℝ)
  | pinf

namespace XReal

/-- The infinity with the sign of `x`; at `0`, not a number. -/
def signed (x : ℝ) : XReal := if 0 < x then .pinf else if x < 0 then .ninf else .nan

protected def add : XReal → XReal → XReal
  | .fin x, .fin y => .fin (x + y)
  | .pinf, .fin _ | .fin _, .pinf | .pinf, .pinf => .pinf
  | .ninf, .fin _ | .fin _, .ninf | .ninf, .ninf => .ninf
  | _, _ => .nan

protected def neg : XReal → XReal
  | .nan => .nan
  | .ninf => .pinf
  | .fin x => .fin (-x)
  | .pinf => .ninf

protected def mul : XReal → XReal → XReal
  | .fin x, .fin y => .fin (x * y)
  | .fin x, .pinf | .pinf, .fin x => signed x
  | .fin x, .ninf | .ninf, .fin x => signed (-x)
  | .pinf, .pinf | .ninf, .ninf => .pinf
  | .pinf, .ninf | .ninf, .pinf => .ninf
  | _, _ => .nan

protected def div : XReal → XReal → XReal
  | .fin x, .fin y => if y = 0 then signed x else .fin (x / y)
  | .fin _, .pinf | .fin _, .ninf => .fin 0
  | .pinf, .fin y => if y < 0 then .ninf else .pinf
  | .ninf, .fin y => if y < 0 then .pinf else .ninf
  | _, _ => .nan

protected def sqrt : XReal → XReal
  | .fin x => if x < 0 then .nan else .fin √x
  | .pinf => .pinf
  | _ => .nan

protected def lt : XReal → XReal → Prop
  | .fin x, .fin y => x < y
  | .ninf, .fin _ | .ninf, .pinf | .fin _, .pinf => True
  | _, _ => False

protected def le : XReal → XReal → Prop
  | .fin x, .fin y => x ≤ y
  | .ninf, .ninf | .ninf, .fin _ | .ninf, .pinf | .fin _, .pinf | .pinf, .pinf => True
  | _, _ => False

open Classical in
protected def beq : XReal → XReal → Bool
  | .fin x, .fin y => x = y
  | .pinf, .pinf | .ninf, .ninf => true
  | _, _ => false

instance : Double XReal where
  add := XReal.add
  sub x y := XReal.add x (XReal.neg y)
  mul := XReal.mul
  div := XReal.div
  neg := XReal.neg
  lt := XReal.lt
  le := XReal.le
  beq := XReal.beq
  ofRat q := .fin q
  infinity := .pinf
  sqrt := XReal.sqrt
  pow2 x := XReal.mul x x
  decLt _ _ := Classical.propDecidable _
  decLe _ _ := Classical.propDecidable _

open Double

/-! ### The operations at real numbers -/

@[simp] theorem add_fin (x y : ℝ) : (fin x : XReal) + fin y = fin (x + y) := rfl
@[simp] theorem sub_fin (x y : ℝ) : (fin x : XReal) - fin y = fin (x - y) := by
  rw [sub_eq_add_neg]; rfl
@[simp] theorem mul_fin (x y : ℝ) : (fin x : XReal) * fin y = fin (x * y) := rfl
@[simp] theorem neg_fin (x : ℝ) : -(fin x : XReal) = fin (-x) := rfl
@[simp] theorem pow2_fin (x : ℝ) : pow2 (fin x) = fin (x ^ 2) := by
  rw [sq]; rfl
@[simp] theorem ofRat_eq (q : ℚ) : (ofRat q : XReal) = fin q := rfl
@[simp] theorem infinity_eq : (infinity : XReal) = pinf := rfl

theorem div_fin {x y : ℝ} (h : y ≠ 0) : (fin x : XReal) / fin y = fin (x / y) := if_neg h
@[simp] theorem div_zero (x : ℝ) : (fin x : XReal) / fin 0 = signed x := if_pos rfl

theorem sqrt_fin {x : ℝ} (h : 0 ≤ x) : Double.sqrt (fin x) = fin √x := if_neg h.not_gt
theorem sqrt_neg {x : ℝ} (h : x < 0) : Double.sqrt (fin x) = nan := if_pos h

theorem signed_pos {x : ℝ} (h : 0 < x) : signed x = pinf := if_pos h
@[simp] theorem signed_zero : signed 0 = nan := by simp [signed]

@[simp] theorem zero_eq : (0 : XReal) = fin 0 :=
  congrArg fin (by norm_num)
@[simp] theorem one_eq : (1 : XReal) = fin 1 :=
  congrArg fin (by norm_num)
@[simp] theorem ofNat_eq (n : ℕ) [n.AtLeastTwo] : (OfNat.ofNat n : XReal) = fin (OfNat.ofNat n) :=
  congrArg fin (Rat.cast_natCast n)
@[simp] theorem ofScientific_eq (m : ℕ) (s : Bool) (e : ℕ) :
    (OfScientific.ofScientific m s e : XReal) = fin (OfScientific.ofScientific m s e) :=
  congrArg fin (Rat.cast_ofScientific m s e)

/-! ### The comparisons -/

@[simp] theorem fin_lt_fin {x y : ℝ} : (fin x : XReal) < fin y ↔ x < y := Iff.rfl
@[simp] theorem fin_le_fin {x y : ℝ} : (fin x : XReal) ≤ fin y ↔ x ≤ y := Iff.rfl
@[simp] theorem fin_lt_pinf (x : ℝ) : (fin x : XReal) < pinf := trivial
@[simp] theorem not_pinf_lt (x : XReal) : ¬ pinf < x := by cases x <;> exact id
@[simp] theorem not_nan_lt (x : XReal) : ¬ nan < x := by cases x <;> exact id
@[simp] theorem not_lt_nan (x : XReal) : ¬ x < nan := by cases x <;> exact id
@[simp] theorem not_nan_le (x : XReal) : ¬ nan ≤ x := by cases x <;> exact id
@[simp] theorem not_le_nan (x : XReal) : ¬ x ≤ nan := by cases x <;> exact id
@[simp] theorem beq_fin {x y : ℝ} : ((fin x : XReal) == fin y) = true ↔ x = y := by
  show XReal.beq _ _ = true ↔ _
  simp [XReal.beq]

theorem le_of_lt {x y : XReal} (h : x < y) : x ≤ y := by
  cases x with
  | nan => exact absurd h (not_nan_lt y)
  | pinf => exact absurd h (not_pinf_lt y)
  | ninf => cases y <;> first | exact h | exact trivial
  | fin x =>
      cases y with
      | fin y => exact fin_le_fin.mpr (fin_lt_fin.mp h).le
      | pinf => exact trivial
      | nan => exact h
      | ninf => exact h

theorem fin_le_of_lt {x y : ℝ} (hxy : x ≤ y) {z : XReal} (h : fin y < z) : fin x ≤ z := by
  cases z with
  | fin z => exact fin_le_fin.mpr (hxy.trans (fin_lt_fin.mp h).le)
  | pinf => exact trivial
  | nan => exact h
  | ninf => exact h

theorem fin_le_of_le {x y : ℝ} (hxy : x ≤ y) {z : XReal} (h : fin y ≤ z) : fin x ≤ z := by
  cases z with
  | fin z => exact fin_le_fin.mpr (hxy.trans (fin_le_fin.mp h))
  | pinf => exact trivial
  | nan => exact h
  | ninf => exact h

theorem not_lt_of_fin_le {x : ℝ} {y : XReal} (h : fin x ≤ y) : ¬ y < fin x := by
  cases y with
  | nan => exact not_nan_lt _
  | fin y => exact not_lt.2 (fin_le_fin.1 h)
  | pinf => exact not_pinf_lt _
  | ninf => exact absurd h id

/-- Against a real number, what is a number is compared as usual. -/
theorem fin_le_iff {x : ℝ} {y : XReal} (hy : y ≠ nan) : fin x ≤ y ↔ ¬ y < fin x := by
  cases y with
  | nan => exact absurd rfl hy
  | fin y => rw [fin_le_fin, fin_lt_fin, not_lt]
  | pinf => exact iff_of_true trivial id
  | ninf => exact iff_of_false id fun h => h trivial

theorem le_fin_iff {x : XReal} {y : ℝ} (hx : x ≠ nan) : x ≤ fin y ↔ ¬ fin y < x := by
  cases x with
  | nan => exact absurd rfl hx
  | fin x => rw [fin_le_fin, fin_lt_fin, not_lt]
  | pinf => exact iff_of_false id fun h => h trivial
  | ninf => exact iff_of_true trivial id

/-- What is a number is ordered as usual. -/
theorem le_iff_not_lt {x y : XReal} (hx : x ≠ nan) (hy : y ≠ nan) : x ≤ y ↔ ¬ y < x := by
  cases x with
  | nan => exact absurd rfl hx
  | fin x => exact fin_le_iff hy
  | pinf => cases y <;> first | exact absurd rfl hy | exact iff_of_true trivial id |
      exact iff_of_false id fun h => h trivial
  | ninf => cases y <;> first | exact absurd rfl hy | exact iff_of_true trivial id

theorem ne_nan_of_lt {x y : XReal} (h : x < y) : x ≠ nan ∧ y ≠ nan := by
  constructor
  · rintro rfl
    exact not_nan_lt y h
  · rintro rfl
    exact not_lt_nan x h

theorem lt_asymm {x y : XReal} (h : x < y) : ¬ y < x := by
  obtain ⟨hx, hy⟩ := ne_nan_of_lt h
  exact (le_iff_not_lt hx hy).1 (le_of_lt h)

theorem le_trans {x y z : XReal} (hxy : x ≤ y) (hyz : y ≤ z) : x ≤ z := by
  cases y with
  | nan => exact absurd hxy (not_le_nan x)
  | fin y =>
      cases x with
      | nan => exact absurd hxy (not_nan_le _)
      | fin x => exact fin_le_of_le (fin_le_fin.1 hxy) hyz
      | pinf => exact absurd hxy id
      | ninf => cases z <;> first | exact trivial | exact absurd hyz id
  | pinf =>
      cases x <;> cases z <;> first | exact trivial | exact absurd hyz id | exact absurd hxy id
  | ninf =>
      cases x <;> cases z <;> first | exact trivial | exact absurd hyz id | exact absurd hxy id

/-- The distance to what is beyond is not negative. -/
theorem not_sub_lt_zero {x y : XReal} (h : x < y) : ¬ y - x < 0 := by
  rw [zero_eq]
  cases y with
  | nan => exact absurd h (not_lt_nan x)
  | ninf => cases x <;> exact absurd h id
  | fin y =>
      cases x with
      | nan => exact absurd h (not_nan_lt _)
      | fin x =>
          rw [sub_fin, fin_lt_fin, not_lt]
          exact sub_nonneg.2 (fin_lt_fin.1 h).le
      | pinf => exact absurd h id
      | ninf => exact not_pinf_lt _
  | pinf =>
      cases x with
      | nan => exact absurd h (not_nan_lt _)
      | fin x => exact not_pinf_lt _
      | pinf => exact absurd h id
      | ninf => exact not_pinf_lt _

theorem stdMin_fin (x y : ℝ) : stdMin (fin x) (fin y) = fin (min x y) := by
  rw [stdMin]
  by_cases h : y < x
  · rw [if_pos (fin_lt_fin.mpr h), min_eq_right h.le]
  · rw [if_neg (fun h' => h (fin_lt_fin.mp h')), min_eq_left (not_lt.mp h)]

/-- `x` is a real number. -/
def IsReal (x : XReal) : Prop := ∃ r : ℝ, x = fin r

@[simp] theorem isReal_fin (r : ℝ) : IsReal (fin r) := ⟨r, rfl⟩
@[simp] theorem not_isReal_nan : ¬ IsReal nan := fun ⟨_, h⟩ => nomatch h
@[simp] theorem not_isReal_pinf : ¬ IsReal pinf := fun ⟨_, h⟩ => nomatch h
@[simp] theorem not_isReal_ninf : ¬ IsReal ninf := fun ⟨_, h⟩ => nomatch h

/-! ### What is not a real number stays so -/

theorem not_isReal_signed (x : ℝ) : ¬ IsReal (signed x) := by
  rw [signed]
  split_ifs <;> simp

theorem not_isReal_mul (x : ℝ) {y : XReal} (hy : ¬ y.IsReal) : ¬ IsReal (fin x * y) := by
  cases y with
  | nan => exact not_isReal_nan
  | fin y => exact absurd (isReal_fin y) hy
  | pinf => exact not_isReal_signed x
  | ninf => exact not_isReal_signed (-x)

theorem not_isReal_add {x : XReal} (hx : ¬ x.IsReal) (y : XReal) : ¬ (x + y).IsReal := by
  cases x with
  | nan => exact not_isReal_nan
  | fin x => exact absurd (isReal_fin x) hx
  | pinf => cases y <;> first | exact not_isReal_nan | exact not_isReal_pinf
  | ninf => cases y <;> first | exact not_isReal_nan | exact not_isReal_ninf

theorem not_isReal_sub (x : ℝ) {y : XReal} (hy : ¬ y.IsReal) : ¬ IsReal (fin x - y) := by
  cases y with
  | nan => exact not_isReal_nan
  | fin y => exact absurd (isReal_fin y) hy
  | pinf => exact not_isReal_ninf
  | ninf => exact not_isReal_pinf

theorem not_isReal_pow2 {y : XReal} (hy : ¬ y.IsReal) : ¬ IsReal (pow2 y) := by
  cases y with
  | nan => exact not_isReal_nan
  | fin y => exact absurd (isReal_fin y) hy
  | pinf => exact not_isReal_pinf
  | ninf => exact not_isReal_pinf

theorem eq_add_of_sub_eq_fin {x : XReal} {y z : ℝ} (h : x - fin y = fin z) : x = fin (z + y) := by
  cases x with
  | fin x =>
      rw [sub_fin, XReal.fin.injEq] at h
      rw [← h, sub_add_cancel]
  | nan => exact nomatch h
  | pinf => exact nomatch h
  | ninf => exact nomatch h

/-- Two infinities have no quotient. -/
theorem div_eq_nan {x y : XReal} (hx : ¬ x.IsReal) (hy : ¬ y.IsReal) : x / y = nan := by
  cases x <;> cases y <;>
    first | rfl | exact absurd (isReal_fin _) hx | exact absurd (isReal_fin _) hy

end XReal

end DrivingSim

end
