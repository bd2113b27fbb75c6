/-
The order of numbers. An unpacked number has a place among the numbers (`place`), and a NaN has none. One number is less
than another if its place comes first (`lt_iff`), and it equals another if both have the same place (`beq_iff`). No two
numbers have the same place but the two zeros (`agree_of_placeOf`).
-/
import Mathlib

namespace SensorNode.Number

open Float.Model UnpackedFloat

/-- places are told apart by sign and kind first, then by exponent, and then by mantissa -/
abbrev Place := ℤ ×ₗ ℤ ×ₗ ℤ

def origin : Place := toLex (0, toLex (0, 0))

def place : UnpackedFloat → Option Place
  | .notANumber => none
  | .infinity .negative => some (toLex (-2, toLex (0, 0)))
  | .finite .negative mantissa exponent _ => some (toLex (-1, toLex (-exponent, -mantissa)))
  | .zero _ => some origin
  | .finite .positive mantissa exponent _ => some (toLex (1, toLex (exponent, mantissa)))
  | .infinity .positive => some (toLex (2, toLex (0, 0)))

def placeOf (x : Float) : Option Place := place x.toModel.unpack

/-! ## Comparisons -/

theorem compare_sign :
    compare Sign.negative Sign.positive = .lt ∧ compare Sign.positive Sign.negative = .gt ∧
      compare Sign.negative Sign.negative = .eq ∧ compare Sign.positive Sign.positive = .eq := by
  decide

theorem unpacked_lt_iff (u v : UnpackedFloat) : u.lt v = true ↔ ∃ p ∈ place u, ∃ q ∈ place v, p < q := by
  unfold UnpackedFloat.lt
  rcases u with (_ | _) | _ | _ | ⟨_ | _, mantissa, exponent, -⟩ <;>
    rcases v with (_ | _) | _ | _ | ⟨_ | _, mantissa', exponent', -⟩ <;>
    simp [UnpackedFloat.compare, place, origin, compare_sign, Prod.Lex.toLex_lt_toLex, Ordering.then_eq_lt,
      Ordering.then_eq_gt, compare_lt_iff_lt, compare_gt_iff_gt]

theorem unpacked_beq_iff (u v : UnpackedFloat) : u.beq v = true ↔ place u = place v ∧ place u ≠ none := by
  unfold UnpackedFloat.beq
  rcases u with (_ | _) | _ | _ | ⟨_ | _, mantissa, exponent, -⟩ <;>
    rcases v with (_ | _) | _ | _ | ⟨_ | _, mantissa', exponent', -⟩ <;>
    simp [UnpackedFloat.compare, place, origin, compare_sign]

theorem unpacked_isNaN_iff (u : UnpackedFloat) : u.isNaN = true ↔ place u = none := by
  rcases u with (_ | _) | _ | _ | ⟨_ | _, mantissa, exponent, -⟩ <;> simp [UnpackedFloat.isNaN, place]

theorem lt_iff (x y : Float) : x < y ↔ ∃ p ∈ placeOf x, ∃ q ∈ placeOf y, p < q := by
  show x.lt y = true ↔ _
  unfold Float.lt
  rw [decide_eq_true_iff]
  exact unpacked_lt_iff _ _

theorem lt_iff_of_placeOf {x y : Float} {p q : Place} (hx : placeOf x = some p) (hy : placeOf y = some q) :
    x < y ↔ p < q := by
  simp [lt_iff, hx, hy]

theorem beq_iff (x y : Float) : (x == y) = true ↔ placeOf x = placeOf y ∧ placeOf x ≠ none :=
  unpacked_beq_iff _ _

theorem isNaN_iff (x : Float) : x.isNaN = true ↔ placeOf x = none := unpacked_isNaN_iff _

/-! ## Numbers that have the same place -/

/-- two numbers are equal, and at most the sign of a zero differs -/
def Agree (x y : Float) : Prop := (x == y) = true ∧ (x = y ∨ x = 0 ∧ y = -0 ∨ x = -0 ∧ y = 0)

theorem agree_of_placeOf {x y : Float} (h : placeOf x = placeOf y) (hnumber : placeOf x ≠ none) : Agree x y := by
  have hequal : (x == y) = true := (beq_iff x y).2 ⟨h, hnumber⟩
  exact ⟨hequal, (Float.beq_iff_ne_nan_and_eq.1 hequal).2.2⟩

end SensorNode.Number
