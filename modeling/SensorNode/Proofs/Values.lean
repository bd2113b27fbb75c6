/-
Numbers as rationals. Finite numbers are ordered as the rationals that they stand for (`lt_iff_value`, `le_iff_value`), and a
sum is rounded from the sum of these: it is on the same side of every number as that (`add_between`).
-/
import SensorNode.Proofs.Numbers
import SensorNode.Proofs.Rounding

namespace SensorNode.Number

open Float.Model UnpackedFloat

/-- the rational that a number stands for; an infinity and a NaN stand for none, and count as zero -/
def signed : UnpackedFloat → ℚ
  | .finite sign mantissa exponent _ => sign.apply mantissa * 2 ^ exponent
  | _ => 0

def value (x : Float) : ℚ := signed x.toModel.unpack

theorem abs_signed (u : UnpackedFloat) : |signed u| = magnitude u := by
  cases u with
  | finite sign mantissa exponent pos => cases sign <;> simp [signed, magnitude, Sign.apply]
  | _ => exact abs_zero

theorem abs_value (x : Float) : |value x| = size x := abs_signed _

/-! ## Signs -/

/-- what has the same digits, whatever its sign, is packed like it -/
theorem unpack_pack_of_digits {x : Float} {f : UnpackedFloat → UnpackedFloat}
    (hf : ∀ u, IsCanonical u → settle u = u → IsCanonical (f u) ∧ settle (f u) = f u) :
    (Float.Model.pack (f x.toModel.unpack)).unpack = f x.toModel.unpack := by
  obtain ⟨hcanonical, hsettle⟩ := canonical_toModel x
  obtain ⟨hcanonical, hsettle⟩ := hf _ hcanonical hsettle
  exact (unpack_pack hcanonical).trans hsettle

/-- whether a number is packed as it is does not depend on its sign -/
theorem settle_sign {sign sign' : Sign} {mantissa : ℕ} {exponent : ℤ} {pos : 0 < mantissa}
    (h : settle (.finite sign mantissa exponent pos) = .finite sign mantissa exponent pos) :
    settle (.finite sign' mantissa exponent pos) = .finite sign' mantissa exponent pos := by
  rw [settle] at h ⊢
  split_ifs at h ⊢
  rfl

theorem unpack_neg (x : Float) : (-x).toModel.unpack = x.toModel.unpack.neg := by
  refine unpack_pack_of_digits (f := UnpackedFloat.neg) fun u hcanonical hsettle => ?_
  cases u with
  | finite sign mantissa exponent pos => exact ⟨hcanonical, settle_sign hsettle⟩
  | _ => exact ⟨trivial, rfl⟩

theorem unpack_abs (x : Float) : x.abs.toModel.unpack = x.toModel.unpack.abs := by
  refine unpack_pack_of_digits (f := UnpackedFloat.abs) fun u hcanonical hsettle => ?_
  cases u with
  | finite sign mantissa exponent pos => exact ⟨hcanonical, settle_sign hsettle⟩
  | _ => exact ⟨trivial, rfl⟩

theorem isFinite_neg (x : Float) : (-x).isFinite = x.isFinite := by
  show (-x).toModel.unpack.isFinite = x.toModel.unpack.isFinite
  rw [unpack_neg]
  cases x.toModel.unpack <;> rfl

theorem isFinite_abs (x : Float) : x.abs.isFinite = x.isFinite := by
  show x.abs.toModel.unpack.isFinite = x.toModel.unpack.isFinite
  rw [unpack_abs]
  cases x.toModel.unpack <;> rfl

theorem value_neg (x : Float) : value (-x) = -value x := by
  rw [value, value, unpack_neg]
  cases x.toModel.unpack with
  | finite sign mantissa exponent pos => cases sign <;> simp [UnpackedFloat.neg, signed, Sign.apply]
  | _ => exact neg_zero.symm

theorem value_abs (x : Float) : value x.abs = |value x| := by
  rw [abs_value, size, value, unpack_abs]
  cases x.toModel.unpack <;> rfl

/-! ## Order -/

/-- digits of a number, as they are told apart by exponent first and mantissa second -/
structure Digits (mantissa : ℕ) (exponent : ℤ) : Prop where
  pos : 0 < mantissa
  bits : mantissa < 2 ^ 53
  full : 2 ^ 52 ≤ mantissa ∨ exponent = -1074
  least : -1074 ≤ exponent

theorem Digits.value_pos {mantissa : ℕ} {exponent : ℤ} (h : Digits mantissa exponent) :
    (0 : ℚ) < mantissa * 2 ^ exponent := by
  have hmantissa : (0 : ℚ) < mantissa := by exact_mod_cast h.pos
  positivity

theorem digits_of_canonical {sign : Sign} {mantissa : ℕ} {exponent : ℤ} {pos : 0 < mantissa}
    (h : IsCanonical (.finite sign mantissa exponent pos)) : Digits mantissa exponent :=
  ⟨pos, h.1, h.2.2, h.2.1⟩

theorem Digits.lt {mantissa mantissa' : ℕ} {exponent exponent' : ℤ} (h : Digits mantissa exponent)
    (h' : Digits mantissa' exponent') (hlt : exponent < exponent' ∨ exponent = exponent' ∧ mantissa < mantissa') :
    (mantissa * 2 ^ exponent : ℚ) < mantissa' * 2 ^ exponent' := by
  rcases hlt with hlt | ⟨rfl, hlt⟩
  · have hfull : (2 ^ 52 : ℚ) ≤ mantissa' := by exact_mod_cast h'.full.resolve_right (by have := h.least; omega)
    calc (mantissa * 2 ^ exponent : ℚ) < 2 ^ 52 * 2 ^ exponent' := grid_lt h.bits hlt
      _ ≤ mantissa' * 2 ^ exponent' := by gcongr
  · gcongr

/-- a finite number is zero or has digits and a sign, and its place says which -/
inductive Placed : Place → ℚ → Prop
  | zero : Placed origin 0
  | positive {mantissa : ℕ} {exponent : ℤ} (digits : Digits mantissa exponent) :
    Placed (toLex (1, toLex (exponent, mantissa))) (mantissa * 2 ^ exponent)
  | negative {mantissa : ℕ} {exponent : ℤ} (digits : Digits mantissa exponent) :
    Placed (toLex (-1, toLex (-exponent, -mantissa))) (-(mantissa * 2 ^ exponent))

theorem exists_placed {x : Float} (hx : x.isFinite = true) : ∃ p, placeOf x = some p ∧ Placed p (value x) := by
  have hcanonical := (canonical_toModel x).1
  have hfinite : x.toModel.unpack.isFinite = true := hx
  unfold placeOf value
  generalize x.toModel.unpack = u at hcanonical hfinite
  cases u with
  | notANumber => cases hfinite
  | infinity sign => cases hfinite
  | zero sign => exact ⟨_, rfl, .zero⟩
  | finite sign mantissa exponent pos =>
    have hdigits := digits_of_canonical hcanonical
    cases sign with
    | positive => exact ⟨_, rfl, by simpa [signed, Sign.apply] using Placed.positive hdigits⟩
    | negative => exact ⟨_, rfl, by simpa [signed, Sign.apply] using Placed.negative hdigits⟩

theorem Placed.lt {p q : Place} {v w : ℚ} (hp : Placed p v) (hq : Placed q w) (h : p < q) : v < w := by
  cases hp with
  | zero =>
    cases hq with
    | zero => exact absurd h (lt_irrefl _)
    | positive hdigits => exact hdigits.value_pos
    | negative hdigits => exact absurd h (by simp [origin, Prod.Lex.toLex_lt_toLex])
  | positive hdigits =>
    cases hq with
    | zero => exact absurd h (by simp [origin, Prod.Lex.toLex_lt_toLex])
    | positive hdigits' =>
      exact hdigits.lt hdigits' (by simpa [Prod.Lex.toLex_lt_toLex] using h)
    | negative hdigits' => exact absurd h (by simp [Prod.Lex.toLex_lt_toLex])
  | negative hdigits =>
    cases hq with
    | zero => exact neg_lt_zero.2 hdigits.value_pos
    | positive hdigits' => exact (neg_lt_zero.2 hdigits.value_pos).trans hdigits'.value_pos
    | negative hdigits' =>
      have hless := hdigits'.lt hdigits (by simpa [Prod.Lex.toLex_lt_toLex, eq_comm] using h)
      exact neg_lt_neg hless

/-- its place is between those of the infinities -/
theorem Placed.between {p : Place} {v : ℚ} (h : Placed p v) :
    toLex (-2, toLex (0, 0)) < p ∧ p < toLex (2, toLex (0, 0)) := by
  cases h <;> simp [origin, Prod.Lex.toLex_lt_toLex]

theorem Placed.eq {p : Place} {v w : ℚ} (hv : Placed p v) (hw : Placed p w) : v = w := by
  generalize hp : p = q at hw
  cases hv <;> cases hw <;> simp_all [origin]

theorem lt_iff_value {x y : Float} (hx : x.isFinite = true) (hy : y.isFinite = true) : x < y ↔ value x < value y := by
  obtain ⟨p, hp, hplaced⟩ := exists_placed hx
  obtain ⟨q, hq, hplaced'⟩ := exists_placed hy
  rw [lt_iff_of_placeOf hp hq]
  refine ⟨hplaced.lt hplaced', fun h => ?_⟩
  by_contra hge
  rcases (not_lt.1 hge).lt_or_eq with hgt | rfl
  · exact absurd h (hplaced'.lt hplaced hgt).not_gt
  · exact absurd h (hplaced.eq hplaced').not_lt

/-- a number is at most another if it is less or equal -/
theorem le_iff_place (x y : Float) : x ≤ y ↔ ∃ p ∈ placeOf x, ∃ q ∈ placeOf y, p ≤ q := by
  have hle : ∀ u w : UnpackedFloat, u.le w = (u.lt w || u.beq w) := by
    intro u w
    unfold UnpackedFloat.le UnpackedFloat.lt UnpackedFloat.beq
    cases u.compare w with
    | none => rfl
    | some order => cases order <;> rfl
  show x.le y = true ↔ _
  unfold Float.le
  rw [decide_eq_true_iff]
  show x.toModel.unpack.le y.toModel.unpack = true ↔ _
  rw [hle, Bool.or_eq_true, unpacked_lt_iff, unpacked_beq_iff]
  show _ ↔ ∃ p ∈ place x.toModel.unpack, ∃ q ∈ place y.toModel.unpack, p ≤ q
  cases place x.toModel.unpack with
  | none => simp
  | some p => cases place y.toModel.unpack <;> simp [le_iff_lt_or_eq]

theorem le_iff_value {x y : Float} (hx : x.isFinite = true) (hy : y.isFinite = true) : x ≤ y ↔ value x ≤ value y := by
  obtain ⟨p, hp, hplaced⟩ := exists_placed hx
  obtain ⟨q, hq, hplaced'⟩ := exists_placed hy
  have hplace : x ≤ y ↔ p ≤ q := by simp [le_iff_place, hp, hq]
  have hless := lt_iff_value hy hx
  rw [lt_iff_of_placeOf hq hp] at hless
  rw [hplace, ← not_lt, hless, not_lt]

/-- between finite numbers there is neither an infinity nor a NaN -/
theorem isFinite_of_between {x y z : Float} (hx : x.isFinite = true) (hz : z.isFinite = true) (hxy : x ≤ y)
    (hyz : y ≤ z) : y.isFinite = true := by
  obtain ⟨p, hp, hplaced⟩ := exists_placed hx
  obtain ⟨r, hr, hplaced'⟩ := exists_placed hz
  obtain ⟨p', hp', q, hq, hle⟩ := (le_iff_place x y).1 hxy
  obtain ⟨q', hq', r', hr', hle'⟩ := (le_iff_place y z).1 hyz
  obtain rfl : p = p' := Option.some.inj (hp.symm.trans hp')
  obtain rfl : q = q' := Option.some.inj (Option.mem_def.1 hq ▸ hq')
  obtain rfl : r = r' := Option.some.inj (hr.symm.trans hr')
  show y.toModel.unpack.isFinite = true
  unfold placeOf at hq
  generalize y.toModel.unpack = u at hq
  cases u with
  | notANumber => cases hq
  | zero sign => rfl
  | finite sign mantissa exponent pos => rfl
  | infinity sign =>
    cases sign with
    | negative =>
      obtain rfl : _ = q := Option.some.inj hq
      exact absurd hplaced.between.1 hle.not_gt
    | positive =>
      obtain rfl : _ = q := Option.some.inj hq
      exact absurd hplaced'.between.2 hle'.not_gt

/-! ## Sums -/

/-- no number of the grid separates the one from the other -/
def FollowsGrid (v : ℚ) (u : UnpackedFloat) : Prop :=
  ∀ b, OnGrid |b| → (v ≤ b → signed u ≤ b) ∧ (b ≤ v → b ≤ signed u)

theorem followsGrid_signed (u : UnpackedFloat) : FollowsGrid (signed u) u := fun _ _ => ⟨id, id⟩

theorem RoundsTo.follows_of_nonneg {v : ℚ} {u : UnpackedFloat} (h : RoundsTo v u) (hsign : signed u = magnitude u)
    (hv : 0 ≤ v) : FollowsGrid v u := by
  intro b hb
  rw [hsign]
  refine ⟨fun hle => ?_, fun hge => ?_⟩
  · rw [abs_of_nonneg (hv.trans hle)] at hb
    exact h.le hb hle
  · rcases le_or_gt 0 b with hpos | hneg
    · rw [abs_of_nonneg hpos] at hb
      exact h.ge hb hge
    · exact hneg.le.trans (magnitude_nonneg u)

theorem RoundsTo.follows_of_nonpos {v : ℚ} {u : UnpackedFloat} (h : RoundsTo (-v) u) (hsign : signed u = -magnitude u)
    (hv : v ≤ 0) : FollowsGrid v u := by
  intro b hb
  rw [hsign]
  refine ⟨fun hle => ?_, fun hge => ?_⟩
  · rcases le_or_gt 0 b with hpos | hneg
    · exact (neg_nonpos.2 (magnitude_nonneg u)).trans hpos
    · rw [abs_of_neg hneg] at hb
      exact neg_le.1 (h.ge hb (neg_le_neg hle))
  · rw [abs_of_nonpos (hge.trans hv)] at hb
    exact le_neg.1 (h.le hb (neg_le_neg hge))

theorem signed_round (sign : Sign) (mantissa : ℕ) (exponent : ℤ) :
    signed (UnpackedFloat.round .binary64 sign mantissa exponent) =
      sign.apply 1 * magnitude (UnpackedFloat.round .binary64 sign mantissa exponent) := by
  unfold UnpackedFloat.round roundWithAccuracy
  dsimp only
  split_ifs
  · simp [signed, magnitude]
  · cases sign <;> simp [signed, magnitude, Sign.apply]

theorem normalize_follows (mantissa exponent : ℤ) (zeroSign : Sign) :
    FollowsGrid (mantissa * 2 ^ exponent) (UnpackedFloat.normalize .binary64 mantissa exponent zeroSign) := by
  have hpower : (0 : ℚ) ≤ 2 ^ exponent := by positivity
  unfold UnpackedFloat.normalize
  rcases lt_trichotomy mantissa 0 with hneg | rfl | hpos
  · rw [compare_lt_iff_lt.2 hneg]
    have hrounds := round_rounds .negative (by omega : (-mantissa).toNat ≠ 0) exponent
    have hvalue : (((-mantissa).toNat : ℕ) : ℚ) = -mantissa := by exact_mod_cast Int.toNat_of_nonneg (by omega)
    rw [hvalue, neg_mul] at hrounds
    refine hrounds.follows_of_nonpos ?_ (mul_nonpos_of_nonpos_of_nonneg (by exact_mod_cast hneg.le) hpower)
    simpa [Sign.apply] using signed_round .negative (-mantissa).toNat exponent
  · simpa [signed] using followsGrid_signed (.zero zeroSign)
  · rw [compare_gt_iff_gt.2 hpos]
    have hrounds := round_rounds .positive (by omega : mantissa.toNat ≠ 0) exponent
    have hvalue : ((mantissa.toNat : ℕ) : ℚ) = mantissa := by exact_mod_cast Int.toNat_of_nonneg hpos.le
    rw [hvalue] at hrounds
    refine hrounds.follows_of_nonneg ?_ (mul_nonneg (by exact_mod_cast hpos.le) hpower)
    simpa [Sign.apply] using signed_round .positive mantissa.toNat exponent

theorem signed_decreaseExponent (sign : Sign) (mantissa : ℕ) (exponent target : ℤ) :
    ((sign.apply (decreaseExponent mantissa exponent target).1 : ℤ) *
        2 ^ (decreaseExponent mantissa exponent target).2 : ℚ) = sign.apply mantissa * 2 ^ exponent := by
  have hvalue := decreaseExponent_value mantissa exponent target
  cases sign with
  | positive => simpa [Sign.apply] using hvalue
  | negative => simpa [Sign.apply] using congrArg Neg.neg hvalue

theorem add_follows {u w : UnpackedFloat} (hfu : u.isFinite = true) (hfw : w.isFinite = true) :
    FollowsGrid (signed u + signed w) (UnpackedFloat.add .binary64 u w) := by
  cases u with
  | notANumber => cases hfu
  | infinity sign => cases hfu
  | zero sign =>
    cases w with
    | notANumber => cases hfw
    | infinity sign' => cases hfw
    | zero sign' =>
      simp only [UnpackedFloat.add, signed, add_zero]
      split_ifs
      · exact followsGrid_signed (.zero sign)
      · exact followsGrid_signed (.zero .positive)
    | finite sign' mantissa' exponent' pos' =>
      rw [show signed (.zero sign) = 0 from rfl, zero_add]
      exact followsGrid_signed _
  | finite sign mantissa exponent pos =>
    cases w with
    | notANumber => cases hfw
    | infinity sign' => cases hfw
    | zero sign' =>
      rw [show signed (.zero sign') = 0 from rfl, add_zero]
      exact followsGrid_signed _
    | finite sign' mantissa' exponent' pos' =>
      have hvalue := signed_decreaseExponent sign mantissa exponent (min exponent exponent')
      have hvalue' := signed_decreaseExponent sign' mantissa' exponent' (min exponent exponent')
      have hexponent : (decreaseExponent mantissa exponent (min exponent exponent')).2 = min exponent exponent' := by
        simp only [decreaseExponent]
        omega
      have hexponent' : (decreaseExponent mantissa' exponent' (min exponent exponent')).2 = min exponent exponent' := by
        simp only [decreaseExponent]
        omega
      rw [hexponent] at hvalue
      rw [hexponent'] at hvalue'
      rw [signed, signed, ← hvalue, ← hvalue', ← add_mul, ← Int.cast_add]
      exact normalize_follows _ _ _

theorem settle_of_isFinite {u : UnpackedFloat} (h : (settle u).isFinite = true) : settle u = u := by
  cases u with
  | finite sign mantissa exponent pos =>
    rw [settle] at h ⊢
    split_ifs at h ⊢
    · cases h
    · rfl
  | _ => rfl

/-- **Sums.** A finite sum is on the same side of every number as the sum of what its terms stand for. -/
theorem add_between {x y : Float} (hx : x.isFinite = true) (hy : y.isFinite = true) (hsum : (x + y).isFinite = true)
    (b : Float) :
    (value x + value y ≤ value b → value (x + y) ≤ value b) ∧ (value b ≤ value x + value y → value b ≤ value (x + y)) := by
  obtain ⟨v, -, hrounds⟩ := add_rounds (canonical_toModel x).1 (canonical_toModel y).1 hx hy
  have hsettle : (x + y).toModel.unpack = settle (UnpackedFloat.add .binary64 x.toModel.unpack y.toModel.unpack) :=
    unpack_pack hrounds.canonical
  have hunpack : (x + y).toModel.unpack = UnpackedFloat.add .binary64 x.toModel.unpack y.toModel.unpack :=
    hsettle.trans (settle_of_isFinite (hsettle ▸ hsum))
  have hgrid : OnGrid |value b| := by
    rw [abs_value]
    exact onGrid_magnitude (canonical_toModel b).1
  rw [show value (x + y) = _ from congrArg signed hunpack]
  exact add_follows hx hy _ hgrid

end SensorNode.Number
