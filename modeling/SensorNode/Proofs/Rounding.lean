/-
Rounding. What arithmetic makes of its exact result is a canonical number that no number of the grid separates from it
(`RoundsTo`), and what is packed is unpacked again unless it is too large (`unpack_pack`). So a sum stays below a number
of the grid that both its terms together do not pass (`isFinite_add`), and a division by at least one neither loses a
finite number nor gains one (`isFinite_div`).
-/
import Mathlib

namespace SensorNode.Number

open Float.Model UnpackedFloat

/-! ## Bits that are shifted out -/

/-- the mantissa is the whole part of the number, and no bit behind it is set exactly if that is all of it -/
structure Near (em : ExtendedMantissa) (v : ℚ) : Prop where
  le : em.mantissa ≤ v
  lt : v < em.mantissa + 1
  exact : (em.roundBit || em.stickyBit) = false ↔ v = em.mantissa

theorem near_exact (mantissa : ℕ) : Near (.ofMantissaAndAccuracy mantissa .exact) mantissa where
  le := le_rfl
  lt := lt_add_one _
  exact := iff_of_true rfl rfl

/-- a quotient, its whole part and what is left -/
theorem near_quotient (dividend : ℕ) {divisor : ℕ} (h : 0 < divisor) :
    Near (.ofMantissaAndAccuracy (dividend / divisor) (accuracyOfFraction (dividend % divisor) divisor))
      (dividend / divisor) := by
  have hpos : (0 : ℚ) < divisor := by exact_mod_cast h
  have hmantissa : (ExtendedMantissa.ofMantissaAndAccuracy (dividend / divisor)
      (accuracyOfFraction (dividend % divisor) divisor)).mantissa = dividend / divisor := by
    unfold accuracyOfFraction ExtendedMantissa.ofMantissaAndAccuracy
    split <;> rfl
  have hsplit : (dividend : ℚ) / divisor = (dividend / divisor : ℕ) + ((dividend % divisor : ℕ) : ℚ) / divisor := by
    rw [eq_comm, ← eq_sub_iff_add_eq', div_eq_iff hpos.ne', sub_mul, div_mul_cancel₀ _ hpos.ne', eq_sub_iff_add_eq]
    exact_mod_cast Nat.mod_add_div' dividend divisor
  have hrest : (0 : ℚ) ≤ ((dividend % divisor : ℕ) : ℚ) / divisor := by positivity
  have hless : ((dividend % divisor : ℕ) : ℚ) / divisor < 1 := by
    rw [div_lt_one hpos]
    exact_mod_cast Nat.mod_lt dividend h
  refine ⟨?_, ?_, ?_⟩
  · rw [hmantissa, hsplit]
    exact le_add_of_nonneg_right hrest
  · rw [hmantissa, hsplit]
    exact add_lt_add_right hless _
  · rw [hmantissa, hsplit, add_eq_left, div_eq_zero_iff, or_iff_left hpos.ne', Nat.cast_eq_zero]
    unfold accuracyOfFraction
    split_ifs with hzero
    · exact iff_of_true rfl hzero
    · refine iff_of_false (fun hbits => ?_) hzero
      generalize compare (2 * (dividend % divisor)) divisor = half at hbits
      cases half <;> simp [ExtendedMantissa.ofMantissaAndAccuracy] at hbits

theorem Near.shiftRightOne {em : ExtendedMantissa} {v : ℚ} (h : Near em v) : Near em.shiftRightOne (v / 2) := by
  obtain ⟨mantissa, roundBit, stickyBit⟩ := em
  obtain ⟨hle, hlt, hexact⟩ := h
  simp only at hle hlt hexact
  have hhalves : ((mantissa / 2 : ℕ) : ℚ) * 2 + ((mantissa % 2 : ℕ) : ℚ) = mantissa := by
    exact_mod_cast Nat.div_add_mod' mantissa 2
  have hbit : ((mantissa % 2 : ℕ) : ℚ) ≤ 1 := by exact_mod_cast Nat.lt_succ_iff.1 (Nat.mod_lt mantissa two_pos)
  have hnonneg : (0 : ℚ) ≤ ((mantissa % 2 : ℕ) : ℚ) := Nat.cast_nonneg _
  refine ⟨?_, ?_, ?_⟩
  · show ((mantissa / 2 : ℕ) : ℚ) ≤ v / 2
    linarith
  · show v / 2 < ((mantissa / 2 : ℕ) : ℚ) + 1
    linarith
  · show ((mantissa % 2 != 0) || (roundBit || stickyBit)) = false ↔ v / 2 = ((mantissa / 2 : ℕ) : ℚ)
    rw [Bool.or_eq_false_iff, hexact, bne_eq_false_iff_eq]
    constructor
    · rintro ⟨heven, hv⟩
      rw [heven, Nat.cast_zero] at hhalves
      linarith
    · intro hv
      have hodd : ((mantissa % 2 : ℕ) : ℚ) = 0 := by linarith
      exact ⟨by exact_mod_cast hodd, by linarith⟩

theorem Near.shiftRight {em : ExtendedMantissa} {v : ℚ} (h : Near em v) (n : ℕ) : Near (em >>> n) (v / 2 ^ n) := by
  show Near (n.repeat ExtendedMantissa.shiftRightOne em) (v / 2 ^ n)
  induction n with
  | zero => simpa [Nat.repeat] using h
  | succ n ih =>
    rw [pow_succ, ← div_div]
    exact ih.shiftRightOne

/-! ## Rounding to whole numbers -/

theorem roundedMantissa_cases (em : ExtendedMantissa) :
    (em.roundedMantissa = em.mantissa ∨ em.roundedMantissa = em.mantissa + 1) ∧
      ((em.roundBit || em.stickyBit) = false → em.roundedMantissa = em.mantissa) := by
  obtain ⟨mantissa, _ | _, _ | _⟩ := em <;>
    simp [ExtendedMantissa.roundedMantissa, ExtendedMantissa.accuracy, Accuracy.roundToNearestEven]
  omega

/-- rounding does not pass a whole number -/
theorem Near.round_le {em : ExtendedMantissa} {v : ℚ} (h : Near em v) {b : ℕ} (hv : v ≤ b) : em.roundedMantissa ≤ b := by
  obtain ⟨hcases, hexact⟩ := roundedMantissa_cases em
  have hle : em.mantissa ≤ b := by exact_mod_cast h.le.trans hv
  by_cases hb : em.mantissa = b
  · have hv' : v = em.mantissa := le_antisymm (hb ▸ hv) h.le
    rw [hexact (h.exact.2 hv'), hb]
  · omega

theorem Near.le_round {em : ExtendedMantissa} {v : ℚ} (h : Near em v) {b : ℕ} (hv : b ≤ v) : b ≤ em.roundedMantissa := by
  obtain ⟨hcases, -⟩ := roundedMantissa_cases em
  have hlt : b < em.mantissa + 1 := by exact_mod_cast hv.trans_lt h.lt
  omega

/-! ## Rounding to the format -/

/-- the absolute value; an infinity and a NaN have none, and count as zero -/
def magnitude : UnpackedFloat → ℚ
  | .finite _ mantissa exponent _ => mantissa * 2 ^ exponent
  | _ => 0

/-- the mantissa has 53 bits, or fewer at the least exponent -/
def IsCanonical : UnpackedFloat → Prop
  | .finite _ mantissa exponent _ => mantissa < 2 ^ 53 ∧ -1074 ≤ exponent ∧ (2 ^ 52 ≤ mantissa ∨ exponent = -1074)
  | _ => True

/-- fewer than 54 bits hold the number, so that it is not rounded unless it is too large -/
def OnGrid (v : ℚ) : Prop := ∃ (mantissa : ℕ) (exponent : ℤ), mantissa < 2 ^ 53 ∧ -1074 ≤ exponent ∧ v = mantissa * 2 ^ exponent

/-- the unpacked number has the value that is rounded, up to its sign, and lies on the same side of all of the grid -/
structure RoundsTo (v : ℚ) (u : UnpackedFloat) : Prop where
  finite : u.isFinite = true
  canonical : IsCanonical u
  le : ∀ {b}, OnGrid b → v ≤ b → magnitude u ≤ b
  ge : ∀ {b}, OnGrid b → b ≤ v → b ≤ magnitude u

theorem targetExponent_eq (mantissa : ℕ) (exponent : ℤ) :
    Format.binary64.targetExponent (totalExponent mantissa exponent) = max (mantissa.log2 + exponent - 52) (-1074) := by
  simp only [Format.targetExponent, totalExponent, Format.mantissaBits, Format.minExponent]
  norm_num
  omega

theorem shiftToTargetExponent_of_lt {mantissa : ℕ} (h : mantissa < 2 ^ 53) {exponent : ℤ} (hmin : -1074 ≤ exponent) :
    shiftToTargetExponent .binary64 mantissa exponent .exact = (⟨mantissa, false, false⟩, exponent) := by
  have hlog : mantissa.log2 ≤ 52 := by
    rcases Nat.eq_zero_or_pos mantissa with rfl | hpos
    · decide
    · exact Nat.lt_succ_iff.1 ((Nat.log2_lt hpos.ne').2 h)
  have hnone : (max ((mantissa.log2 : ℤ) + exponent - 52) (-1074) - exponent).toNat = 0 := by omega
  simp only [shiftToTargetExponent, shiftToExponent, targetExponent_eq, hnone]
  exact Prod.ext rfl (add_zero exponent)

/-- a mantissa that has been rounded up to one bit more gives it up again -/
theorem shiftToTargetExponent_carry {exponent : ℤ} (hmin : -1074 ≤ exponent) :
    shiftToTargetExponent .binary64 (2 ^ 53) exponent .exact = (⟨2 ^ 52, false, false⟩, exponent + 1) := by
  have hone : (max (((2 ^ 53 : ℕ).log2 : ℤ) + exponent - 52) (-1074) - exponent).toNat = 1 := by
    rw [Nat.log2_two_pow]
    omega
  simp only [shiftToTargetExponent, shiftToExponent, targetExponent_eq, hone]
  rfl

theorem canonical_rounds {u : UnpackedFloat} (hfinite : u.isFinite = true) (h : IsCanonical u) : RoundsTo (magnitude u) u :=
  ⟨hfinite, h, fun _ hb => hb, fun _ hb => hb⟩

theorem onGrid_magnitude {u : UnpackedFloat} (h : IsCanonical u) : OnGrid (magnitude u) := by
  cases u with
  | finite sign mantissa exponent pos => exact ⟨mantissa, exponent, h.1, h.2.1, rfl⟩
  | _ => exact ⟨0, 0, by norm_num, by norm_num, by simp [magnitude]⟩

/-- numbers of the grid with less than this exponent are below the least number of 53 bits that has it -/
theorem grid_lt {mantissa : ℕ} (h : mantissa < 2 ^ 53) {exponent target : ℤ} (hlt : exponent < target) :
    (mantissa * 2 ^ exponent : ℚ) < 2 ^ 52 * 2 ^ target := by
  have hmantissa : (mantissa : ℚ) < 2 ^ 53 := by exact_mod_cast h
  calc (mantissa * 2 ^ exponent : ℚ) < 2 ^ 53 * 2 ^ exponent := by gcongr
    _ = 2 ^ 52 * 2 ^ (exponent + 1) := by rw [zpow_add_one₀ two_ne_zero]; ring
    _ ≤ 2 ^ 52 * 2 ^ target := by gcongr <;> norm_num; omega

/-- others are whole multiples of it -/
theorem grid_eq (mantissa : ℕ) {exponent target : ℤ} (hle : target ≤ exponent) :
    (mantissa * 2 ^ exponent : ℚ) = (mantissa * 2 ^ (exponent - target).toNat : ℕ) * 2 ^ target := by
  have hexponent : exponent = ((exponent - target).toNat : ℤ) + target := by omega
  conv_lhs => rw [hexponent]
  rw [zpow_add₀ two_ne_zero, zpow_natCast]
  push_cast
  ring

/-- a number has been rounded to this multiple of a power of two -/
structure Settles (v : ℚ) (rounded : ℕ) (exponent : ℤ) : Prop where
  bits : rounded ≤ 2 ^ 53
  least : -1074 ≤ exponent
  full : 2 ^ 52 ≤ rounded ∨ exponent = -1074
  le : ∀ {b}, OnGrid b → v ≤ b → rounded * 2 ^ exponent ≤ b
  ge : ∀ {b}, OnGrid b → b ≤ v → b ≤ rounded * 2 ^ exponent

theorem ofMantissaAndAccuracy_mantissa (mantissa : ℕ) (accuracy : Accuracy) :
    (ExtendedMantissa.ofMantissaAndAccuracy mantissa accuracy).mantissa = mantissa := by
  unfold ExtendedMantissa.ofMantissaAndAccuracy
  split <;> rfl

/-- so it has when it is shifted to the exponent that the format wants for it -/
theorem Near.settles {mantissa : ℕ} {accuracy : Accuracy} {v : ℚ}
    (h : Near (.ofMantissaAndAccuracy mantissa accuracy) v) {exponent : ℤ} {n : ℕ}
    (hn : exponent + n = max (mantissa.log2 + exponent - 52) (-1074)) :
    Settles (v * 2 ^ exponent) (ExtendedMantissa.ofMantissaAndAccuracy mantissa accuracy >>> n).roundedMantissa
      (exponent + n) := by
  have hshift := h.shiftRight n
  have hle := h.le
  have hlt := h.lt
  rw [ofMantissaAndAccuracy_mantissa] at hle hlt
  have hvalue : v * 2 ^ exponent = v / 2 ^ n * 2 ^ (exponent + n) := by
    rw [zpow_add₀ two_ne_zero, zpow_natCast]
    field_simp
  have hbits : v / 2 ^ n ≤ (2 ^ 53 : ℕ) := by
    have hlog : mantissa + 1 ≤ 2 ^ (53 + n) :=
      Nat.lt_log2_self.trans_le (Nat.pow_le_pow_right two_pos (by omega))
    rw [div_le_iff₀ (by positivity)]
    calc v ≤ (mantissa + 1 : ℕ) := by exact_mod_cast hlt.le
      _ ≤ (2 ^ (53 + n) : ℕ) := by exact_mod_cast hlog
      _ = (2 ^ 53 : ℕ) * 2 ^ n := by push_cast; rw [pow_add]; norm_num
  -- short of the least exponent there are 53 bits left
  have hfull : exponent + n ≠ -1074 → (2 ^ 52 : ℕ) ≤ v / 2 ^ n := by
    intro hmin
    have hlog : mantissa.log2 = 52 + n := by omega
    have hmantissa : 2 ^ (52 + n) ≤ mantissa := by
      rw [← hlog]
      exact Nat.log2_self_le (by rintro rfl; simp at hlog; omega)
    rw [le_div_iff₀ (by positivity)]
    calc ((2 ^ 52 : ℕ) * 2 ^ n : ℚ) = (2 ^ (52 + n) : ℕ) := by push_cast; rw [pow_add]; norm_num
      _ ≤ mantissa := by exact_mod_cast hmantissa
      _ ≤ v := hle
  have hpos : (0 : ℚ) < 2 ^ (exponent + n) := by positivity
  refine ⟨hshift.round_le hbits, by omega, ?_, ?_, ?_⟩
  · by_cases hmin : exponent + n = -1074
    · exact Or.inr hmin
    · exact Or.inl (hshift.le_round (hfull hmin))
  · rintro b ⟨a, k, ha, hk, rfl⟩ hv
    rw [hvalue] at hv
    rcases le_or_gt (exponent + n) k with hexponent | hexponent
    · rw [grid_eq a hexponent] at hv ⊢
      have hround := hshift.round_le (le_of_mul_le_mul_right hv hpos)
      gcongr
    · have hgrid := grid_lt ha hexponent
      have hmany := mul_le_mul_of_nonneg_right (hfull (by omega)) hpos.le
      push_cast at hmany
      linarith
  · rintro b ⟨a, k, ha, hk, rfl⟩ hv
    rw [hvalue] at hv
    rcases le_or_gt (exponent + n) k with hexponent | hexponent
    · rw [grid_eq a hexponent] at hv ⊢
      have hround := hshift.le_round (le_of_mul_le_mul_right hv hpos)
      gcongr
    · have hround : (2 ^ 52 : ℚ) ≤ (ExtendedMantissa.ofMantissaAndAccuracy mantissa accuracy >>> n).roundedMantissa := by
        exact_mod_cast hshift.le_round (hfull (by omega))
      calc (a * 2 ^ k : ℚ) ≤ 2 ^ 52 * 2 ^ (exponent + n) := (grid_lt ha hexponent).le
        _ ≤ _ := by gcongr

/-- what is made of it in the end has its value -/
theorem roundWithAccuracy_rounds (sign : Sign) {mantissa : ℕ} {exponent : ℤ} {accuracy : Accuracy} {v : ℚ}
    (hnear : Near (.ofMantissaAndAccuracy mantissa accuracy) v)
    (htarget : exponent ≤ max (mantissa.log2 + exponent - 52) (-1074)) :
    RoundsTo (v * 2 ^ exponent) (roundWithAccuracy .binary64 sign mantissa exponent accuracy) := by
  obtain ⟨n, hn⟩ : ∃ n : ℕ, exponent + n = max (mantissa.log2 + exponent - 52) (-1074) :=
    ⟨_, by rw [Int.toNat_of_nonneg (sub_nonneg.2 htarget)]; ring⟩
  have hsettles := hnear.settles hn
  have hfirst : shiftToTargetExponent .binary64 mantissa exponent accuracy =
      (ExtendedMantissa.ofMantissaAndAccuracy mantissa accuracy >>> n, exponent + n) := by
    have hamount : (exponent + n - exponent).toNat = n := by omega
    simp only [shiftToTargetExponent, shiftToExponent, targetExponent_eq, ← hn, hamount]
  unfold roundWithAccuracy
  rw [hfirst]
  dsimp only
  generalize (ExtendedMantissa.ofMantissaAndAccuracy mantissa accuracy >>> n).roundedMantissa = rounded at hsettles
  generalize exponent + n = target at hsettles
  obtain ⟨hbits, hleast, hfull, hle, hge⟩ := hsettles
  rcases Nat.lt_or_eq_of_le hbits with hlt | rfl
  · rw [shiftToTargetExponent_of_lt hlt hleast]
    dsimp only
    split_ifs with hzero
    · subst hzero
      exact ⟨rfl, trivial, fun hb hv => by simpa [magnitude] using hle hb hv,
        fun hb hv => by simpa [magnitude] using hge hb hv⟩
    · exact ⟨rfl, ⟨hlt, hleast, hfull⟩, hle, hge⟩
  · rw [shiftToTargetExponent_carry hleast]
    dsimp only
    rw [dif_neg (by norm_num)]
    have hmagnitude : magnitude (.finite sign (2 ^ 52) (target + 1) (by norm_num)) = (2 ^ 53 : ℕ) * 2 ^ target := by
      rw [magnitude, zpow_add_one₀ two_ne_zero]
      push_cast
      ring
    refine ⟨rfl, ⟨by norm_num, by omega, Or.inl le_rfl⟩, fun hb hv => ?_, fun hb hv => ?_⟩
    · rw [hmagnitude]
      exact hle hb hv
    · rw [hmagnitude]
      exact hge hb hv

theorem log2_shiftLeft {mantissa : ℕ} (h : mantissa ≠ 0) (n : ℕ) : (mantissa <<< n).log2 = mantissa.log2 + n := by
  rw [Nat.log2_eq_iff (by simp [Nat.shiftLeft_eq, h]), Nat.shiftLeft_eq, add_right_comm, pow_add, pow_add]
  have hpos : 0 < 2 ^ n := Nat.two_pow_pos n
  exact ⟨Nat.mul_le_mul_right _ (Nat.log2_self_le h), Nat.mul_lt_mul_of_pos_right Nat.lt_log2_self hpos⟩

/-- a lower exponent does not change the value -/
theorem decreaseExponent_value (mantissa : ℕ) (exponent target : ℤ) :
    ((decreaseExponent mantissa exponent target).1 * 2 ^ (decreaseExponent mantissa exponent target).2 : ℚ) =
      mantissa * 2 ^ exponent := by
  simp only [decreaseExponent, Nat.shiftLeft_eq]
  push_cast
  rw [mul_assoc, ← zpow_natCast, ← zpow_add₀ two_ne_zero, add_sub_cancel]

theorem round_rounds (sign : Sign) {mantissa : ℕ} (h : mantissa ≠ 0) (exponent : ℤ) :
    RoundsTo (mantissa * 2 ^ exponent) (UnpackedFloat.round .binary64 sign mantissa exponent) := by
  unfold UnpackedFloat.round
  dsimp only
  rw [targetExponent_eq, ← decreaseExponent_value mantissa exponent (max (mantissa.log2 + exponent - 52) (-1074))]
  apply roundWithAccuracy_rounds sign (near_exact _)
  simp only [decreaseExponent, log2_shiftLeft h]
  push_cast
  omega

theorem normalize_rounds (mantissa exponent : ℤ) (zeroSign : Sign) :
    RoundsTo (mantissa.natAbs * 2 ^ exponent) (UnpackedFloat.normalize .binary64 mantissa exponent zeroSign) := by
  unfold UnpackedFloat.normalize
  rcases lt_trichotomy mantissa 0 with hneg | rfl | hpos
  · rw [compare_lt_iff_lt.2 hneg, show mantissa.natAbs = (-mantissa).toNat by omega]
    exact round_rounds .negative (by omega) exponent
  · simpa [magnitude] using canonical_rounds (u := .zero zeroSign) rfl trivial
  · rw [compare_gt_iff_gt.2 hpos, show mantissa.natAbs = mantissa.toNat by omega]
    exact round_rounds .positive (by omega) exponent

/-! ## Packed numbers -/

/-- a canonical number that is too large to be packed is taken for an infinity -/
def settle : UnpackedFloat → UnpackedFloat
  | .finite sign mantissa exponent pos =>
    if 971 < exponent then .infinity sign else .finite sign mantissa exponent pos
  | u => u

theorem ofBitVec_toBitVec (sign : Sign) : Sign.ofBitVec sign.toBitVec = sign := by
  cases sign <;> rfl

/-- the implicit bit is put back in front of the others -/
theorem implicit_append {mantissa : ℕ} (hfull : 2 ^ 52 ≤ mantissa) (hbits : mantissa < 2 ^ 53) :
    (1#1 ++ BitVec.ofNat 52 mantissa).toNat = mantissa := by
  rw [BitVec.toNat_append, BitVec.toNat_ofNat, BitVec.toNat_ofNat, Nat.mod_eq_of_lt (by norm_num : 1 < 2 ^ 1),
    ← Nat.shiftLeft_add_eq_or_of_lt (Nat.mod_lt _ (by norm_num)), Nat.shiftLeft_eq]
  omega

/-- a number whose leading bit is left out -/
theorem unpack_pack_normal {sign : Sign} {mantissa : ℕ} {exponent : ℤ} {pos : 0 < mantissa}
    (hfull : 2 ^ 52 ≤ mantissa) (hbits : mantissa < 2 ^ 53) (hmin : -1074 ≤ exponent) (hmax : exponent ≤ 971) :
    UnpackedFloat.unpack .binary64 (UnpackedFloat.pack .binary64 (.finite sign mantissa exponent pos)) =
      .finite sign mantissa exponent pos := by
  have hfield : (BitVec.ofNat 11 (exponent + 1075).toNat).toNat = (exponent + 1075).toNat := by
    rw [BitVec.toNat_ofNat, Nat.mod_eq_of_lt (by omega)]
  have htop : BitVec.ofNat 11 (exponent + 1075).toNat ≠ -1#11 := by
    rw [BitVec.toNat_ne, hfield]
    exact (show (exponent + 1075).toNat < 2047 by omega).ne
  have hbottom : BitVec.ofNat 11 (exponent + 1075).toNat ≠ 0#11 := by
    rw [BitVec.toNat_ne, hfield]
    exact (show 0 < (exponent + 1075).toNat by omega).ne'
  have hlog : mantissa.log2 = 52 := (Nat.log2_eq_iff pos.ne').2 ⟨hfull, hbits⟩
  have hbiased : exponent + ((2 ^ 10 - 1 : ℕ) : ℤ) + (52 : ℕ) = exponent + 1075 := by omega
  have hshort : ¬2 ^ 11 ≤ (exponent + 1075).toNat + 1 := by omega
  simp only [UnpackedFloat.pack, Format.exponentBias, Format.mantissaBits, hbiased, if_neg hshort, hlog, if_true]
  simp only [UnpackedFloat.unpack, unpackExponent_packComponents, unpackMantissa_packComponents,
    unpackSign_packComponents, if_neg htop, if_neg hbottom, ofBitVec_toBitVec, hfield, implicit_append hfull hbits,
    Format.exponentBias]
  congr 1
  omega

/-- a number at the least exponent with fewer bits -/
theorem unpack_pack_subnormal {sign : Sign} {mantissa : ℕ} {pos : 0 < mantissa} (hbits : mantissa < 2 ^ 52) :
    UnpackedFloat.unpack .binary64 (UnpackedFloat.pack .binary64 (.finite sign mantissa (-1074) pos)) =
      .finite sign mantissa (-1074) pos := by
  have hfield : (BitVec.ofNat 52 mantissa).toNat = mantissa := by
    rw [BitVec.toNat_ofNat, Nat.mod_eq_of_lt hbits]
  have hsome : BitVec.ofNat 52 mantissa ≠ 0#52 := by
    rw [BitVec.toNat_ne, hfield]
    exact pos.ne'
  have hlog : mantissa.log2 < 52 := (Nat.log2_lt pos.ne').2 hbits
  have hshort : mantissa.log2 + 1 ≠ Format.binary64.mantissaBits := by
    show mantissa.log2 + 1 ≠ 1 + 52
    omega
  have htop : ¬(0#11 = -1#11) := by decide
  simp only [UnpackedFloat.pack]
  rw [if_neg (by decide), if_neg hshort]
  simp only [UnpackedFloat.unpack, unpackExponent_packComponents, unpackMantissa_packComponents,
    unpackSign_packComponents, if_neg htop, if_true, dif_neg hsome, ofBitVec_toBitVec, hfield]
  rfl

theorem unpack_pack_infinity (sign : Sign) : (Float.Model.pack (.infinity sign)).unpack = .infinity sign := by
  cases sign <;> rfl

theorem unpack_pack {u : UnpackedFloat} (h : IsCanonical u) : (Float.Model.pack u).unpack = settle u := by
  show UnpackedFloat.unpack .binary64 (UnpackedFloat.pack .binary64 u) = settle u
  cases u with
  | notANumber => exact unpack_packedNaN
  | zero sign => exact unpack_packedZero
  | infinity sign => exact unpack_pack_infinity sign
  | finite sign mantissa exponent pos =>
    obtain ⟨hbits, hmin, hfull⟩ := h
    rw [settle]
    split_ifs with hlarge
    · have hlong : 2 ^ Format.binary64.exponentBits ≤
          (exponent + Format.binary64.exponentBias + Format.binary64.mantissaBitsWithoutImplicit).toNat + 1 := by
        simp only [Format.exponentBias]
        omega
      simp only [UnpackedFloat.pack, if_pos hlong]
      exact unpack_pack_infinity sign
    · rcases Nat.lt_or_ge mantissa (2 ^ 52) with hsub | hnormal
      · obtain rfl : exponent = -1074 := hfull.resolve_left hsub.not_ge
        exact unpack_pack_subnormal hsub
      · exact unpack_pack_normal hnormal hbits hmin (not_lt.1 hlarge)

/-- what is unpacked is canonical, and not too large to be packed again -/
theorem unpack_canonical (b : BitVec Format.binary64.numBits) :
    IsCanonical (UnpackedFloat.unpack .binary64 b) ∧
      settle (UnpackedFloat.unpack .binary64 b) = UnpackedFloat.unpack .binary64 b := by
  fun_cases UnpackedFloat.unpack with
  | case1 => exact ⟨trivial, rfl⟩
  | case2 => exact ⟨trivial, rfl⟩
  | case3 => exact ⟨trivial, rfl⟩
  | case4 mantissa field exponent signField sign htop hbottom hsome =>
    have hexponent : exponent + 1 = -1074 := by
      have hfield : field.toNat = 0 := by rw [hbottom]; rfl
      simp only [exponent, hfield, Format.exponentBias]
      decide
    have hbits : mantissa.toNat < 2 ^ 52 := mantissa.isLt
    refine ⟨⟨by omega, by omega, Or.inr hexponent⟩, ?_⟩
    rw [settle, if_neg (by omega)]
  | case5 mantissa field exponent signField sign htop hbottom =>
    have hexponent : exponent = field.toNat - 1075 := by
      show (field.toNat : ℤ) - ((2 ^ 10 - 1 : ℕ) + (52 : ℕ)) = field.toNat - 1075
      norm_num
    have hleast : field.toNat ≠ 0 := fun h => hbottom (BitVec.eq_of_toNat_eq h)
    have hmost : field.toNat ≠ 2047 := fun h => htop (BitVec.eq_of_toNat_eq h)
    have hfield : field.toNat < 2048 := field.isLt
    have hmantissa : (1#1 ++ mantissa).toNat = 2 ^ 52 + mantissa.toNat := by
      rw [BitVec.toNat_append, ← Nat.shiftLeft_add_eq_or_of_lt mantissa.isLt]
      rfl
    have hbits : mantissa.toNat < 2 ^ 52 := mantissa.isLt
    refine ⟨⟨by omega, by omega, Or.inl (by omega)⟩, ?_⟩
    rw [settle, if_neg (by omega)]

/-- it is finite unless its exponent bits are all ones -/
theorem unpack_isFinite (b : BitVec Format.binary64.numBits) :
    (UnpackedFloat.unpack .binary64 b).isFinite = true ↔ (unpackExponent b).toNat ≠ 2047 := by
  have hones : ∀ field : BitVec 11, field = -1#11 ↔ field.toNat = 2047 := fun field =>
    ⟨fun h => by rw [h]; rfl, fun h => BitVec.eq_of_toNat_eq h⟩
  rw [ne_eq, ← hones (unpackExponent b)]
  unfold UnpackedFloat.unpack
  dsimp only
  split_ifs with htop
  all_goals first | exact iff_of_false Bool.false_ne_true (not_not_intro htop) | exact iff_of_true rfl htop

/-! ## Overflow -/

theorem magnitude_nonneg (u : UnpackedFloat) : 0 ≤ magnitude u := by
  unfold magnitude
  split
  · positivity
  · exact le_rfl

/-- canonical numbers below the first power of two that is too large can be packed -/
theorem settle_of_lt {u : UnpackedFloat} (h : IsCanonical u) (hlt : magnitude u < 2 ^ 1024) : settle u = u := by
  cases u with
  | finite sign mantissa exponent pos =>
    rw [settle, if_neg]
    intro hlarge
    have hfull : (2 ^ 52 : ℚ) ≤ mantissa := by exact_mod_cast h.2.2.resolve_right (by omega)
    refine absurd hlt (not_lt.2 ?_)
    calc (2 ^ 1024 : ℚ) = 2 ^ 52 * 2 ^ (972 : ℤ) := by rw [zpow_ofNat, ← pow_add]
      _ ≤ mantissa * 2 ^ exponent := by gcongr <;> norm_num; omega
  | _ => rfl

/-- and those that can be packed are below it -/
theorem magnitude_lt {u : UnpackedFloat} (h : IsCanonical u) (hsettle : settle u = u) : magnitude u < 2 ^ 1024 := by
  cases u with
  | finite sign mantissa exponent pos =>
    have hexponent : exponent ≤ 971 := by
      by_contra hlarge
      rw [settle, if_pos (by omega)] at hsettle
      cases hsettle
    have hbits : (mantissa : ℚ) < 2 ^ 53 := by exact_mod_cast h.1
    calc (mantissa * 2 ^ exponent : ℚ) < 2 ^ 53 * 2 ^ exponent := by gcongr
      _ ≤ 2 ^ 53 * 2 ^ (971 : ℤ) := by gcongr; norm_num
      _ = 2 ^ 1024 := by rw [zpow_ofNat, ← pow_add]
  | _ => norm_num [magnitude]

/-- a number of the grid that is not too large keeps what is rounded below it from being too large -/
theorem RoundsTo.unpack_pack {v b : ℚ} {u : UnpackedFloat} (h : RoundsTo v u) (hb : OnGrid b) (hv : v ≤ b)
    (hlt : b < 2 ^ 1024) : (Float.Model.pack u).unpack = u ∧ magnitude u ≤ b := by
  have hle := h.le hb hv
  exact ⟨(Number.unpack_pack h.canonical).trans (settle_of_lt h.canonical (hle.trans_lt hlt)), hle⟩

/-- an infinity, or a number of at least one -/
def ReachesOne (u : UnpackedFloat) : Prop := u.isInf = true ∨ 1 ≤ magnitude u

theorem RoundsTo.reachesOne {v : ℚ} {u : UnpackedFloat} (h : RoundsTo v u) (hv : 1 ≤ v) :
    ReachesOne (Float.Model.pack u).unpack := by
  have hone : 1 ≤ magnitude u := h.ge ⟨1, 0, by norm_num, by norm_num, by norm_num⟩ hv
  rw [Number.unpack_pack h.canonical]
  cases u with
  | finite sign mantissa exponent pos =>
    rw [settle]
    split_ifs
    · exact Or.inl rfl
    · exact Or.inr hone
  | _ => exact Or.inr hone

/-! ## Sums -/

theorem natAbs_apply_add (sign sign' : Sign) (a b : ℕ) : (sign.apply a + sign'.apply b).natAbs ≤ a + b := by
  cases sign <;> cases sign' <;> simp only [Sign.apply] <;> omega

/-- the sum of two finite numbers is rounded from one that is not larger than both together -/
theorem add_rounds {u w : UnpackedFloat} (hu : IsCanonical u) (hw : IsCanonical w) (hfu : u.isFinite = true)
    (hfw : w.isFinite = true) : ∃ v ≤ magnitude u + magnitude w, RoundsTo v (UnpackedFloat.add .binary64 u w) := by
  cases u with
  | notANumber => cases hfu
  | infinity sign => cases hfu
  | zero sign =>
    cases w with
    | notANumber => cases hfw
    | infinity sign' => cases hfw
    | zero sign' =>
      refine ⟨0, by simp [magnitude], ?_⟩
      simp only [UnpackedFloat.add]
      split_ifs
      · exact canonical_rounds (u := .zero sign) rfl trivial
      · exact canonical_rounds (u := .zero .positive) rfl trivial
    | finite sign' mantissa' exponent' pos' =>
      exact ⟨magnitude (.finite sign' mantissa' exponent' pos'), le_add_of_nonneg_left le_rfl, canonical_rounds hfw hw⟩
  | finite sign mantissa exponent pos =>
    cases w with
    | notANumber => cases hfw
    | infinity sign' => cases hfw
    | zero sign' => exact ⟨magnitude (.finite sign mantissa exponent pos), le_add_of_nonneg_right le_rfl, canonical_rounds hfu hu⟩
    | finite sign' mantissa' exponent' pos' =>
      refine ⟨_, ?_, normalize_rounds _ _ _⟩
      have hvalue := decreaseExponent_value mantissa exponent (min exponent exponent')
      have hvalue' := decreaseExponent_value mantissa' exponent' (min exponent exponent')
      have hexponent : (decreaseExponent mantissa exponent (min exponent exponent')).2 = min exponent exponent' := by
        simp only [decreaseExponent]
        omega
      have hexponent' : (decreaseExponent mantissa' exponent' (min exponent exponent')).2 = min exponent exponent' := by
        simp only [decreaseExponent]
        omega
      rw [hexponent] at hvalue
      rw [hexponent'] at hvalue'
      rw [magnitude, magnitude, ← hvalue, ← hvalue', ← add_mul]
      gcongr
      exact_mod_cast natAbs_apply_add sign sign' _ _

/-! ## Quotients -/

/-- as many bits of a quotient are reckoned as the format wants, or as many as there are -/
theorem divCore_target {mantissa mantissa' : ℕ} (h : mantissa ≠ 0) (h' : mantissa' ≠ 0) (exponent exponent' : ℤ) :
    (divCore .binary64 mantissa exponent mantissa' exponent').2.1 ≤
      max ((divCore .binary64 mantissa exponent mantissa' exponent').1.log2 +
        (divCore .binary64 mantissa exponent mantissa' exponent').2.1 - 52) (-1074) := by
  have htarget : Format.binary64.targetExponent (totalExponent mantissa exponent - totalExponent mantissa' exponent') =
      max (mantissa.log2 - mantissa'.log2 + (exponent - exponent') - 53) (-1074) := by
    simp only [Format.targetExponent, totalExponent, Format.mantissaBits, Format.minExponent]
    norm_num
    omega
  simp only [divCore, htarget]
  generalize htop : min (exponent - exponent')
    (max (mantissa.log2 - mantissa'.log2 + (exponent - exponent') - 53) (-1074)) = target
  obtain ⟨n, hn⟩ : ∃ n : ℕ, (exponent - exponent' - target).toNat = n := ⟨_, rfl⟩
  rw [hn]
  rcases le_or_gt target (-1074) with hle | hgt
  · exact hle.trans (le_max_right _ _)
  · -- the dividend has at least 53 bits more than the divisor
    have hbits : mantissa'.log2 + 53 ≤ (mantissa <<< n).log2 := by
      rw [log2_shiftLeft h]
      omega
    have hquotient : 2 ^ 52 ≤ mantissa <<< n / mantissa' := by
      rw [Nat.le_div_iff_mul_le (Nat.pos_of_ne_zero h')]
      calc 2 ^ 52 * mantissa' ≤ 2 ^ 52 * 2 ^ (mantissa'.log2 + 1) := Nat.mul_le_mul_left _ Nat.lt_log2_self.le
        _ = 2 ^ (mantissa'.log2 + 53) := by rw [← pow_add]; ring_nf
        _ ≤ 2 ^ (mantissa <<< n).log2 := Nat.pow_le_pow_right two_pos hbits
        _ ≤ mantissa <<< n := Nat.log2_self_le (by simp [Nat.shiftLeft_eq, h])
    have hlog : 52 ≤ (mantissa <<< n / mantissa').log2 := (Nat.le_log2 (by omega)).2 hquotient
    omega

theorem div_rounds (sign sign' : Sign) {mantissa mantissa' : ℕ} (pos : 0 < mantissa) (pos' : 0 < mantissa')
    (exponent exponent' : ℤ) :
    RoundsTo (mantissa * 2 ^ exponent / (mantissa' * 2 ^ exponent'))
      (UnpackedFloat.div .binary64 (.finite sign mantissa exponent pos) (.finite sign' mantissa' exponent' pos')) := by
  have htarget := divCore_target pos.ne' pos'.ne' exponent exponent'
  simp only [UnpackedFloat.div]
  have hvalue : (mantissa * 2 ^ exponent / (mantissa' * 2 ^ exponent') : ℚ) =
      ((mantissa <<< (exponent - exponent' - (divCore .binary64 mantissa exponent mantissa' exponent').2.1).toNat : ℕ) : ℚ) /
        mantissa' * 2 ^ (divCore .binary64 mantissa exponent mantissa' exponent').2.1 := by
    have hle : (divCore .binary64 mantissa exponent mantissa' exponent').2.1 ≤ exponent - exponent' := min_le_left _ _
    generalize (divCore .binary64 mantissa exponent mantissa' exponent').2.1 = target at hle
    obtain ⟨n, hn⟩ : ∃ n : ℕ, exponent = n + target + exponent' := ⟨(exponent - exponent' - target).toNat, by omega⟩
    have hshift : (exponent - exponent' - target).toNat = n := by omega
    rw [hshift, Nat.shiftLeft_eq, hn, zpow_add₀ two_ne_zero, zpow_add₀ two_ne_zero, zpow_natCast]
    push_cast
    field_simp
  rw [hvalue]
  exact roundWithAccuracy_rounds _ (near_quotient _ pos') htarget

theorem ReachesOne.cases {w : UnpackedFloat} (h : ReachesOne w) :
    (∃ sign, w = .infinity sign) ∨
      ∃ sign mantissa exponent pos, w = .finite sign mantissa exponent pos ∧ (1 : ℚ) ≤ mantissa * 2 ^ exponent := by
  cases w with
  | infinity sign => exact Or.inl ⟨sign, rfl⟩
  | finite sign mantissa exponent pos =>
    exact Or.inr ⟨sign, mantissa, exponent, pos, rfl, h.resolve_left Bool.false_ne_true⟩
  | _ => exact absurd (h.resolve_left Bool.false_ne_true) (by norm_num [magnitude])

/-- dividing by at least one makes no number infinite and no infinity finite -/
theorem unpack_div_isFinite {u w : UnpackedFloat} (hu : IsCanonical u) (hsettle : settle u = u) (hw : ReachesOne w) :
    (Float.Model.pack (UnpackedFloat.div .binary64 u w)).unpack.isFinite = u.isFinite := by
  have plain : ∀ r, IsCanonical r → settle r = r → r.isFinite = u.isFinite →
      (Float.Model.pack r).unpack.isFinite = u.isFinite := by
    intro r hr hs hf
    rw [Number.unpack_pack hr, hs, hf]
  rcases hw.cases with ⟨sign', rfl⟩ | ⟨sign', mantissa', exponent', pos', rfl, hone⟩
  · cases u with
    | notANumber => exact plain .notANumber trivial rfl rfl
    | infinity sign => exact plain .notANumber trivial rfl rfl
    | zero sign => exact plain (.zero (sign / sign')) trivial rfl rfl
    | finite sign mantissa exponent pos => exact plain (.zero (sign / sign')) trivial rfl rfl
  · cases u with
    | notANumber => exact plain .notANumber trivial rfl rfl
    | infinity sign => exact plain (.infinity (sign / sign')) trivial rfl rfl
    | zero sign => exact plain (.zero (sign / sign')) trivial rfl rfl
    | finite sign mantissa exponent pos =>
      have hrounds := div_rounds sign sign' pos pos' exponent exponent'
      have hless : (mantissa * 2 ^ exponent / (mantissa' * 2 ^ exponent') : ℚ) ≤
          magnitude (.finite sign mantissa exponent pos) :=
        div_le_self (magnitude_nonneg (.finite sign mantissa exponent pos)) hone
      rw [(hrounds.unpack_pack (onGrid_magnitude hu) hless (magnitude_lt hu hsettle)).1]
      exact hrounds.finite

/-! ## Floating-point numbers -/

/-- the absolute value of a number -/
def size (x : Float) : ℚ := magnitude x.toModel.unpack

theorem canonical_toModel (x : Float) : IsCanonical x.toModel.unpack ∧ settle x.toModel.unpack = x.toModel.unpack :=
  unpack_canonical _

/-- bits are those of a finite number unless the exponent bits are all ones -/
theorem isFinite_ofBits (bits : UInt64) :
    (Float.ofBits bits).isFinite = true ↔ (@unpackExponent .binary64 bits.toBitVec).toNat ≠ 2047 := by
  have hcanonical := unpack_canonical bits.toBitVec
  have hunpack : (Float.ofBits bits).toModel.unpack = UnpackedFloat.unpack .binary64 bits.toBitVec :=
    (unpack_pack hcanonical.1).trans hcanonical.2
  rw [← unpack_isFinite bits.toBitVec, ← hunpack]
  rfl

theorem isFinite_add {x y : Float} (hx : x.isFinite = true) (hy : y.isFinite = true) {b : ℚ} (hb : OnGrid b)
    (hlt : b < 2 ^ 1024) (hle : size x + size y ≤ b) : (x + y).isFinite = true ∧ size (x + y) ≤ b := by
  obtain ⟨v, hv, hrounds⟩ := add_rounds (canonical_toModel x).1 (canonical_toModel y).1 hx hy
  obtain ⟨hsum, hsize⟩ := hrounds.unpack_pack hb (hv.trans hle) hlt
  have hunpack : (x + y).toModel.unpack = UnpackedFloat.add .binary64 x.toModel.unpack y.toModel.unpack := hsum
  constructor
  · show (x + y).toModel.unpack.isFinite = true
    rw [hunpack]
    exact hrounds.finite
  · rw [size, hunpack]
    exact hsize

theorem isFinite_div {x y : Float} (hy : ReachesOne y.toModel.unpack) : (x / y).isFinite = x.isFinite :=
  unpack_div_isFinite (canonical_toModel x).1 (canonical_toModel x).2 hy

/-- a number that is multiplied by one is rounded to itself, its exponent being high enough -/
theorem mul_rounds (sign sign' : Sign) {mantissa mantissa' : ℕ} (pos : 0 < mantissa) (pos' : 0 < mantissa')
    {exponent exponent' : ℤ}
    (htarget : exponent + exponent' ≤ max ((mantissa * mantissa').log2 + (exponent + exponent') - 52) (-1074)) :
    RoundsTo (mantissa * 2 ^ exponent * (mantissa' * 2 ^ exponent'))
      (UnpackedFloat.mul .binary64 (.finite sign mantissa exponent pos) (.finite sign' mantissa' exponent' pos')) := by
  have hrounds := roundWithAccuracy_rounds (sign * sign') (near_exact (mantissa * mantissa')) htarget
  have hvalue : (mantissa * 2 ^ exponent * (mantissa' * 2 ^ exponent') : ℚ) =
      (mantissa * mantissa' : ℕ) * 2 ^ (exponent + exponent') := by
    rw [zpow_add₀ two_ne_zero]
    push_cast
    ring
  rw [hvalue]
  exact hrounds

/-- the number one, which powers of ten begin with -/
theorem unpack_one :
    (Float.ofBits 0x3ff0000000000000).toModel.unpack = .finite .positive (2 ^ 52) (-52) (by norm_num) := by
  rfl

theorem reachesOne_mul_one {u : UnpackedFloat} (hu : IsCanonical u) (h : ReachesOne u) :
    ReachesOne (Float.Model.pack (UnpackedFloat.mul .binary64 u (.finite .positive (2 ^ 52) (-52) (by norm_num)))).unpack := by
  rcases h.cases with ⟨sign, rfl⟩ | ⟨sign, mantissa, exponent, pos, rfl, hone⟩
  · simp only [UnpackedFloat.mul]
    rw [unpack_pack_infinity]
    exact Or.inl rfl
  · obtain ⟨-, -, hfull⟩ := hu
    have hlog : (mantissa * 2 ^ 52).log2 = mantissa.log2 + 52 := by
      rw [← Nat.shiftLeft_eq, log2_shiftLeft pos.ne']
    have htarget : exponent + -52 ≤ max ((mantissa * 2 ^ 52).log2 + (exponent + -52) - 52) (-1074) := by
      rw [hlog]
      rcases hfull with hfull | hmin
      · have : 52 ≤ mantissa.log2 := (Nat.le_log2 pos.ne').2 hfull
        omega
      · omega
    refine (mul_rounds sign .positive pos (by norm_num) htarget).reachesOne ?_
    have hunit : (((2 ^ 52 : ℕ) : ℚ) * 2 ^ (-52 : ℤ)) = 1 := by norm_num
    rw [hunit, mul_one]
    exact hone

/-- a whole number but zero is at least one, however it is rounded -/
theorem reachesOne_ofNat {n : ℕ} (h : n ≠ 0) : ReachesOne (Float.ofNat n).toModel.unpack := by
  have hle : (1 : ℚ) ≤ n := by exact_mod_cast Nat.one_le_iff_ne_zero.2 h
  by_cases hsmall : n < 2 ^ 53
  · have hfast : Float.ofNat n = n.toUInt64.toFloat * Float.ofBits 0x3ff0000000000000 := by
      show Float.ofScientific n false 0 = _
      unfold Float.ofScientific
      rw [dif_pos ⟨hsmall, by norm_num⟩]
      rfl
    have hinteger : ReachesOne n.toUInt64.toFloat.toModel.unpack := by
      have hword : n.toUInt64.toNat = n := by simp; omega
      have hrounds := normalize_rounds n 0 .positive
      show ReachesOne (Float.Model.pack (UnpackedFloat.ofNat .binary64 n.toUInt64.toNat)).unpack
      rw [hword]
      exact hrounds.reachesOne (by simpa using hle)
    have hproduct := reachesOne_mul_one (canonical_toModel n.toUInt64.toFloat).1 hinteger
    rw [← unpack_one] at hproduct
    rw [hfast]
    exact hproduct
  · have hslow : Float.ofNat n = Float.ofModel (Float.Model.ofScientific n 0) := by
      show Float.ofScientific n false 0 = _
      unfold Float.ofScientific
      rw [dif_neg (fun h => hsmall h.1)]
      rfl
    have hpos : 0 < n <<< 53 := by simpa [Nat.pos_iff_ne_zero]
    have hmodel : Float.Model.ofScientific n 0 = Float.Model.pack
        (UnpackedFloat.mul .binary64 (.finite .positive (n <<< 53) (-53) hpos) (.finite .positive 1 0 Nat.one_pos)) := by
      unfold Float.Model.ofScientific UnpackedFloat.ofScientific
      rw [dif_neg h, if_neg (by norm_num), if_neg (by norm_num), if_pos le_rfl]
      rfl
    have htarget : (-53 : ℤ) + (0 : ℤ) ≤ max ((n <<< 53 * 1).log2 + ((-53 : ℤ) + (0 : ℤ)) - 52) (-1074) := by
      rw [mul_one, log2_shiftLeft h]
      omega
    have hrounds := mul_rounds .positive .positive hpos Nat.one_pos htarget
    have hunit : ((n <<< 53 : ℕ) * 2 ^ (-53 : ℤ) * ((1 : ℕ) * 2 ^ (0 : ℤ)) : ℚ) = n := by
      rw [Nat.shiftLeft_eq, Nat.cast_mul, mul_assoc (n : ℚ)]
      norm_num
    rw [hunit] at hrounds
    rw [hslow, hmodel]
    exact hrounds.reachesOne hle

end SensorNode.Number
