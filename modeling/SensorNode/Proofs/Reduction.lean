/-
What a reduction owes to the order of its samples. Whether there is a reading does not depend on it, and neither does the
median, bit for bit, since the total order of samples leaves no ties (`medianOf_perm`). The least and the greatest sample
are found by comparing numbers, and there the first of several zeros wins: they agree but for the sign of a zero
(`extreme_perm`). A mean is summed up in the order of its samples, and rounded on the way.
-/
import SensorNode.Proofs.Numbers
import SensorNode.Reduction

namespace SensorNode.Reduction

open Number

variable {samples samples' : List Sample}

theorem isSome_reduce_perm (policy : Reduction) (h : samples.Perm samples') :
    (policy.reduce samples).isSome = (policy.reduce samples').isSome := by
  unfold reduce
  rw [h.isEmpty_eq]
  split_ifs <;> rfl

/-! ## The median -/

theorem mergeSort_perm_eq (h : samples.Perm samples') : samples.mergeSort Sample.le = samples'.mergeSort Sample.le := by
  have htrans : ∀ a b c : Sample, a.le b = true → b.le c = true → a.le c = true := by
    simp only [Sample.le, decide_eq_true_eq]
    exact fun a b c => le_trans
  have htotal : ∀ a b : Sample, (a.le b || b.le a) = true := by
    simp only [Sample.le, Bool.or_eq_true, decide_eq_true_eq]
    exact fun a b => le_total a.rank b.rank
  refine List.Perm.eq_of_pairwise (fun a b _ _ hab hba => ?_) (List.pairwise_mergeSort htrans htotal samples)
    (List.pairwise_mergeSort htrans htotal samples') ?_
  · exact Sample.rank_injective a b (le_antisymm (of_decide_eq_true hab) (of_decide_eq_true hba))
  · exact (List.mergeSort_perm samples _).trans (h.trans (List.mergeSort_perm samples' _).symm)

theorem medianOf_perm (h : samples.Perm samples') : medianOf samples = medianOf samples' := by
  unfold medianOf
  rw [mergeSort_perm_eq h]

theorem reduce_median_perm (h : samples.Perm samples') :
    Reduction.median.reduce samples = Reduction.median.reduce samples' := by
  unfold reduce
  rw [h.isEmpty_eq, medianOf_perm h]

/-! ## The least and the greatest -/

/-- a number stays unless another takes its place -/
theorem placeOf_choose {x y : Float} {p : Place} {best : Place → Place → Place} {takes : Prop} [Decidable takes]
    (hx : placeOf x = some p) (hnone : placeOf y = none → ¬takes)
    (hsome : ∀ q, placeOf y = some q → (takes → best p q = q) ∧ (¬takes → best p q = p)) :
    placeOf (if x.isNaN then y else if takes then y else x) = some ((placeOf y).elim p (best p)) := by
  have hnumber : ¬x.isNaN = true := fun h => by cases hx.symm.trans ((isNaN_iff x).1 h)
  rw [if_neg hnumber]
  cases hy : placeOf y with
  | none =>
    rw [if_neg (hnone hy)]
    exact hx
  | some q =>
    obtain ⟨htakes, hstays⟩ := hsome q hy
    rw [Option.elim_some]
    split_ifs with h
    · rw [hy, htakes h]
    · rw [hx, hstays h]

theorem placeOf_lesser {x : Float} {p : Place} (hx : placeOf x = some p) (y : Float) :
    placeOf (lesser x y) = some ((placeOf y).elim p (Min.min p)) := by
  refine placeOf_choose hx (fun hy => by simp [lt_iff, hy]) fun q hy => ?_
  rw [lt_iff_of_placeOf hy hx]
  exact ⟨fun h => min_eq_right h.le, fun h => min_eq_left (not_lt.1 h)⟩

theorem placeOf_greater {x : Float} {p : Place} (hx : placeOf x = some p) (y : Float) :
    placeOf (greater x y) = some ((placeOf y).elim p (Max.max p)) := by
  refine placeOf_choose hx (fun hy => by simp [lt_iff, hy]) fun q hy => ?_
  rw [lt_iff_of_placeOf hx hy]
  exact ⟨fun h => max_eq_right h.le, fun h => max_eq_left (not_lt.1 h)⟩

section

variable {choose : Float → Float → Float} {best : Place → Place → Place}

/-- a number is chosen by its place -/
theorem foldl_placeOf
    (hchoose : ∀ {x p}, placeOf x = some p → ∀ y, placeOf (choose x y) = some ((placeOf y).elim p (best p)))
    (samples : List Sample) {x : Float} {p : Place} (hx : placeOf x = some p) :
    placeOf (samples.foldl (fun x s => choose x s.value) x) =
      some ((samples.filterMap fun s => placeOf s.value).foldl best p) := by
  induction samples generalizing x p with
  | nil => exact hx
  | cons s samples ih =>
    rw [List.foldl_cons, ih (hchoose hx s.value), List.filterMap_cons]
    cases placeOf s.value <;> rfl

/-- the place that is chosen does not depend on the order of the samples -/
theorem foldl_agree [RightCommutative best]
    (hchoose : ∀ {x p}, placeOf x = some p → ∀ y, placeOf (choose x y) = some ((placeOf y).elim p (best p)))
    (h : samples.Perm samples') {x : Float} {p : Place} (hx : placeOf x = some p) :
    Agree (samples.foldl (fun x s => choose x s.value) x) (samples'.foldl (fun x s => choose x s.value) x) := by
  have hplace := foldl_placeOf hchoose samples hx
  refine agree_of_placeOf ?_ (by rw [hplace]; exact Option.some_ne_none _)
  rw [hplace, foldl_placeOf hchoose samples' hx, (h.filterMap _).foldl_eq p]

end

theorem minOf_perm (h : samples.Perm samples') : Agree (minOf samples) (minOf samples') :=
  foldl_agree placeOf_lesser h (p := toLex (2, toLex (0, 0))) (by decide +kernel)

theorem maxOf_perm (h : samples.Perm samples') : Agree (maxOf samples) (maxOf samples') :=
  foldl_agree placeOf_greater h (p := toLex (-2, toLex (0, 0))) (by decide +kernel)

theorem extreme_perm {policy : Reduction} (hpolicy : policy = .min ∨ policy = .max) (h : samples.Perm samples')
    {x x' : Float} (hx : policy.reduce samples = some x) (hx' : policy.reduce samples' = some x') : Agree x x' := by
  unfold reduce at hx hx'
  split_ifs at hx hx'
  obtain rfl := Option.some.inj hx
  obtain rfl := Option.some.inj hx'
  rcases hpolicy with rfl | rfl
  · exact minOf_perm h
  · exact maxOf_perm h

end SensorNode.Reduction
