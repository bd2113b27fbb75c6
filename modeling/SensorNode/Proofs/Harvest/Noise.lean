/-
The noise of the mock of debug environments. Settings are accepted with every finite amplitude, but noise is drawn from a
range that is twice as wide, and the width is divided by the greatest draw there is, which is less than one. So the range
overflows from an amplitude on that is a little less than half the greatest number (`noiseOverflows_iff`). Below that every
harvest of the mock comes to its end and writes what is within the amplitude of its values; from there on every harvest
breaks off at its first draw (`debug_harvest`).
-/
import SensorNode.Proofs.Harvest.Arrival
import SensorNode.Proofs.Harvest.Finiteness
import SensorNode.Proofs.Values
import SensorNode.Settings.Basic

namespace SensorNode

open Number Float.Model UnpackedFloat

/-! ## The range of the noise -/

theorem Sample.value_ofFloat (x : Float) : (Sample.ofFloat x).value = x := Float.ofBits_toBits x

namespace Number

/-- this many units in the last place of the greatest numbers; those are fewer than 2^53 -/
def topUnits (n : ℕ) : ℚ := n * 2 ^ 971

theorem topUnits_limit : topUnits (2 ^ 53) = 2 ^ 1024 := by
  rw [topUnits, Nat.cast_pow, Nat.cast_ofNat, ← pow_add]

theorem topUnits_le_iff {n n' : ℕ} : topUnits n ≤ topUnits n' ↔ n ≤ n' := by
  rw [topUnits, topUnits, mul_le_mul_iff_left₀ (by positivity), Nat.cast_le]

theorem topUnits_lt_limit {n : ℕ} (h : n < 2 ^ 53) : topUnits n < 2 ^ 1024 := by
  rw [← topUnits_limit, ← not_le, topUnits_le_iff, not_le]
  exact h

theorem onGrid_topUnits {n : ℕ} (h : n < 2 ^ 53) : OnGrid (topUnits n) :=
  ⟨n, 971, h, by norm_num, by rw [topUnits, zpow_ofNat]⟩

theorem onGrid_limit : OnGrid (2 ^ 1024) :=
  ⟨2 ^ 52, 972, by norm_num, by norm_num, by rw [zpow_ofNat, Nat.cast_pow, Nat.cast_ofNat, ← pow_add]⟩

/-- what is rounded from no more than the greatest number is packed as it is -/
theorem RoundsTo.settle_eq {v : ℚ} {u : UnpackedFloat} (h : RoundsTo v u) {n : ℕ} (hn : n < 2 ^ 53)
    (hv : v ≤ topUnits n) : settle u = u :=
  settle_of_lt h.canonical ((h.le (onGrid_topUnits hn) hv).trans_lt (topUnits_lt_limit hn))

/-- what is rounded from the next power of two or more is packed as an infinity -/
theorem RoundsTo.settle_infinite {v : ℚ} {u : UnpackedFloat} (h : RoundsTo v u) (hv : 2 ^ 1024 ≤ v) :
    (settle u).isFinite = false := by
  rw [Bool.eq_false_iff]
  intro hfinite
  exact absurd (magnitude_lt h.canonical (settle_of_isFinite hfinite)) (not_lt.2 (h.ge onGrid_limit hv))

/-- twice a number, as the width of the range to it from its opposite -/
theorem width_rounds {mantissa : ℕ} (pos : 0 < mantissa) (exponent : ℤ) :
    RoundsTo (2 * (mantissa * 2 ^ exponent))
      (UnpackedFloat.sub .binary64 (.finite .positive mantissa exponent pos) (.finite .negative mantissa exponent pos)) := by
  have hrounds := normalize_rounds (mantissa - -mantissa : ℤ) exponent .positive
  have hdouble : ((mantissa - -mantissa : ℤ).natAbs : ℚ) = 2 * mantissa := by
    have : (mantissa - -mantissa : ℤ).natAbs = 2 * mantissa := by omega
    rw [this]
    push_cast
    ring
  rw [hdouble, mul_assoc] at hrounds
  have hsame : (decreaseExponent mantissa exponent (min exponent exponent)).1 = mantissa := by
    simp [decreaseExponent]
  simp only [UnpackedFloat.sub, hsame, Sign.apply]
  rw [min_self]
  exact hrounds

/-- the greatest draw before it is scaled, a little less than one -/
def largestDraw : UnpackedFloat := .finite .positive (2 ^ 53 - 2) (-53) (by norm_num)

/-- divided by it, the greatest number but two does not pass the greatest, and the greatest but one does -/
theorem topUnits_div_largestDraw :
    topUnits (2 ^ 53 - 3) / magnitude largestDraw ≤ topUnits (2 ^ 53 - 1) ∧
      topUnits (2 ^ 53 - 2) / magnitude largestDraw = 2 ^ 1024 := by
  have hpower : (0 : ℚ) < 2 ^ 971 := by positivity
  have hdraw : magnitude largestDraw = (2 ^ 53 - 2) / 2 ^ 53 := by
    rw [largestDraw, magnitude]
    norm_num
  rw [hdraw, ← topUnits_limit]
  unfold topUnits
  constructor
  · rw [div_le_iff₀ (by norm_num), mul_right_comm]
    gcongr
    norm_num
  · have hunits : ((2 ^ 53 - 2 : ℕ) : ℚ) = (2 ^ 53 : ℕ) * ((2 ^ 53 - 2) / 2 ^ 53) := by norm_num
    rw [div_eq_iff (by norm_num), mul_right_comm, hunits]

/-- The width of a range is divided by the greatest draw. That makes an infinity of the two greatest numbers, and leaves
those before them finite. -/
theorem div_largestDraw_isFinite {v : ℚ} {w : UnpackedFloat} (h : RoundsTo v w) :
    let quotient := (Float.Model.pack (UnpackedFloat.div .binary64 (settle w) largestDraw)).unpack
    (v ≤ topUnits (2 ^ 53 - 3) → quotient.isFinite = true) ∧ (topUnits (2 ^ 53 - 2) ≤ v → quotient.isFinite = false) := by
  intro quotient
  have hdraw : 0 < magnitude largestDraw := by
    rw [largestDraw, magnitude]
    norm_num
  cases w with
  | notANumber => cases h.finite
  | infinity sign => cases h.finite
  | zero sign =>
    have hzero : UnpackedFloat.div .binary64 (settle (.zero sign)) largestDraw = .zero (sign / .positive) := rfl
    refine ⟨fun _ => ?_, fun hv => absurd (h.ge (onGrid_topUnits (by norm_num)) hv) (not_le.2 ?_)⟩
    · simp only [quotient]
      rw [hzero, unpack_pack (u := .zero (sign / .positive)) trivial]
      rfl
    · exact mul_pos (by norm_num) (by positivity)
  | finite sign mantissa exponent pos =>
    have hquotient : RoundsTo (magnitude (.finite sign mantissa exponent pos) / magnitude largestDraw)
        (UnpackedFloat.div .binary64 (.finite sign mantissa exponent pos) largestDraw) :=
      div_rounds sign .positive pos (by norm_num) exponent (-53)
    refine ⟨fun hv => ?_, fun hv => ?_⟩
    · have hsize := h.le (onGrid_topUnits (by norm_num)) hv
      have hless := (div_le_div_of_nonneg_right hsize hdraw.le).trans topUnits_div_largestDraw.1
      simp only [quotient]
      rw [h.settle_eq (by norm_num) hv, unpack_pack hquotient.canonical, hquotient.settle_eq (by norm_num) hless]
      exact hquotient.finite
    · -- the width itself may overflow already
      have hinfinite : UnpackedFloat.div .binary64 (.infinity sign) largestDraw = .infinity (sign / .positive) := rfl
      simp only [quotient]
      rw [settle]
      split_ifs
      · rw [hinfinite, unpack_pack_infinity]
        rfl
      · have hsize := h.ge (onGrid_topUnits (by norm_num)) hv
        have hgreater := topUnits_div_largestDraw.2.ge.trans (div_le_div_of_nonneg_right hsize hdraw.le)
        rw [unpack_pack hquotient.canonical]
        exact hquotient.settle_infinite hgreater

/-- numbers with 53 bits are whole multiples of the power of two that the last of them stands for, or greater -/
theorem Digits.next {mantissa : ℕ} {exponent : ℤ} (h : Digits mantissa exponent) {n : ℕ} (hn : 2 ^ 52 ≤ n) {k : ℤ}
    (hlt : (n * 2 ^ k : ℚ) < mantissa * 2 ^ exponent) : ((n + 1 : ℕ) * 2 ^ k : ℚ) ≤ mantissa * 2 ^ exponent := by
  have hpower : (0 : ℚ) < 2 ^ k := by positivity
  rcases le_or_gt k exponent with hexponent | hexponent
  · rw [grid_eq mantissa hexponent] at hlt ⊢
    have hless : n < mantissa * 2 ^ (exponent - k).toNat := by exact_mod_cast lt_of_mul_lt_mul_right hlt hpower.le
    gcongr
    exact hless
  · -- with a smaller exponent 53 bits do not reach as far as that
    have hfull : (2 ^ 52 : ℚ) ≤ n := by exact_mod_cast hn
    have hless := (grid_lt h.bits hexponent).trans_le (mul_le_mul_of_nonneg_right hfull hpower.le)
    exact absurd hlt hless.not_gt

end Number

namespace Instrument

/-- the greatest amplitude whose range is not too wide -/
def widestNoise : Float := Float.ofBits 0x7fdffffffffffffd

theorem unpack_widestNoise :
    widestNoise.toModel.unpack = .finite .positive (2 ^ 53 - 3) 970 (by norm_num) := by
  rfl

theorem value_widestNoise : value widestNoise = (2 ^ 53 - 3 : ℕ) * 2 ^ (970 : ℤ) := by
  rw [value, unpack_widestNoise, signed, Sign.apply]
  norm_num

theorem two_mul_unit (n : ℕ) : 2 * (n * 2 ^ (970 : ℤ)) = topUnits n := by
  rw [topUnits, ← zpow_natCast, mul_left_comm, ← zpow_one_add₀ two_ne_zero]
  norm_num

/-- the width of the range of a positive number is divided without overflow exactly if the number is at most the widest -/
theorem width_isFinite_iff {mantissa : ℕ} {exponent : ℤ} (h : Digits mantissa exponent) :
    (Float.Model.pack (UnpackedFloat.div .binary64 (Float.Model.pack (UnpackedFloat.sub .binary64
        (.finite .positive mantissa exponent h.pos) (.finite .negative mantissa exponent h.pos))).unpack
      largestDraw)).unpack.isFinite = true ↔ (mantissa * 2 ^ exponent : ℚ) ≤ (2 ^ 53 - 3 : ℕ) * 2 ^ (970 : ℤ) := by
  have hrounds := width_rounds h.pos exponent
  obtain ⟨hnarrow, hwide⟩ := div_largestDraw_isFinite hrounds
  rw [unpack_pack hrounds.canonical]
  refine ⟨fun hfinite => ?_, fun hle => hnarrow ?_⟩
  · by_contra hgt
    have hnext : ((2 ^ 53 - 2 : ℕ) * 2 ^ (970 : ℤ) : ℚ) ≤ mantissa * 2 ^ exponent := h.next (by norm_num) (not_le.1 hgt)
    have hdouble : topUnits (2 ^ 53 - 2) ≤ 2 * (mantissa * 2 ^ exponent : ℚ) := by
      rw [← two_mul_unit]
      linarith
    exact Bool.false_ne_true ((hwide hdouble).symm.trans hfinite)
  · rw [← two_mul_unit]
    linarith

/-- **Width of the noise.** The range of a finite amplitude is too wide exactly if it is greater than the widest. -/
theorem noiseOverflows_iff {x : Float} (hx : x.isFinite = true) (h : 0 ≤ value x) :
    noiseOverflows x = true ↔ ¬x ≤ widestNoise := by
  have hwidest : widestNoise.isFinite = true := by decide +kernel
  have hcanonical := (canonical_toModel x).1
  have hunpack : ((x - -x) / Float.ofBits 0x3feffffffffffffe).isFinite =
      (Float.Model.pack (UnpackedFloat.div .binary64 (Float.Model.pack (UnpackedFloat.sub .binary64 x.toModel.unpack
        x.toModel.unpack.neg)).unpack largestDraw)).unpack.isFinite := by
    rw [← unpack_neg]
    rfl
  rw [noiseOverflows, Bool.not_eq_true', ← Bool.not_eq_true, hunpack, le_iff_value hx hwidest, value_widestNoise,
    not_iff_not]
  rw [value] at h ⊢
  have hfinite : x.toModel.unpack.isFinite = true := hx
  generalize x.toModel.unpack = u at hcanonical hfinite h
  cases u with
  | notANumber => cases hfinite
  | infinity sign => cases hfinite
  | zero sign =>
    refine iff_of_true ?_ ?_
    · cases sign <;> decide +kernel
    · show (0 : ℚ) ≤ _
      positivity
  | finite sign mantissa exponent pos =>
    have hdigits := digits_of_canonical hcanonical
    cases sign with
    | negative =>
      simp only [signed, Sign.apply, Int.cast_neg, Int.cast_natCast, neg_mul] at h
      exact absurd h (by linarith [hdigits.value_pos])
    | positive =>
      simp only [signed, Sign.apply, Int.cast_natCast]
      exact width_isFinite_iff hdigits

/-- draws from the range from the opposite of an amplitude to the amplitude itself -/
def DrawnWithin (amplitude : Float) (draws : Metric → Float) : Prop :=
  ∀ m, -amplitude ≤ draws m ∧ draws m ≤ amplitude

/-- what is written of a value -/
def noisySample (jitter : Float) (noise : Metric → Float) (e : Metric × Float) : Sample :=
  Sample.ofFloat (e.2 + if isNoisy jitter then noise e.1 else 0.0)

/-- what a harvest of fixed values writes, if noise does not break it off -/
def fixedWrites (values : Keyed Metric Float) (jitter : Float) (noise : Metric → Float) : List (Metric × Sample) :=
  (values.entries.mergeSort fun a b => Metric.le a.1 b.1).map fun e => (e.1, noisySample jitter noise e)

variable {values : Keyed Metric Float} {jitter : Float} {noise : Metric → Float}

theorem fixedSteps_eq_writes (h : (isNoisy jitter && noiseOverflows jitter) = false) :
    fixedSteps values jitter noise = (fixedWrites values jitter noise).map fun w => .write w.1 w.2 := by
  rw [fixedSteps, fixedWrites, h, List.map_map]
  rfl

theorem fixedSteps_eq_die (hwide : (isNoisy jitter && noiseOverflows jitter) = true) (hne : values.entries ≠ []) :
    fixedSteps values jitter noise = [.die] := by
  have hsorted : (values.entries.mergeSort fun a b => Metric.le a.1 b.1).isEmpty = false := by
    rw [List.isEmpty_eq_false_iff, ← List.length_pos_iff, List.length_mergeSort]
    exact List.length_pos_iff.2 hne
  simp only [fixedSteps, hwide, hsorted]
  rfl

/-- each metric is written once -/
theorem nodup_fixedWrites : ((fixedWrites values jitter noise).map Prod.fst).Nodup := by
  rw [fixedWrites, List.map_map]
  exact (((List.mergeSort_perm values.entries _).map Prod.fst).nodup_iff).2 values.distinct

theorem mem_fixedWrites {w : Metric × Sample} : w ∈ fixedWrites values jitter noise ↔
    ∃ e ∈ values.entries, w = (e.1, noisySample jitter noise e) := by
  rw [fixedWrites, List.mem_map]
  refine exists_congr fun e => ?_
  rw [List.mem_mergeSort, eq_comm]

end Instrument

/-! ## Writes and nothing else -/

namespace Cycle

/-- a harvest that writes and returns -/
def writing (n : Nat) (writes : List (Metric × Sample)) : List (Nat × Event) :=
  writes.map (fun w => (n, .write w.1 w.2)) ++ [(n, .returned)]

theorem play_writes (now n : Nat) (writes : List (Metric × Sample)) (c : Cycle) :
    Player.play now n (writes.map fun w => .write w.1 w.2) c = (c.run (writing n writes), .over) := by
  induction writes generalizing c with
  | nil => rfl
  | cons w writes ih => exact ih _

variable {c : Cycle} {n : Nat} {source : String} {writes : List (Metric × Sample)}

/-- a harvest that breaks off at once leaves the pipe as it was -/
theorem play_die (now : Nat) (h : c.seats[n]? = some ⟨source, .harvesting⟩) :
    let c' := (Player.play now n [.die] c).1
    c'.seats[n]? = some ⟨source, .died⟩ ∧ c'.pipe = c.pipe := by
  intro c'
  have hdied : c' = c.apply n .died := rfl
  rw [hdied, apply_seats c n .died source h]
  exact ⟨List.getElem?_set_self (List.getElem?_eq_some_iff.1 h).1, apply_pipe c n .died source h⟩

theorem ready_writing (h : c.seats[n]? = some ⟨source, .harvesting⟩) :
    Ready (c.seats.map Seat.source) c (writing n writes) where
  sources := rfl
  harvesting := by
    intro x hx
    refine ⟨source, ?_⟩
    rcases List.mem_append.1 hx with hx | hx
    · obtain ⟨w, -, rfl⟩ := List.mem_map.1 hx
      exact h
    · rw [List.mem_singleton.1 hx]
      exact h
  ends := by
    refine List.pairwise_append.2 ⟨List.pairwise_map.2 ?_, List.pairwise_singleton _ _, fun x hx y _ hend => ?_⟩
    · exact List.pairwise_of_forall fun w w' hend => absurd hend (by simp [Event.end?])
    · obtain ⟨w, -, rfl⟩ := List.mem_map.1 hx
      exact absurd hend (by simp [Event.end?])

theorem writing_find? (h : c.seats[n]? = some ⟨source, .harvesting⟩) (m : Metric) :
    (c.run (writing n writes)).pipe.queues.find? m =
      (c.pipe.queues.find? m).map (· ++ (writes.filterMap (sampleOf m)).map (ReadingResult.mk source)) := by
  have hsource : (c.seats.map Seat.source)[n]? = some source := by
    rw [List.getElem?_map, h]
    rfl
  have hresults : results (c.seats.map Seat.source) m (writing n writes) =
      (writes.filterMap (sampleOf m)).map (ReadingResult.mk source) := by
    rw [results, writing, List.filterMap_append, List.filterMap_map, List.map_filterMap,
      List.filterMap_cons_none (by rw [hsource]; rfl), List.filterMap_nil, List.append_nil]
    refine List.filterMap_congr fun w _ => ?_
    rw [Function.comp_apply, hsource, Option.bind_some]
    rfl
  rw [run_find? (ready_writing h), hresults]

theorem writing_errors (h : c.seats[n]? = some ⟨source, .harvesting⟩) (hfinite : ∀ w ∈ writes, w.2.isFinite = true) :
    (c.run (writing n writes)).pipe.errors = c.pipe.errors := by
  rw [run_errors (ready_writing h) c.pipe.queues.keys fun m => Keyed.contains_iff _ m,
    List.filterMap_eq_nil_iff.2 fun x hx => ?_, List.append_nil]
  rcases List.mem_append.1 hx with hx | hx
  · obtain ⟨w, hw, rfl⟩ := List.mem_map.1 hx
    simp [Event.error?, hfinite w hw]
  · rw [List.mem_singleton.1 hx]
    simp [Event.error?]

theorem writing_returned (h : c.seats[n]? = some ⟨source, .harvesting⟩) :
    (c.run (writing n writes)).seats[n]? = some ⟨source, .returned⟩ :=
  (run_ended (ready_writing h) n source .returned (by decide)).2
    (Or.inr ⟨h, (n, .returned), by simp [writing], rfl, rfl⟩)

theorem filterMap_sampleOf_eq_nil {m : Metric} (hm : m ∉ writes.map Prod.fst) : writes.filterMap (sampleOf m) = [] :=
  List.filterMap_eq_nil_iff.2 fun w hw => if_neg fun h => hm (List.mem_map.2 ⟨w, hw, h.1⟩)

/-- of a metric that is written once the pipe gets that sample -/
theorem filterMap_sampleOf {m : Metric} {v : Sample} (hnodup : (writes.map Prod.fst).Nodup) (hmem : (m, v) ∈ writes)
    (hfinite : v.isFinite = true) : writes.filterMap (sampleOf m) = [v] := by
  induction writes with
  | nil => cases hmem
  | cons w writes ih =>
    obtain ⟨hfirst, hnodup⟩ := List.nodup_cons.1 hnodup
    rcases List.mem_cons.1 hmem with rfl | hmem
    · have hsample : sampleOf m (m, v) = some v := if_pos ⟨rfl, hfinite⟩
      rw [List.filterMap_cons_some hsample, filterMap_sampleOf_eq_nil hfirst]
    · have hother : sampleOf m w = none := if_neg fun (h : w.1 = m ∧ _) =>
        hfirst (h.1 ▸ List.mem_map.2 ⟨_, hmem, rfl⟩)
      rw [List.filterMap_cons_none hother]
      exact ih hnodup hmem

end Cycle

/-! ## Noisy values -/

namespace Number

theorem value_zero : value 0.0 = 0 := by rfl

/-- The number is within the radius of the center, up to rounding: it is at most every finite number from the upper end of
the interval on, and at least every finite number up to its lower end. -/
structure Within (radius : ℚ) (center x : Float) : Prop where
  finite : x.isFinite = true
  below : ∀ b : Float, b.isFinite = true → value center + radius ≤ value b → x ≤ b
  above : ∀ b : Float, b.isFinite = true → value b ≤ value center - radius → b ≤ x

theorem within_add {radius : ℚ} {center noise : Float} (hcenter : center.isFinite = true)
    (hsmall : size center ≤ 2 ^ 1022) (hnoise : noise.isFinite = true) (hdrawn : |value noise| ≤ radius)
    (hradius : radius ≤ 2 ^ 1023) : Within radius center (center + noise) := by
  have hgrid : OnGrid (3 * 2 ^ 1022) := ⟨3, 1022, by norm_num, by norm_num, by rw [zpow_ofNat]; rfl⟩
  have hlimit : (3 * 2 ^ 1022 : ℚ) < 2 ^ 1024 := by
    rw [show (2 ^ 1024 : ℚ) = 2 ^ 2 * 2 ^ 1022 by rw [← pow_add]]
    gcongr
    norm_num
  have hsize : size center + size noise ≤ 3 * 2 ^ 1022 := by
    rw [← abs_value noise]
    calc size center + |value noise| ≤ 2 ^ 1022 + 2 ^ 1023 := add_le_add hsmall (hdrawn.trans hradius)
      _ = 3 * 2 ^ 1022 := by rw [pow_succ' 2 1022, ← one_add_mul]; norm_num
  have hfinite := (isFinite_add hcenter hnoise hgrid hlimit hsize).1
  obtain ⟨hlow, hhigh⟩ := abs_le.1 hdrawn
  refine ⟨hfinite, fun b hb hle => ?_, fun b hb hle => ?_⟩
  · exact (le_iff_value hfinite hb).2 ((add_between hcenter hnoise hfinite b).1 (by linarith))
  · exact (le_iff_value hb hfinite).2 ((add_between hcenter hnoise hfinite b).2 (by linarith))

end Number

namespace Instrument

theorem DrawnWithin.drawn {amplitude : Float} {draws : Metric → Float} (h : DrawnWithin amplitude draws)
    (hfinite : amplitude.isFinite = true) (m : Metric) :
    (draws m).isFinite = true ∧ |value (draws m)| ≤ value amplitude := by
  obtain ⟨hlow, hhigh⟩ := h m
  have hopposite : (-amplitude).isFinite = true := (isFinite_neg amplitude).trans hfinite
  have hdraw := isFinite_of_between hopposite hfinite hlow hhigh
  rw [le_iff_value hopposite hdraw, value_neg] at hlow
  rw [le_iff_value hdraw hfinite] at hhigh
  exact ⟨hdraw, abs_le.2 ⟨hlow, hhigh⟩⟩

/-- the values of the mock of debug environments, before there is noise -/
def debugValues : List (Metric × Float) := [(.temperature, 21.0), (.humidity, 45.0), (.luminosity, 300.0)]

theorem entries_debugValues : (Keyed.ofList debugValues).entries = debugValues := by
  decide +kernel

theorem entries_debugValues_ne_nil : (Keyed.ofList debugValues).entries ≠ [] := by
  rw [entries_debugValues]
  exact List.cons_ne_nil _ _

theorem size_debugValues {m : Metric} {base : Float} (h : (m, base) ∈ debugValues) :
    base.isFinite = true ∧ size base ≤ 2 ^ 1022 := by
  have hall : ∀ e ∈ debugValues, e.2.isFinite = true ∧ 0.0 ≤ e.2 ∧ e.2 ≤ Float.ofBits 0x7fd0000000000000 := by
    decide +kernel
  obtain ⟨hfinite, hnonneg, hle⟩ := hall _ h
  have hunpack : (Float.ofBits 0x7fd0000000000000).toModel.unpack = .finite .positive (2 ^ 52) 970 (by norm_num) := by
    rfl
  have hbound : value (Float.ofBits 0x7fd0000000000000) = 2 ^ 1022 := by
    rw [value, hunpack, signed, Sign.apply, Nat.cast_pow, Nat.cast_ofNat, Int.cast_pow, Int.cast_ofNat, zpow_ofNat,
      ← pow_add]
  rw [le_iff_value (by decide +kernel) hfinite] at hnonneg
  rw [le_iff_value hfinite (by decide +kernel), hbound] at hle
  rw [← abs_value, abs_of_nonneg (value_zero ▸ hnonneg)]
  exact ⟨hfinite, hle⟩

theorem isNoisy_iff {x : Float} (hx : x.isFinite = true) : isNoisy x = true ↔ 0 < value x := by
  rw [isNoisy, Bool.and_eq_true, decide_eq_true_iff, lt_iff_value (by decide +kernel) hx, value_zero]
  exact and_iff_left hx

/-- with a range that is not too wide, a value is written within the amplitude -/
theorem noisySample_within {amplitude : Float} {draws : Metric → Float} (hfinite : amplitude.isFinite = true)
    (hnonneg : 0 ≤ value amplitude) (hfits : amplitude ≤ widestNoise)
    (hdrawn : isNoisy amplitude = true → DrawnWithin amplitude draws) {e : Metric × Float}
    (hbase : e.2.isFinite = true) (hsmall : size e.2 ≤ 2 ^ 1022) :
    (noisySample amplitude draws e).isFinite = true ∧
      Within (value amplitude) e.2 (noisySample amplitude draws e).value := by
  have hradius : value amplitude ≤ 2 ^ 1023 := by
    rw [le_iff_value hfinite (by decide +kernel), value_widestNoise] at hfits
    calc value amplitude ≤ (2 ^ 53 - 3 : ℕ) * 2 ^ (970 : ℤ) := hfits
      _ ≤ 2 ^ 53 * 2 ^ (970 : ℤ) := by gcongr; norm_num
      _ = 2 ^ 1023 := by rw [zpow_ofNat, ← pow_add]
  have hwithin : Within (value amplitude) e.2 (e.2 + if isNoisy amplitude then draws e.1 else 0.0) := by
    cases hnoisy : isNoisy amplitude with
    | false =>
      rw [if_neg Bool.false_ne_true]
      refine within_add hbase hsmall (by decide +kernel) ?_ hradius
      rw [value_zero, abs_zero]
      exact hnonneg
    | true =>
      rw [if_pos rfl]
      obtain ⟨hdraw, hsize⟩ := (hdrawn hnoisy).drawn hfinite e.1
      exact within_add hbase hsmall hdraw hsize hradius
  rw [← Sample.isFinite_value, noisySample, Sample.value_ofFloat]
  exact ⟨hwithin.finite, hwithin⟩

/-! ## Harvests of fixed values -/

/-- A harvest of fixed values that nothing breaks off returns. If all that it writes is finite, it adds no error, and each
of the values gets into the queue of its metric, if that is requested, and nothing gets into the others. -/
theorem play_fixedSteps (now : Nat) {seat : Nat} {source : String} {c : Cycle}
    (hseat : c.seats[seat]? = some ⟨source, .harvesting⟩) {values : Keyed Metric Float} {amplitude : Float}
    {draws : Metric → Float} (hquiet : (isNoisy amplitude && noiseOverflows amplitude) = false)
    (hfinite : ∀ e ∈ values.entries, (noisySample amplitude draws e).isFinite = true) :
    let c' := (Player.play now seat (fixedSteps values amplitude draws) c).1
    c'.seats[seat]? = some ⟨source, .returned⟩ ∧ c'.pipe.errors = c.pipe.errors ∧
      (∀ e ∈ values.entries, c'.pipe.queues.find? e.1 =
        (c.pipe.queues.find? e.1).map (· ++ [⟨source, noisySample amplitude draws e⟩])) ∧
      ∀ m, m ∉ values.keys → c'.pipe.queues.find? m = c.pipe.queues.find? m := by
  intro c'
  have hwrites : c' = c.run (Cycle.writing seat (fixedWrites values amplitude draws)) := by
    simp only [c']
    rw [fixedSteps_eq_writes hquiet, Cycle.play_writes]
  rw [hwrites]
  refine ⟨Cycle.writing_returned hseat, Cycle.writing_errors hseat fun w hw => ?_, fun e he => ?_, fun m hm => ?_⟩
  · obtain ⟨e, he, rfl⟩ := mem_fixedWrites.1 hw
    exact hfinite e he
  · have hmem : (e.1, noisySample amplitude draws e) ∈ fixedWrites values amplitude draws := mem_fixedWrites.2 ⟨e, he, rfl⟩
    rw [Cycle.writing_find? hseat, Cycle.filterMap_sampleOf nodup_fixedWrites hmem (hfinite e he)]
    rfl
  · have hother : m ∉ (fixedWrites values amplitude draws).map Prod.fst := fun hkey => by
      obtain ⟨w, hw, rfl⟩ := List.mem_map.1 hkey
      obtain ⟨e, he, rfl⟩ := mem_fixedWrites.1 hw
      exact hm (List.mem_map.2 ⟨e, he, rfl⟩)
    rw [Cycle.writing_find? hseat, Cycle.filterMap_sampleOf_eq_nil hother]
    simp

/-- where the range is not too wide, nothing breaks a harvest off -/
theorem breaks_iff {amplitude : Float} (hfinite : amplitude.isFinite = true) (hnonneg : 0 ≤ value amplitude) :
    (isNoisy amplitude && noiseOverflows amplitude) = true ↔ ¬amplitude ≤ widestNoise := by
  rw [Bool.and_eq_true, isNoisy_iff hfinite, noiseOverflows_iff hfinite hnonneg]
  refine and_iff_right_of_imp fun hwide => ?_
  rw [le_iff_value hfinite (by decide +kernel), not_le, value_widestNoise] at hwide
  exact lt_trans (by positivity) hwide

end Instrument

theorem Settings.jitter_isFinite {s : Settings} (h : s.fault? = none) : s.jitter.isFinite = true := by
  unfold fault? at h
  split_ifs at h with hid htimeout hdistance hjitter
  simpa using hjitter

namespace Instrument

/-- **Usable noise.** Whatever the accepted settings, the metrics that are requested and the harvest: with an amplitude up to
the widest, and whatever is drawn from the range, the mock's harvest returns and adds no error; each of its metrics that is
requested gets one value, within the amplitude of the mock's, up to rounding, and the other metrics get none. With a greater
amplitude the harvest breaks off and has written nothing. -/
theorem debug_harvest {s : Settings} (haccepted : s.fault? = none) (key : Nat) (noise : Nat → Metric → Float)
    (n now seat : Nat) {c : Cycle} (hseat : c.seats[seat]? = some ⟨"STATIC_MOCK", .harvesting⟩) :
    let c' := (Player.play now seat ((debug key s.jitter noise).steps n) c).1
    (s.jitter.abs ≤ widestNoise → (isNoisy s.jitter.abs = true → DrawnWithin s.jitter.abs (noise n)) →
      c'.seats[seat]? = some ⟨"STATIC_MOCK", .returned⟩ ∧ c'.pipe.errors = c.pipe.errors ∧
        (∀ m base, (m, base) ∈ debugValues → ∃ v : Sample, Within |value s.jitter| base v.value ∧
          c'.pipe.queues.find? m = (c.pipe.queues.find? m).map (· ++ [⟨"STATIC_MOCK", v⟩])) ∧
        ∀ m, m ∉ debugValues.map Prod.fst → c'.pipe.queues.find? m = c.pipe.queues.find? m) ∧
      (¬s.jitter.abs ≤ widestNoise →
        c'.seats[seat]? = some ⟨"STATIC_MOCK", .died⟩ ∧ c'.pipe = c.pipe) := by
  have hfinite : s.jitter.abs.isFinite = true := (isFinite_abs _).trans (Settings.jitter_isFinite haccepted)
  have hnonneg : 0 ≤ value s.jitter.abs := value_abs s.jitter ▸ abs_nonneg _
  have hsteps : (debug key s.jitter noise).steps n = fixedSteps (Keyed.ofList debugValues) s.jitter.abs (noise n) := rfl
  intro c'
  simp only [c', hsteps]
  refine ⟨fun hfits hdrawn => ?_, fun hwide => ?_⟩
  · have hquiet := Bool.eq_false_iff.2 fun h => (breaks_iff hfinite hnonneg).1 h hfits
    have hsample : ∀ e ∈ debugValues, (noisySample s.jitter.abs (noise n) e).isFinite = true ∧
        Within (value s.jitter.abs) e.2 (noisySample s.jitter.abs (noise n) e).value := by
      intro e he
      obtain ⟨hbase, hsmall⟩ := size_debugValues he
      exact noisySample_within hfinite hnonneg hfits hdrawn hbase hsmall
    have hwrites := play_fixedSteps now hseat hquiet fun e he => (hsample e (entries_debugValues ▸ he)).1
    rw [Keyed.keys, entries_debugValues] at hwrites
    obtain ⟨hreturned, herrors, hwritten, hothers⟩ := hwrites
    refine ⟨hreturned, herrors, fun m base hbase => ?_, hothers⟩
    exact ⟨_, value_abs s.jitter ▸ (hsample (m, base) hbase).2, hwritten _ hbase⟩
  · rw [fixedSteps_eq_die ((breaks_iff hfinite hnonneg).2 hwide) entries_debugValues_ne_nil]
    exact Cycle.play_die now hseat

/-- an amplitude of one half, and a harvest that draws the least there is for the humidity -/
theorem debug_harvest_half :
    let s : Settings := { Settings.default fun _ => none with jitter := 0.5 }
    let noise : Nat → Metric → Float := fun _ m => if m = .humidity then -0.5 else 0.25
    let c := Cycle.start ["STATIC_MOCK"] [.vibration, .humidity]
    let c' := (Player.play 0 0 ((debug 0 s.jitter noise).steps 7) c).1
    s.fault? = none ∧ DrawnWithin s.jitter.abs (noise 7) ∧ c.seats[0]? = some ⟨"STATIC_MOCK", .harvesting⟩ ∧
      c'.seats[0]? = some ⟨"STATIC_MOCK", .returned⟩ ∧ c'.pipe.errors = [] ∧
      (∃ v : Sample, Within |value 0.5| 45.0 v.value ∧
        c'.pipe.queues.find? .humidity = some [⟨"STATIC_MOCK", v⟩]) ∧
      c'.pipe.queues.find? .vibration = some [] := by
  intro s noise c c'
  have haccepted : s.fault? = none := by decide +kernel
  have hdrawn : DrawnWithin s.jitter.abs (noise 7) := by
    intro m
    by_cases hm : m = .humidity
    · simp only [noise, if_pos hm]
      decide +kernel
    · simp only [noise, if_neg hm]
      decide +kernel
  have hseat : c.seats[0]? = some ⟨"STATIC_MOCK", .harvesting⟩ := rfl
  obtain ⟨hreturned, herrors, hwritten, hothers⟩ :=
    (debug_harvest haccepted 0 noise 7 0 0 hseat).1 (by decide +kernel) fun _ => hdrawn
  obtain ⟨v, hwithin, hqueue⟩ := hwritten .humidity 45.0 (by simp [debugValues])
  exact ⟨haccepted, hdrawn, hseat, hreturned, herrors, ⟨v, hwithin, hqueue⟩, hothers .vibration (by decide)⟩

/-- The greatest number is accepted as an amplitude, and a harvest with it does not come to its end. -/
theorem greatest_jitter_breaks_off :
    let s : Settings := { Settings.default fun _ => none with jitter := Float.ofBits 0x7fefffffffffffff }
    let c := Cycle.start ["STATIC_MOCK"] [.humidity]
    let c' := (Player.play 0 0 ((debug 0 s.jitter fun _ _ => 0.0).steps 0) c).1
    s.fault? = none ∧ c'.seats = [⟨"STATIC_MOCK", .died⟩] ∧ c'.pipe.queues.find? .humidity = some [] ∧
      c'.pipe.errors = [] := by
  intro s c
  have hwide : (isNoisy s.jitter.abs && noiseOverflows s.jitter.abs) = true := by decide +kernel
  have hsteps : (debug 0 s.jitter fun _ _ => 0.0).steps 0 =
      fixedSteps (Keyed.ofList debugValues) s.jitter.abs fun _ => 0.0 := rfl
  rw [hsteps, fixedSteps_eq_die hwide entries_debugValues_ne_nil]
  have hdied : (Player.play 0 0 [.die] c).1 = c.apply 0 .died := rfl
  rw [hdied]
  have haccepted : s.fault? = none := by decide +kernel
  exact ⟨haccepted, rfl, rfl, rfl⟩

end Instrument

end SensorNode
