/-
Finite readings. The pipe takes finite samples only (`run_takesFinite`), and a reading made of them is finite exactly if
what is added up for it is (`reduce_isFinite_iff`). A least or greatest reading and the middle of an odd number of samples
are samples; a mean and the middle of an even number can be lost to overflow, though not as long as the samples are
small enough for their number (`total_isFinite`).
-/
import SensorNode.Entity.Wire
import SensorNode.Proofs.Harvest.Play
import SensorNode.Proofs.Numbers
import SensorNode.Proofs.Rounding

namespace SensorNode

/-! ## Samples -/

/-- a sample is finite exactly if its value is -/
theorem Sample.isFinite_value (s : Sample) : s.value.isFinite = s.isFinite := by
  have hfield : (@Float.Model.UnpackedFloat.unpackExponent .binary64 s.bits.toBitVec).toNat =
      ((s.bits >>> 52) &&& 0x7ff).toNat := by
    show (s.bits.toNat >>> 52) % 2 ^ 11 = (s.bits.toNat >>> 52) &&& (2 ^ 11 - 1)
    rw [Nat.and_two_pow_sub_one_eq_mod]
  rw [Bool.eq_iff_iff, value, Number.isFinite_ofBits, hfield, isFinite, bne_iff_ne, ne_eq, ne_eq, ← UInt64.toNat_inj]
  rfl

namespace Reduction

open Number

variable {samples : List Sample}

/-- what is added up for a reading, before it is divided -/
def total? (policy : Reduction) (samples : List Sample) : Option Float :=
  match policy with
  | .mean => some (samples.foldl (fun sum s => sum + s.value) (-0.0))
  | .median =>
    let sorted := samples.mergeSort Sample.le
    let mid := sorted.length / 2
    if sorted.length % 2 = 0 then some ((sorted.getD (mid - 1) default).value + (sorted.getD mid default).value) else none
  | .min | .max => none

/-! ## Least and greatest readings -/

/-- whoever is chosen was one of the two -/
theorem lesser_cases (x y : Float) : lesser x y = x ∨ lesser x y = y := by
  unfold lesser
  split_ifs
  · exact Or.inr rfl
  · exact Or.inr rfl
  · exact Or.inl rfl

theorem greater_cases (x y : Float) : greater x y = x ∨ greater x y = y := by
  unfold greater
  split_ifs
  · exact Or.inr rfl
  · exact Or.inr rfl
  · exact Or.inl rfl

/-- every finite number has its place between those of the infinities -/
theorem between_infinities {x : Float} (hx : x.isFinite = true) : x < positiveInfinity ∧ negativeInfinity < x := by
  have hpositive : placeOf positiveInfinity = some (toLex (2, toLex (0, 0))) := by decide +kernel
  have hnegative : placeOf negativeInfinity = some (toLex (-2, toLex (0, 0))) := by decide +kernel
  have hunpacked : x.toModel.unpack.isFinite = true := hx
  obtain ⟨p, hp, hless, hgreater⟩ : ∃ p, placeOf x = some p ∧ p < toLex (2, toLex (0, 0)) ∧ toLex (-2, toLex (0, 0)) < p := by
    unfold placeOf
    generalize x.toModel.unpack = u at hunpacked
    cases u with
    | notANumber => cases hunpacked
    | infinity sign => cases hunpacked
    | zero sign => exact ⟨origin, rfl, by simp [origin, Prod.Lex.toLex_lt_toLex], by simp [origin, Prod.Lex.toLex_lt_toLex]⟩
    | finite sign mantissa exponent pos =>
      cases sign <;> exact ⟨_, rfl, by simp [Prod.Lex.toLex_lt_toLex], by simp [Prod.Lex.toLex_lt_toLex]⟩
  exact ⟨(lt_iff_of_placeOf hp hpositive).2 hless, (lt_iff_of_placeOf hnegative hp).2 hgreater⟩

section

variable {choose : Float → Float → Float}

theorem foldl_choose_isFinite (hchoose : ∀ x y, choose x y = x ∨ choose x y = y)
    (hfinite : ∀ s ∈ samples, s.value.isFinite = true) {x : Float} (hx : x.isFinite = true) :
    (samples.foldl (fun x s => choose x s.value) x).isFinite = true := by
  induction samples generalizing x with
  | nil => exact hx
  | cons s samples ih =>
    apply ih fun s' hs' => hfinite s' (List.mem_cons_of_mem s hs')
    show (choose x s.value).isFinite = true
    rcases hchoose x s.value with h | h <;> rw [h]
    · exact hx
    · exact hfinite s List.mem_cons_self

/-- the first sample takes the place of what the search begins with -/
theorem foldl_choose_isFinite_of_start (hchoose : ∀ x y, choose x y = x ∨ choose x y = y) {start : Float}
    (hstart : ∀ x : Float, x.isFinite = true → choose start x = x) (hne : samples ≠ [])
    (hfinite : ∀ s ∈ samples, s.value.isFinite = true) :
    (samples.foldl (fun x s => choose x s.value) start).isFinite = true := by
  obtain ⟨s, rest, rfl⟩ := List.exists_cons_of_ne_nil hne
  have hs := hfinite s List.mem_cons_self
  rw [List.foldl_cons, hstart s.value hs]
  exact foldl_choose_isFinite hchoose (fun s' hs' => hfinite s' (List.mem_cons_of_mem s hs')) hs

end

theorem minOf_isFinite (hne : samples ≠ []) (hfinite : ∀ s ∈ samples, s.value.isFinite = true) :
    (minOf samples).isFinite = true := by
  refine foldl_choose_isFinite_of_start lesser_cases ?_ hne hfinite
  intro x hx
  unfold lesser
  rw [if_neg (by decide +kernel), if_pos (between_infinities hx).1]

theorem maxOf_isFinite (hne : samples ≠ []) (hfinite : ∀ s ∈ samples, s.value.isFinite = true) :
    (maxOf samples).isFinite = true := by
  refine foldl_choose_isFinite_of_start greater_cases ?_ hne hfinite
  intro x hx
  unfold greater
  rw [if_neg (by decide +kernel), if_pos (between_infinities hx).2]

/-! ## Sums -/

theorem reachesOne_two : ReachesOne (2.0 : Float).toModel.unpack := by
  have htwo : (2.0 : Float) = Float.ofNat 2 := by decide +kernel
  rw [htwo]
  exact reachesOne_ofNat two_ne_zero

theorem getD_sorted_mem {n : ℕ} (h : n < samples.length) : (samples.mergeSort Sample.le).getD n default ∈ samples := by
  have hsorted : n < (samples.mergeSort Sample.le).length := by rwa [List.length_mergeSort]
  rw [List.getD_eq_getElem _ _ hsorted]
  exact List.mem_mergeSort.1 (List.getElem_mem hsorted)

/-- **Overflow.** A reading of finite samples is finite exactly if what is added up for it is. -/
theorem reduce_isFinite_iff {policy : Reduction} (hfinite : ∀ s ∈ samples, s.value.isFinite = true) {x : Float}
    (hx : policy.reduce samples = some x) :
    x.isFinite = true ↔ ∀ total ∈ policy.total? samples, total.isFinite = true := by
  have hne : samples ≠ [] := (isSome_reduce policy samples).1 (by rw [hx]; rfl)
  have hpos : samples.length ≠ 0 := fun h => hne (List.length_eq_zero_iff.1 h)
  unfold reduce at hx
  rw [if_neg (by simpa using hne)] at hx
  obtain rfl := Option.some.inj hx
  -- the number of samples and two are at least one, so that the division can be left out
  cases policy with
  | mean =>
    show (meanOf samples).isFinite = true ↔ _
    rw [meanOf, isFinite_div (reachesOne_ofNat hpos)]
    simp [total?]
  | median =>
    show (medianOf samples).isFinite = true ↔ _
    have hlength : (samples.mergeSort Sample.le).length = samples.length := List.length_mergeSort samples
    simp only [medianOf, total?, hlength]
    split_ifs with heven
    · rw [isFinite_div reachesOne_two]
      simp
    · exact iff_of_true (hfinite _ (getD_sorted_mem (by omega))) (by simp)
  | min => simp [total?, minOf_isFinite hne hfinite]
  | max => simp [total?, maxOf_isFinite hne hfinite]

/-- sums of numbers below a power of two stay below as many times it -/
theorem foldl_add_isFinite {k : ℤ} (hk : -1074 ≤ k) {x : Float} {n : ℕ} (hx : x.isFinite = true)
    (hsize : size x ≤ n * 2 ^ k) (hsamples : ∀ s ∈ samples, s.value.isFinite = true ∧ size s.value ≤ 2 ^ k)
    (hbits : n + samples.length < 2 ^ 53) (hlt : ((n + samples.length : ℕ) * 2 ^ k : ℚ) < 2 ^ 1024) :
    (samples.foldl (fun sum s => sum + s.value) x).isFinite = true := by
  -- the sum of `n` samples is at most `n * 2 ^ k`, which has few enough bits not to be passed by rounding
  induction samples generalizing x n with
  | nil => exact hx
  | cons s samples ih =>
    rw [List.length_cons, ← Nat.add_assoc, Nat.add_right_comm] at hbits hlt
    obtain ⟨hs, hless⟩ := hsamples s List.mem_cons_self
    have hgrid : OnGrid ((n + 1 : ℕ) * 2 ^ k) := ⟨n + 1, k, by omega, hk, rfl⟩
    have hsum : size x + size s.value ≤ (n + 1 : ℕ) * 2 ^ k := by
      push_cast
      linarith
    have hcount : ((n + 1 : ℕ) : ℚ) ≤ (n + 1 + samples.length : ℕ) := by exact_mod_cast Nat.le_add_right _ _
    have hpart : ((n + 1 : ℕ) * 2 ^ k : ℚ) < 2 ^ 1024 :=
      (mul_le_mul_of_nonneg_right hcount (by positivity)).trans_lt hlt
    obtain ⟨hfinite, hnext⟩ := isFinite_add hx hs hgrid hpart hsum
    exact ih hfinite hnext (fun s' hs' => hsamples s' (List.mem_cons_of_mem s hs')) hbits hlt

/-- a power of two that is not below the size that the samples may have, and less than twice as large -/
theorem exists_power {n : ℕ} (hpos : n ≠ 0) (hbits : n < 2 ^ 53) :
    ∃ k : ℤ, -1074 ≤ k ∧ (n * 2 ^ k : ℚ) < 2 ^ 1024 ∧ ∀ v : ℚ, n * v ≤ 2 ^ 1023 → v ≤ 2 ^ k := by
  have hn : (0 : ℚ) < n := by exact_mod_cast Nat.pos_of_ne_zero hpos
  obtain ⟨k, hlow, hhigh⟩ := exists_mem_Ioc_zpow (div_pos (by positivity : (0 : ℚ) < 2 ^ 1023) hn) one_lt_two
  refine ⟨k + 1, ?_, ?_, fun v hv => ?_⟩
  · have hone : (1 : ℚ) ≤ 2 ^ 1023 / n := by
      rw [one_le_div hn]
      calc (n : ℚ) ≤ 2 ^ 53 := by exact_mod_cast hbits.le
        _ ≤ 2 ^ 1023 := by gcongr <;> norm_num
    by_contra hneg
    exact absurd (hone.trans hhigh) (not_le.2 (zpow_lt_one_of_neg₀ one_lt_two (by omega)))
  · rw [zpow_add_one₀ two_ne_zero]
    rw [lt_div_iff₀ hn] at hlow
    calc (n * (2 ^ k * 2) : ℚ) = 2 ^ k * n * 2 := by ring
      _ < 2 ^ 1023 * 2 := by gcongr
      _ = 2 ^ 1024 := by rw [← pow_succ]
  · rw [← le_div_iff₀' hn] at hv
    exact hv.trans hhigh

/-- **Small samples.** Fewer than 2^53 samples add up to a finite number as long as their number times each of them is at
most half of what is too large. -/
theorem total_isFinite {policy : Reduction} (hne : samples ≠ []) (hfinite : ∀ s ∈ samples, s.value.isFinite = true)
    (hbits : samples.length < 2 ^ 53) (hsize : ∀ s ∈ samples, samples.length * size s.value ≤ 2 ^ 1023) :
    ∀ total ∈ policy.total? samples, total.isFinite = true := by
  intro total htotal
  have hpos : samples.length ≠ 0 := fun h => hne (List.length_eq_zero_iff.1 h)
  obtain ⟨k, hk, hlt, hpower⟩ := exists_power hpos hbits
  have hless : ∀ s ∈ samples, s.value.isFinite = true ∧ size s.value ≤ 2 ^ k := fun s hs =>
    ⟨hfinite s hs, hpower _ (hsize s hs)⟩
  cases policy with
  | mean =>
    obtain rfl := Option.some.inj htotal
    have hzero : size (-0.0) ≤ (0 : ℕ) * 2 ^ k := by
      have hunpack : (-0.0 : Float).toModel.unpack = .zero .negative := by rfl
      rw [size, hunpack, Nat.cast_zero, zero_mul]
      rfl
    rw [← Nat.zero_add samples.length] at hbits hlt
    exact foldl_add_isFinite hk (by decide +kernel) hzero hless hbits hlt
  | median =>
    simp only [total?, List.length_mergeSort] at htotal
    split_ifs at htotal with heven
    · obtain rfl := Option.some.inj htotal
      obtain ⟨hlower, hlow⟩ := hless _ (getD_sorted_mem (by omega : samples.length / 2 - 1 < samples.length))
      obtain ⟨hupper, hupp⟩ := hless _ (getD_sorted_mem (by omega : samples.length / 2 < samples.length))
      have hcount : ((2 : ℕ) : ℚ) ≤ samples.length := by exact_mod_cast (by omega : 2 ≤ samples.length)
      have htwice : ((2 : ℕ) * 2 ^ k : ℚ) < 2 ^ 1024 :=
        (mul_le_mul_of_nonneg_right hcount (by positivity)).trans_lt hlt
      exact (isFinite_add hlower hupper ⟨2, k, by norm_num, hk, rfl⟩ htwice (by push_cast; linarith)).1
    · cases htotal
  | min => cases htotal
  | max => cases htotal

end Reduction

namespace Cycle

variable {c : Cycle}

/-! ## What the pipe takes -/

/-- the queues of the pipe hold finite samples only -/
def TakesFinite (c : Cycle) : Prop :=
  ∀ m queue, c.pipe.queues.find? m = some queue → ∀ r ∈ queue, r.sample.isFinite = true

theorem start_takesFinite (sources : List String) (metrics : List Metric) : TakesFinite (start sources metrics) := by
  intro m queue hqueue r hr
  simp only [start, ofMetrics_find?] at hqueue
  split_ifs at hqueue
  obtain rfl := Option.some.inj hqueue
  cases hr

/-- what an event writes to a metric is finite -/
theorem Event.sampleFor_isFinite {event : Event} {m : Metric} {s : Sample} (h : event.sampleFor m = some s) :
    s.isFinite = true := by
  cases event with
  | write m' s' | writeIfWanted m' s' =>
    simp only [sampleFor] at h
    split_ifs at h with hwrite
    obtain rfl := Option.some.inj h
    exact hwrite.2
  | _ => cases h

theorem TakesFinite.apply (h : TakesFinite c) (n : Nat) (event : Event) : TakesFinite (c.apply n event) := by
  by_cases hseat : ∃ source, c.seats[n]? = some ⟨source, .harvesting⟩
  · obtain ⟨source, hsource⟩ := hseat
    intro m queue hqueue r hr
    rw [apply_find? c n event source m hsource] at hqueue
    obtain ⟨old, hold, rfl⟩ := Option.map_eq_some_iff.1 hqueue
    rcases List.mem_append.1 hr with hr | hr
    · exact h m old hold r hr
    · obtain ⟨s, hs, rfl⟩ := List.mem_map.1 hr
      exact Event.sampleFor_isFinite (Option.mem_toList.1 hs)
  · rw [apply_of_not_harvesting c n event fun source hsource => hseat ⟨source, hsource⟩]
    exact h

theorem TakesFinite.run (h : TakesFinite c) (events : List (Nat × Event)) : TakesFinite (c.run events) := by
  induction events generalizing c with
  | nil => exact h
  | cons x events ih => exact ih (h.apply x.1 x.2)

/-- the samples that count are among those of the pipe -/
theorem TakesFinite.counted (h : TakesFinite c) {m : Metric} {queue : List ReadingResult}
    (hqueue : c.pipe.queues.find? m = some queue) : ∀ s ∈ c.counted queue, s.isFinite = true := by
  intro s hs
  obtain ⟨r, hr, rfl⟩ := List.mem_map.1 hs
  exact h m queue hqueue r (List.mem_of_mem_filter hr)

end Cycle

/-- **Finite readings.** For every run of a cycle, whatever its sensors write and in whatever order, so for every cycle of
instruments, which is a run of what they play: a reading is made of finite samples, and it is finite exactly if what is added
up for it is, all samples for a mean, the middle two of an even number for a median and nothing for the least and the
greatest. Fewer than 2^53 samples give a finite reading as long as their number times each of them is at most 2^1023. A
record has null in the place of a reading that is not finite. -/
theorem readings_finite (policy : Reduction) :
    (∀ (sources : List String) (metrics : List Metric) (events : List (Nat × Cycle.Event)) (m : Metric) (x : Float),
      let c := (Cycle.start sources metrics).run events
      (c.readings policy).find? m = some x →
        ∃ queue, c.pipe.queues.find? m = some queue ∧ policy.reduce (c.counted queue) = some x ∧
          (∀ s ∈ c.counted queue, s.isFinite = true) ∧
          (x.isFinite = true ↔ ∀ total ∈ policy.total? (c.counted queue), total.isFinite = true) ∧
          (Json.ofReal x = .null ↔ x.isFinite = false) ∧
          ((c.counted queue).length < 2 ^ 53 →
            (∀ s ∈ c.counted queue, (c.counted queue).length * Number.size s.value ≤ 2 ^ 1023) → x.isFinite = true)) ∧
    ∀ (fleet : Fleet) (sensors : List Sensor) (metrics : List Metric) (timeout : Duration),
      ∃ s : Cycle.Schedule (sensors.map Sensor.id) timeout.millis, s.IsPlayed fleet sensors ∧
        (runCycle fleet sensors metrics timeout policy).1 =
          ((Cycle.start (sensors.map Sensor.id) metrics).run s.noticed).outcome policy := by
  refine ⟨fun sources metrics events m x => ?_, fun fleet sensors metrics timeout => ?_⟩
  · intro c hx
    have htakes : c.TakesFinite := (Cycle.start_takesFinite sources metrics).run events
    rw [Cycle.readings, Keyed.find?_filterMapValues] at hx
    obtain ⟨queue, hqueue, hreduce⟩ := Option.bind_eq_some_iff.1 hx
    have hfinite := htakes.counted hqueue
    have hvalues : ∀ s ∈ c.counted queue, s.value.isFinite = true := fun s hs => s.isFinite_value.trans (hfinite s hs)
    have hne : c.counted queue ≠ [] := (Reduction.isSome_reduce policy _).1 (by rw [hreduce]; rfl)
    have hiff := Reduction.reduce_isFinite_iff hvalues hreduce
    refine ⟨queue, hqueue, hreduce, hfinite, hiff, ?_, fun hbits hsize => ?_⟩
    · unfold Json.ofReal
      cases x.isFinite <;> simp
    · exact hiff.2 (Reduction.total_isFinite hne hvalues hbits hsize)
  · exact runCycle_follows fleet sensors metrics timeout policy

/-- two sensors, each of which writes one sample and returns -/
def twoWrites (s : Sample) : List (Nat × Cycle.Event) :=
  [(0, .write .humidity s), (1, .write .humidity s), (0, .returned), (1, .returned)]

theorem readings_finite_forty :
    let c := (Cycle.start ["left", "right"] [.humidity]).run (twoWrites ⟨0x4044000000000000⟩)
    ∃ x, (c.readings .mean).find? .humidity = some x ∧ x.isFinite = true := by
  intro c
  obtain ⟨x, hx⟩ : ∃ x, (c.readings .mean).find? .humidity = some x := ⟨_, rfl⟩
  obtain ⟨queue, hqueue, -, -, -, -, hsmall⟩ :=
    (readings_finite .mean).1 ["left", "right"] [.humidity] (twoWrites ⟨0x4044000000000000⟩) .humidity x hx
  have hcounted : c.counted queue = [⟨0x4044000000000000⟩, ⟨0x4044000000000000⟩] := by
    rw [← Option.some.inj ((rfl : c.pipe.queues.find? .humidity = _).symm.trans hqueue)]
    rfl
  have hsize : Number.size (Sample.value ⟨0x4044000000000000⟩) = 40 := by
    have hunpack : (Sample.value ⟨0x4044000000000000⟩).toModel.unpack =
        .finite .positive 5629499534213120 (-47) (by norm_num) := by rfl
    rw [Number.size, hunpack, Number.magnitude]
    norm_num
  refine ⟨x, hx, hsmall ?_ fun s hs => ?_⟩
  · rw [hcounted]
    norm_num
  · rw [hcounted] at hs ⊢
    obtain rfl : s = ⟨0x4044000000000000⟩ := by simpa using hs
    rw [hsize]
    calc ((2 : ℕ) * 40 : ℚ) ≤ 2 ^ 7 := by norm_num
      _ ≤ 2 ^ 1023 := by gcongr <;> norm_num

/-- Two finite samples whose mean is infinite, and what is then written in the place of the reading. -/
theorem largest_mean_overflows :
    let largest : Sample := ⟨0x7fefffffffffffff⟩
    let c := (Cycle.start ["left", "right"] [.humidity]).run (twoWrites largest)
    largest.isFinite = true ∧ (c.readings .mean).find? .humidity = some Reduction.positiveInfinity ∧
      Reduction.positiveInfinity.isFinite = false ∧
      ReadingsRecord.readingsToJson (c.readings .mean) = .object [("humidity", .null)] := by
  intro largest c
  have hentries : (c.readings .mean).entries = [(.humidity, Reduction.positiveInfinity)] := by decide +kernel
  have hinfinite : Reduction.positiveInfinity.isFinite = false := by decide +kernel
  refine ⟨by decide, by rw [Keyed.find?, hentries]; rfl, hinfinite, ?_⟩
  rw [ReadingsRecord.readingsToJson, hentries, List.map_cons, List.map_nil, Json.ofReal, hinfinite]
  rfl

end SensorNode
