/-
What a cycle owes to the order in which its sensors write. If all of them complete, whatever the order, what is written
to a metric is the same but for its order (`written_perm`): a result counts as often as its sensor has written it. So the
order shows neither in which metrics are reported nor in a median, and in a least or greatest reading only in the sign of
a zero (`arrival_order`).
-/
import SensorNode.Proofs.Harvest.Outcome
import SensorNode.Proofs.Reduction

namespace SensorNode.Cycle

/-- what an event writes, wanted or not -/
def Event.write? : Event → Option (Metric × Sample)
  | .write m v | .writeIfWanted m v => some (m, v)
  | _ => none

/-- the finite value of a write to `m` -/
def sampleOf (m : Metric) (write : Metric × Sample) : Option Sample :=
  if write.1 = m ∧ write.2.isFinite then some write.2 else none

theorem Event.sampleFor_eq (event : Event) (m : Metric) : event.sampleFor m = event.write?.bind (sampleOf m) := by
  cases event <;> rfl

namespace Schedule

variable {sources sources' : List String} {deadline : Nat}

/-- every sensor returns before the deadline -/
def IsComplete (s : Schedule sources deadline) : Prop := ∀ n < sources.length, s.completes n = true

/-- what a sensor writes, in the order of writing -/
def writes (s : Schedule sources deadline) (id : String) : List (Metric × Sample) :=
  s.moments.filterMap fun x => if sources[x.seat]? = some id then x.event.write? else none

/-- what all sensors write, in the order of writing, each write with its sensor -/
def arrivals (s : Schedule sources deadline) : List (String × Metric × Sample) :=
  s.moments.filterMap fun x => (sources[x.seat]?).bind fun id => x.event.write?.map (Prod.mk id)

theorem source_mem_of_arrivals (s : Schedule sources deadline) {arrival : String × Metric × Sample}
    (h : arrival ∈ s.arrivals) : arrival.1 ∈ sources := by
  obtain ⟨x, -, hx⟩ := List.mem_filterMap.1 h
  obtain ⟨id, hid, hwrite⟩ := Option.bind_eq_some_iff.1 hx
  obtain ⟨write, -, rfl⟩ := Option.map_eq_some_iff.1 hwrite
  exact List.mem_of_getElem? hid

theorem count_arrivals (s : Schedule sources deadline) (id : String) (write : Metric × Sample) :
    s.arrivals.count (id, write) = (s.writes id).count write := by
  rw [List.count, List.count, arrivals, writes, List.countP_filterMap, List.countP_filterMap]
  congr 1
  funext x
  cases sources[x.seat]? with
  | none => simp
  | some source =>
    by_cases hs : source = id
    · subst hs
      cases x.event.write? <;> simp
    · cases x.event.write? <;> simp [hs]

/-- the order of arrival is all that is left open by what each sensor writes -/
theorem arrivals_perm (s : Schedule sources deadline) (s' : Schedule sources' deadline) (hsame : sources'.Perm sources)
    (hwrites : ∀ id ∈ sources, s'.writes id = s.writes id) : s'.arrivals.Perm s.arrivals := by
  refine List.perm_iff_count.2 fun ⟨id, write⟩ => ?_
  by_cases hid : id ∈ sources
  · rw [count_arrivals, count_arrivals, hwrites id hid]
  · rw [List.count_eq_zero_of_not_mem fun h => hid (hsame.mem_iff.1 (s'.source_mem_of_arrivals h)),
      List.count_eq_zero_of_not_mem fun h => hid (s.source_mem_of_arrivals h)]

theorem written_eq (s : Schedule sources deadline) (hcomplete : s.IsComplete) (m : Metric) :
    s.written m = s.arrivals.filterMap fun arrival => sampleOf m arrival.2 := by
  rw [written, arrivals, List.filterMap_filterMap]
  refine List.filterMap_congr fun x hx => ?_
  have hseat := s.seated x hx
  rw [if_pos (hcomplete x.seat hseat), List.getElem?_eq_getElem hseat, Option.bind_some, Event.sampleFor_eq,
    Option.bind_map]
  rfl

theorem written_perm {s : Schedule sources deadline} {s' : Schedule sources' deadline} (hcomplete : s.IsComplete)
    (hcomplete' : s'.IsComplete) (hsame : sources'.Perm sources)
    (hwrites : ∀ id ∈ sources, s'.writes id = s.writes id) (m : Metric) : (s'.written m).Perm (s.written m) := by
  rw [s.written_eq hcomplete, s'.written_eq hcomplete']
  exact (arrivals_perm s s' hsame hwrites).filterMap _

/-- **Order of arrival.** If distinct sensors all complete, and each writes the same in two cycles, then whatever the
order in which they write and return, and in which they are seated: both cycles report the same metrics, under every
policy; the medians are the same, bit for bit; and the least and the greatest readings are equal as numbers, at most the
sign of a zero being different. -/
theorem arrival_order (s : Schedule sources deadline) (s' : Schedule sources' deadline) (distinct : sources.Nodup)
    (hsame : sources'.Perm sources) (hcomplete : s.IsComplete) (hcomplete' : s'.IsComplete)
    (hwrites : ∀ id ∈ sources, s'.writes id = s.writes id) (metrics : List Metric) :
    (∀ policy m, (s'.outcome metrics policy).readings.contains m = (s.outcome metrics policy).readings.contains m) ∧
      (∀ m, (s'.outcome metrics .median).readings.find? m = (s.outcome metrics .median).readings.find? m) ∧
      ∀ policy, policy = .min ∨ policy = .max → ∀ m x x',
        (s.outcome metrics policy).readings.find? m = some x →
        (s'.outcome metrics policy).readings.find? m = some x' → Number.Agree x' x := by
  have hperm := written_perm hcomplete hcomplete' hsame hwrites
  have hreading := fun policy m => s.find?_readings distinct metrics policy m
  have hreading' := fun policy m => s'.find?_readings (hsame.nodup_iff.2 distinct) metrics policy m
  refine ⟨fun policy m => ?_, fun m => ?_, fun policy hpolicy m x x' hx hx' => ?_⟩
  · rw [Keyed.contains, Keyed.contains, hreading, hreading']
    split_ifs
    · exact Reduction.isSome_reduce_perm policy (hperm m)
    · rfl
  · rw [hreading, hreading', Reduction.reduce_median_perm (hperm m)]
  · rw [hreading] at hx
    rw [hreading'] at hx'
    split_ifs at hx hx'
    exact Reduction.extreme_perm hpolicy (hperm m) hx' hx

/-- the left sensor writes a negative zero and returns before the right one writes a positive zero -/
def leftFirst : Schedule ["left", "right"] 1000 where
  moments :=
    [⟨10, 0, .write .humidity ⟨0x8000000000000000⟩⟩, ⟨10, 0, .returned⟩, ⟨20, 1, .write .humidity ⟨0⟩⟩,
      ⟨20, 1, .returned⟩]
  seated := by decide
  ends := by decide
  clear := by decide

/-- the right sensor writes first, and has the first seat -/
def rightFirst : Schedule ["right", "left"] 1000 where
  moments :=
    [⟨10, 0, .write .humidity ⟨0⟩⟩, ⟨15, 1, .write .humidity ⟨0x8000000000000000⟩⟩, ⟨15, 1, .returned⟩,
      ⟨20, 0, .returned⟩]
  seated := by decide
  ends := by decide
  clear := by decide

theorem arrival_order_zeros :
    leftFirst.IsComplete ∧ rightFirst.IsComplete ∧
      (∀ id ∈ ["left", "right"], rightFirst.writes id = leftFirst.writes id) ∧
      (rightFirst.outcome [.humidity] .median).readings.find? .humidity =
        (leftFirst.outcome [.humidity] .median).readings.find? .humidity ∧
      (leftFirst.outcome [.humidity] .min).readings.find? .humidity = some (-0.0) ∧
      (rightFirst.outcome [.humidity] .min).readings.find? .humidity = some 0.0 ∧ Number.Agree 0.0 (-0.0) := by
  have hcomplete : leftFirst.IsComplete := by unfold IsComplete; decide
  have hcomplete' : rightFirst.IsComplete := by unfold IsComplete; decide
  have hwrites : ∀ id ∈ ["left", "right"], rightFirst.writes id = leftFirst.writes id := by decide
  have hsame : ["right", "left"].Perm ["left", "right"] := by decide
  obtain ⟨-, hmedian, hextreme⟩ :=
    leftFirst.arrival_order rightFirst (by decide) hsame hcomplete hcomplete' hwrites [.humidity]
  have hleft : (leftFirst.outcome [.humidity] .min).readings.find? .humidity = some (-0.0) := by
    rw [leftFirst.find?_readings (by decide)]
    rfl
  have hright : (rightFirst.outcome [.humidity] .min).readings.find? .humidity = some 0.0 := by
    rw [rightFirst.find?_readings (by decide)]
    rfl
  exact ⟨hcomplete, hcomplete', hwrites, hmedian _, hleft, hright, hextreme .min (Or.inl rfl) _ _ _ hleft hright⟩

end Schedule

end SensorNode.Cycle
