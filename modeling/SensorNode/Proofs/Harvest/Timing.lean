/-
The timing of a cycle. When its loop has come to its end, every harvest that ends before the deadline has ended and the
others are given up (`Underway.settled`); so the cycle ends with the last harvest or at its deadline, whichever comes first
(`cycle_timing`).
-/
import SensorNode.Proofs.Harvest.Rounds

namespace SensorNode

open HarvestStep (span ending)

namespace Harvesting

variable {fleet₀ fleet : Fleet} {sensors : List Sensor} {now n : Nat} {h : Harvesting}

/-- A cycle that is due and in time has settled every harvest: those that end before the deadline have ended, and the
others are still harvesting, at the deadline. -/
theorem Underway.settled (hu : h.Underway fleet₀ sensors sensors.length now fleet) (ht : h.Timely fleet₀ sensors now)
    (hdue : h.isDue now = true) (hclear : ∀ steps ∈ fleet₀.harvests sensors, span steps ≠ h.deadline) {s : Sensor}
    {steps : List HarvestStep} (hs : sensors[n]? = some s) (hsteps : (fleet₀.harvests sensors)[n]? = some steps) :
    (span steps < h.deadline ∧ span steps ≤ now ∧ h.cycle.seats[n]? = some ⟨s.id, ending steps⟩) ∨
      (h.deadline < span steps ∧ now = h.deadline ∧ h.cycle.seats[n]? = some ⟨s.id, .harvesting⟩) := by
  have hlt : n < sensors.length := (List.getElem?_eq_some_iff.1 hs).1
  have hinTime := ht.inTime
  have hclear := hclear steps (List.mem_of_getElem? hsteps)
  obtain ⟨stage, status, -, hseat, hstands⟩ := hu.seated n s steps hs hsteps
  rw [decide_eq_true hlt] at hstands
  cases hstands with
  | asleep later left same =>
    have hdue := deadline_le_of_harvesting hdue hseat
    refine Or.inr ⟨?_, le_antisymm hinTime hdue, hseat⟩
    omega
  | ended past =>
    refine Or.inl ⟨?_, past, hseat⟩
    omega

/-- the harvests that have returned by then are those that return before the deadline -/
theorem Underway.returned_eq (hu : h.Underway fleet₀ sensors sensors.length now fleet)
    (ht : h.Timely fleet₀ sensors now) (hdue : h.isDue now = true)
    (hclear : ∀ steps ∈ fleet₀.harvests sensors, span steps ≠ h.deadline) (key : Nat) :
    h.returned key = (sensors.zip (fleet₀.harvests sensors)).countP fun x =>
      x.1.instrument = key && ending x.2 = .returned && span x.2 < h.deadline := by
  have hsame : ((h.players.zip h.cycle.seats).map fun x =>
        decide (x.1.sensor.instrument = key) && decide (x.2.status = .returned)) =
      (sensors.zip (fleet₀.harvests sensors)).map fun x =>
        decide (x.1.instrument = key) && decide (ending x.2 = .returned) && decide (span x.2 < h.deadline) := by
    refine List.ext_getElem? fun n => ?_
    rw [List.getElem?_map, List.getElem?_map]
    rcases Nat.lt_or_ge n sensors.length with hn | hn
    · obtain ⟨s, steps, hs, hsteps⟩ := exists_seat fleet₀ hn
      obtain ⟨stage, status, hp, hseat, -⟩ := hu.seated n s steps hs hsteps
      rw [List.getElem?_zip_eq_some (z := (_, _)).2 ⟨hp, hseat⟩, List.getElem?_zip_eq_some (z := (_, _)).2 ⟨hs, hsteps⟩]
      rcases hu.settled ht hdue hclear hs hsteps with ⟨hlt, -, hended⟩ | ⟨hlt, -, hended⟩
      · obtain rfl : status = ending steps := congrArg Seat.status (Option.some.inj (hseat.symm.trans hended))
        simp [hlt]
      · obtain rfl : status = .harvesting := congrArg Seat.status (Option.some.inj (hseat.symm.trans hended))
        simp [Nat.not_lt.2 hlt.le]
    · have hnone : (h.players.zip h.cycle.seats)[n]? = none :=
        List.getElem?_eq_none (by simp [hu.players, hu.seats, hn])
      have hnone' : (sensors.zip (fleet₀.harvests sensors))[n]? = none := List.getElem?_eq_none (by simp [hn])
      rw [hnone, hnone']
      rfl
  have hcount := congrArg (List.countP id) hsame
  rwa [List.countP_map, List.countP_map] at hcount

/-- whether a harvest ends before the deadline, and what that says about the time and the seats -/
theorem Underway.settles (hu : h.Underway fleet₀ sensors sensors.length now fleet) (ht : h.Timely fleet₀ sensors now)
    (hdue : h.isDue now = true) (hclear : ∀ steps ∈ fleet₀.harvests sensors, span steps ≠ h.deadline)
    {steps : List HarvestStep} (hmem : steps ∈ fleet₀.harvests sensors) :
    (span steps < h.deadline ∧ span steps ≤ now) ∨
      (h.deadline < span steps ∧ now = h.deadline ∧ ∃ seat ∈ h.cycle.seats, seat.status = .harvesting) := by
  obtain ⟨n, hsteps⟩ := List.mem_iff_getElem?.1 hmem
  have hlt : n < sensors.length := fleet₀.length_harvests sensors ▸ (List.getElem?_eq_some_iff.1 hsteps).1
  rcases hu.settled ht hdue hclear (List.getElem?_eq_getElem hlt) hsteps with ⟨hearly, hended, -⟩ | ⟨hlate, hnow, hseat⟩
  · exact Or.inl ⟨hearly, hended⟩
  · exact Or.inr ⟨hlate, hnow, _, List.mem_of_getElem? hseat, rfl⟩

/-- somebody is still harvesting exactly when some harvest goes on beyond the deadline -/
theorem Underway.isOver_iff (hu : h.Underway fleet₀ sensors sensors.length now fleet)
    (ht : h.Timely fleet₀ sensors now) (hdue : h.isDue now = true)
    (hclear : ∀ steps ∈ fleet₀.harvests sensors, span steps ≠ h.deadline) :
    h.cycle.isOver = false ↔ ∃ steps ∈ fleet₀.harvests sensors, h.deadline < span steps := by
  have hharvesting : h.cycle.isOver = false ↔ ∃ seat ∈ h.cycle.seats, seat.status = .harvesting := by
    simp [Cycle.isOver]
  rw [hharvesting]
  constructor
  · rintro ⟨seat, hmem, hstatus⟩
    obtain ⟨n, hn⟩ := List.mem_iff_getElem?.1 hmem
    have hlt : n < sensors.length := hu.seats ▸ (List.getElem?_eq_some_iff.1 hn).1
    obtain ⟨s, steps, hs, hsteps⟩ := exists_seat fleet₀ hlt
    rcases hu.settled ht hdue hclear hs hsteps with ⟨-, -, hended⟩ | ⟨hlate, -, -⟩
    · rw [Option.some.inj (hn.symm.trans hended)] at hstatus
      exact absurd hstatus (HarvestStep.ending_ne_harvesting steps)
    · exact ⟨steps, List.mem_of_getElem? hsteps, hlate⟩
  · rintro ⟨steps, hmem, hlate⟩
    rcases hu.settles ht hdue hclear hmem with ⟨hearly, -⟩ | ⟨-, -, hseat⟩
    · exact absurd hlate (Nat.not_lt.2 hearly.le)
    · exact hseat

/-- the time at the end is that of the last harvest, or the deadline -/
theorem Underway.now_eq (hu : h.Underway fleet₀ sensors sensors.length now fleet) (ht : h.Timely fleet₀ sensors now)
    (hdue : h.isDue now = true) (hclear : ∀ steps ∈ fleet₀.harvests sensors, span steps ≠ h.deadline) :
    now = if h.cycle.isOver then latest fleet₀ sensors else h.deadline := by
  have hiff := hu.isOver_iff ht hdue hclear
  split_ifs with hover
  · apply le_antisymm (ht.early (Or.inr hover))
    apply foldl_max_le_iff.2
    intro n hn
    obtain ⟨steps, hmem, rfl⟩ := List.mem_map.1 hn
    rcases hu.settles ht hdue hclear hmem with ⟨-, hended⟩ | ⟨hlate, -, -⟩
    · exact hended
    · exact absurd (hover.symm.trans (hiff.2 ⟨steps, hmem, hlate⟩)) (by decide)
  · obtain ⟨steps, hmem, hlate⟩ := hiff.1 (Bool.eq_false_iff.2 hover)
    rcases hu.settles ht hdue hclear hmem with ⟨hearly, -⟩ | ⟨-, hnow, -⟩
    · exact absurd hlate (Nat.not_lt.2 hearly.le)
    · exact hnow

end Harvesting

/-- a schedule times out exactly when some sensor has no end up to the deadline -/
theorem Cycle.Schedule.timedOut_iff {sources : List String} {deadline : Nat} (s : Schedule sources deadline)
    (metrics : List Metric) (policy : Reduction) :
    (s.outcome metrics policy).timedOut = true ↔
      ∃ n < sources.length, ∀ x ∈ s.moments, x.seat = n → x.event.end?.isSome → deadline < x.time := by
  have hr := s.ready metrics
  have hsources : ((start sources metrics).run s.noticed).seats.map Seat.source = sources := run_sources hr
  have htimed : (s.outcome metrics policy).timedOut = true ↔
      ∃ seat ∈ ((start sources metrics).run s.noticed).seats, seat.status = .harvesting := by
    change (!((start sources metrics).run s.noticed).isOver) = true ↔ _
    simp [isOver]
  rw [htimed]
  constructor
  · rintro ⟨⟨source, status⟩, hmem, rfl⟩
    obtain ⟨n, hn⟩ := List.mem_iff_getElem?.1 hmem
    have hsource : sources[n]? = some source := by
      rw [← hsources, List.getElem?_map, hn]
      rfl
    refine ⟨n, (List.getElem?_eq_some_iff.1 hsource).1, fun x hx hseat hend => ?_⟩
    by_contra hle
    obtain ⟨status, he⟩ := Option.isSome_iff_exists.1 hend
    have hnoticed : (x.seat, x.event) ∈ s.noticed :=
      List.mem_map.2 ⟨x, List.mem_filter.2 ⟨hx, by simp [Moment.isNoticed, Nat.not_lt.1 hle]⟩, rfl⟩
    have hended := (run_ended hr n source status (end?_ne_harvesting he)).2
      (Or.inr ⟨by rw [start_seat, hsource]; rfl, _, hnoticed, hseat, he⟩)
    have hstatus := congrArg Seat.status (Option.some.inj (hn.symm.trans hended))
    exact end?_ne_harvesting he hstatus.symm
  · rintro ⟨n, hn, hlate⟩
    have hlt : n < ((start sources metrics).run s.noticed).seats.length := by
      rw [← List.length_map (f := Seat.source), hsources]
      exact hn
    refine ⟨_, List.getElem_mem hlt, ?_⟩
    by_contra hstatus
    have hseat := List.getElem?_eq_getElem hlt
    rcases (run_ended hr n _ _ hstatus).1 hseat with hended | ⟨-, x, hx, hxn, he⟩
    · rw [start_seat, List.getElem?_eq_getElem hn] at hended
      exact hstatus (congrArg Seat.status (Option.some.inj hended)).symm
    · obtain ⟨y, hy, rfl⟩ := List.mem_map.1 hx
      obtain ⟨hmem, hseen⟩ := List.mem_filter.1 hy
      have hsome : y.event.end?.isSome := by rw [he]; rfl
      have hle : y.time ≤ deadline := by simpa [Moment.isNoticed, he] using hseen
      exact absurd (hlate y hmem hxn hsome) (Nat.not_lt.2 hle)

/-! ## Timing -/

/-- **Cycle timing.** Take any sensors, instruments that play anything, and a time to wait, with no harvest that ends just
then. The loop of the cycle comes to its end, however many more rounds it could have; the cycle times out exactly when
some harvest has neither returned nor died before the deadline, however long it would go on; it takes until the deadline
when it times out, and else until the last harvest has ended; every sensor is dispatched; and the harvests that have run
to their end are those that return before the deadline, and no others. Schedules may have sensors that never end: a cycle
that follows one times out exactly when some sensor has no end up to the deadline. -/
theorem cycle_timing (fleet : Fleet) (sensors : List Sensor) (metrics : List Metric) (timeout : Duration)
    (policy : Reduction) (hpos : 0 < timeout.millis)
    (hclear : ∀ steps ∈ fleet.harvests sensors, span steps ≠ timeout.millis) :
    (∃ h : Harvesting, h.isDue (runCycle fleet sensors metrics timeout policy).2.1 = true ∧
      h.cycle.outcome policy = (runCycle fleet sensors metrics timeout policy).1 ∧
      ∀ rounds ≥ (sensors.length + 1) * (fleet.longest + 2),
        Harvesting.finish rounds (Harvesting.start sensors metrics 0 timeout) 0 fleet =
          (h, (runCycle fleet sensors metrics timeout policy).2)) ∧
    ((runCycle fleet sensors metrics timeout policy).1.timedOut = true ↔
      ∃ steps ∈ fleet.harvests sensors, timeout.millis < span steps) ∧
    (runCycle fleet sensors metrics timeout policy).2.1 =
      (if (runCycle fleet sensors metrics timeout policy).1.timedOut then timeout.millis
        else ((fleet.harvests sensors).map span).foldl max 0) ∧
    (runCycle fleet sensors metrics timeout policy).1.dispatched = sensors.length ∧
    (∀ key : Nat, ((runCycle fleet sensors metrics timeout policy).2.2[key]?).map Instrument.finished =
      ((fleet[key]?).map Instrument.finished).map (· + (sensors.zip (fleet.harvests sensors)).countP fun x =>
        x.1.instrument = key && ending x.2 = .returned && span x.2 < timeout.millis)) ∧
    ∀ (sources : List String) (deadline : Nat) (s : Cycle.Schedule sources deadline),
      ((s.outcome metrics policy).timedOut = true ↔
        ∃ n < sources.length, ∀ x ∈ s.moments, x.seat = n → x.event.end?.isSome → deadline < x.time) ∧
      (s.outcome metrics policy).dispatched = sources.length := by
  obtain ⟨h, now, after, hrun, hdeadline, hu, ht, hdue⟩ := Harvesting.start_finish fleet sensors metrics hpos
  rw [← hdeadline] at hclear ⊢
  have hcycle : runCycle fleet sensors metrics timeout policy = (h.cycle.outcome policy, now, after) := by
    rw [runCycle, ← Fleet.longest]
    simp only [hrun _ le_rfl]
  have htimed : (h.cycle.outcome policy).timedOut = true ↔
      ∃ steps ∈ fleet.harvests sensors, h.deadline < span steps := by
    rw [← hu.isOver_iff ht hdue hclear]
    simp [Cycle.outcome]
  rw [hcycle]
  refine ⟨⟨h, hdue, rfl, hrun⟩, htimed, ?_, hu.seats, fun key => ?_, fun sources deadline s => ⟨?_, ?_⟩⟩
  · calc now = if h.cycle.isOver then Harvesting.latest fleet sensors else h.deadline := hu.now_eq ht hdue hclear
      _ = if !h.cycle.isOver then h.deadline else Harvesting.latest fleet sensors := by
        cases h.cycle.isOver <;> rfl
  · rw [hu.finished key, hu.returned_eq ht hdue hclear key]
  · exact s.timedOut_iff metrics policy
  · calc (s.outcome metrics policy).dispatched
        = (((Cycle.start sources metrics).run s.noticed).seats.map Seat.source).length :=
          (List.length_map Seat.source).symm
      _ = sources.length := by rw [Cycle.run_sources (s.ready metrics)]

/-- one instrument returns, one goes on beyond the deadline, and one dies -/
def Fleet.mixed : Fleet :=
  [.scripted ⟨0, "prompt", [.humidity]⟩ [[.sleep ⟨10⟩, .write .humidity ⟨0x4044000000000000⟩]] false false true,
    .scripted ⟨1, "stalled", []⟩ [[.sleep ⟨20⟩, .sleep ⟨1480⟩]] false false true,
    .scripted ⟨2, "broken", []⟩ [[.sleep ⟨30⟩, .die]] false false true]

theorem cycle_timing_mixed :
    (∀ steps ∈ Fleet.mixed.harvests (Fleet.mixed.map Instrument.sensor), span steps ≠ 1000) ∧
      (runCycle Fleet.mixed (Fleet.mixed.map Instrument.sensor) [.humidity] ⟨1000⟩ .mean).1.timedOut = true ∧
      (runCycle Fleet.mixed (Fleet.mixed.map Instrument.sensor) [.humidity] ⟨1000⟩ .mean).2.1 = 1000 ∧
      (runCycle Fleet.mixed (Fleet.mixed.map Instrument.sensor) [.humidity] ⟨1000⟩ .mean).1.dispatched = 3 ∧
      ((runCycle Fleet.mixed (Fleet.mixed.map Instrument.sensor) [.humidity] ⟨1000⟩ .mean).2.2[1]?).map
        Instrument.finished = some 0 := by
  have hharvests : Fleet.mixed.harvests (Fleet.mixed.map Instrument.sensor) =
      [[.sleep ⟨10⟩, .write .humidity ⟨0x4044000000000000⟩], [.sleep ⟨20⟩, .sleep ⟨1480⟩], [.sleep ⟨30⟩, .die]] := rfl
  have hclear : ∀ steps ∈ Fleet.mixed.harvests (Fleet.mixed.map Instrument.sensor), span steps ≠ 1000 := by
    simp [hharvests, span]
  obtain ⟨-, htimed, helapsed, hdispatched, hfinished, -⟩ :=
    cycle_timing Fleet.mixed (Fleet.mixed.map Instrument.sensor) [.humidity] ⟨1000⟩ .mean (by decide) hclear
  have hlate := htimed.2 ⟨[.sleep ⟨20⟩, .sleep ⟨1480⟩], by simp [hharvests], by decide⟩
  rw [if_pos hlate] at helapsed
  refine ⟨hclear, hlate, helapsed, hdispatched, ?_⟩
  rw [hfinished 1, hharvests]
  rfl

end SensorNode
