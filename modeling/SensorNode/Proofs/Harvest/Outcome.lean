/-
What a harvest cycle comes to, for every schedule of its sensors. A metric has a reading exactly when it was requested
and a sensor that completed has written a finite value to it; the reading is made of the finite values that completed
sensors have written, in their order; the errors are those that were reported, by whomever.
-/
import SensorNode.Proofs.Harvest.Schedule

namespace SensorNode.Cycle

/-! ## Runs of events -/

/-- Every sensor of `events` is harvesting, and none acts after its end. This is what makes each event take place. -/
structure Ready (sources : List String) (c : Cycle) (events : List (Nat × Event)) : Prop where
  sources : c.seats.map Seat.source = sources
  harvesting : ∀ x ∈ events, ∃ source, c.seats[x.1]? = some ⟨source, .harvesting⟩
  ends : events.Pairwise fun x y => x.2.end?.isSome → x.1 ≠ y.1

theorem Ready.source {sources : List String} {c : Cycle} {events : List (Nat × Event)} (h : Ready sources c events)
    {n : Nat} {seat : Seat} (hs : c.seats[n]? = some seat) : sources[n]? = some seat.source := by
  rw [← h.sources, List.getElem?_map, hs]
  rfl

theorem Ready.step {sources : List String} {c : Cycle} {x : Nat × Event} {events : List (Nat × Event)}
    (h : Ready sources c (x :: events)) : Ready sources (c.apply x.1 x.2) events := by
  obtain ⟨source, hx⟩ := h.harvesting x List.mem_cons_self
  have hends := List.pairwise_cons.1 h.ends
  have hseats := apply_seats c x.1 x.2 source hx
  refine ⟨?_, ?_, hends.2⟩
  · rw [hseats]
    cases x.2.end? with
    | none => exact h.sources
    | some status =>
      -- the seat keeps its sensor
      have hlt : x.1 < c.seats.length := (List.getElem?_eq_some_iff.1 hx).1
      rw [← h.sources]
      refine List.ext_getElem? fun n => ?_
      simp only [List.getElem?_map, List.getElem?_set]
      split_ifs with hn
      · subst hn
        rw [hx]
        rfl
      · rfl
  · intro y hy
    obtain ⟨other, hother⟩ := h.harvesting y (List.mem_cons_of_mem x hy)
    refine ⟨other, ?_⟩
    rw [hseats]
    cases he : x.2.end? with
    | none => exact hother
    | some status =>
      have hne : x.1 ≠ y.1 := hends.1 y hy (by rw [he]; rfl)
      rw [← hother]
      exact List.getElem?_set_ne hne

theorem run_cons (c : Cycle) (x : Nat × Event) (events : List (Nat × Event)) :
    c.run (x :: events) = (c.apply x.1 x.2).run events := rfl

theorem apply_wants (c : Cycle) (n : Nat) (event : Event) (source : String) (m : Metric)
    (h : c.seats[n]? = some ⟨source, .harvesting⟩) : (c.apply n event).pipe.wants m = c.pipe.wants m := by
  simp only [Pipe.wants, Keyed.contains, apply_find? c n event source m h, Option.isSome_map]

/-- the results of a run that its pipe takes for `m` -/
def results (sources : List String) (m : Metric) (events : List (Nat × Event)) : List ReadingResult :=
  events.filterMap fun x => (sources[x.1]?).bind fun source => (x.2.sampleFor m).map (ReadingResult.mk source)

theorem run_find? {sources : List String} {c : Cycle} {events : List (Nat × Event)} (h : Ready sources c events)
    (m : Metric) :
    (c.run events).pipe.queues.find? m = (c.pipe.queues.find? m).map (· ++ results sources m events) := by
  induction events generalizing c with
  | nil => simp [run, results]
  | cons x events ih =>
    obtain ⟨source, hx⟩ := h.harvesting x List.mem_cons_self
    have hs := h.source hx
    rw [run_cons, ih h.step, apply_find? c x.1 x.2 source m hx, Option.map_map]
    congr 1
    funext queue
    simp only [Function.comp, results, List.filterMap_cons, hs, Option.bind_some]
    cases x.2.sampleFor m <;> simp

theorem run_errors {sources : List String} {c : Cycle} {events : List (Nat × Event)} (h : Ready sources c events)
    (requested : List Metric) (hw : ∀ m, c.pipe.wants m = true ↔ m ∈ requested) :
    (c.run events).pipe.errors =
      c.pipe.errors ++
        events.filterMap fun x => (sources[x.1]?).bind fun source => x.2.error? requested source := by
  induction events generalizing c with
  | nil => simp [run]
  | cons x events ih =>
    obtain ⟨source, hx⟩ := h.harvesting x List.mem_cons_self
    have hs := h.source hx
    rw [run_cons, ih h.step fun m => by rw [apply_wants c x.1 x.2 source m hx]; exact hw m,
      apply_errors c x.1 x.2 source requested hx hw]
    simp only [List.filterMap_cons, hs, Option.bind_some]
    cases x.2.error? requested source <;> simp

theorem run_sources {sources : List String} {c : Cycle} {events : List (Nat × Event)} (h : Ready sources c events) :
    (c.run events).seats.map Seat.source = sources := by
  induction events generalizing c with
  | nil => exact h.sources
  | cons x events ih => rw [run_cons]; exact ih h.step

theorem end?_ne_harvesting {event : Event} {status : Seat.Status} (h : event.end? = some status) :
    status ≠ .harvesting := by
  rintro rfl
  cases event <;> simp [Event.end?] at h

/-- a seat is left ended exactly when its sensor was harvesting and then ended so, or had ended so before -/
theorem run_ended {sources : List String} {c : Cycle} {events : List (Nat × Event)} (h : Ready sources c events)
    (n : Nat) (source : String) (status : Seat.Status) (hstatus : status ≠ .harvesting) :
    (c.run events).seats[n]? = some ⟨source, status⟩ ↔
      c.seats[n]? = some ⟨source, status⟩ ∨
        (c.seats[n]? = some ⟨source, .harvesting⟩ ∧ ∃ x ∈ events, x.1 = n ∧ x.2.end? = some status) := by
  induction events generalizing c with
  | nil => simp [run]
  | cons x events ih =>
    obtain ⟨other, hx⟩ := h.harvesting x List.mem_cons_self
    have hends := (List.pairwise_cons.1 h.ends).1
    rw [run_cons, ih h.step, apply_seats c x.1 x.2 other hx]
    cases he : x.2.end? with
    | none => simp [he]
    | some last =>
      by_cases hn : x.1 = n
      · subst hn
        have hlt : x.1 < c.seats.length := (List.getElem?_eq_some_iff.1 hx).1
        have hlast : ¬∃ y ∈ events, y.1 = x.1 ∧ y.2.end? = some status := by
          rintro ⟨y, hy, hyx, -⟩
          exact hends y hy (by rw [he]; rfl) hyx.symm
        have hfirst : (∃ y ∈ x :: events, y.1 = x.1 ∧ y.2.end? = some status) ↔ last = status := by
          simp [he, hlast]
        have hnot : ¬Seat.Status.harvesting = status := fun hs => hstatus hs.symm
        simp only [List.getElem?_set_self hlt, hlast, and_false, or_false, hfirst, hx, Option.some.injEq,
          Seat.mk.injEq, hnot, and_true, false_or]
      · simp [List.getElem?_set_ne hn, he, hn]

/-! ## The start of a cycle -/

theorem ofMetrics_find? (metrics : List Metric) (m : Metric) :
    (Pipe.ofMetrics metrics).queues.find? m = if m ∈ metrics then some [] else none := by
  have fold : ∀ (metrics : List Metric) (queues : Keyed Metric (List ReadingResult)),
      (metrics.foldl (fun queues m => if queues.contains m then queues else queues.insert m []) queues).find? m =
        if m ∈ metrics then some ((queues.find? m).getD []) else queues.find? m := by
    intro metrics
    induction metrics with
    | nil => simp
    | cons k metrics ih =>
      intro queues
      rw [List.foldl_cons, ih]
      by_cases hk : queues.contains k = true
      · simp only [hk, if_true, List.mem_cons]
        by_cases hm : m = k
        · subst hm
          obtain ⟨queue, hq⟩ := Option.isSome_iff_exists.1 hk
          simp [hq]
        · simp [hm]
      · have hnone : queues.find? k = none := by simpa [Keyed.contains] using hk
        simp only [hk, Bool.false_eq_true, if_false, Keyed.find?_insert, List.mem_cons]
        by_cases hm : m = k
        · subst hm
          simp [hnone]
        · simp [hm]
  simpa [Pipe.ofMetrics] using fold metrics ∅

theorem start_wants (sources : List String) (metrics : List Metric) (m : Metric) :
    (start sources metrics).pipe.wants m = true ↔ m ∈ metrics := by
  simp only [start, Pipe.wants, Keyed.contains, ofMetrics_find?]
  split_ifs with hm <;> simp [hm]

theorem start_seat (sources : List String) (metrics : List Metric) (n : Nat) :
    (start sources metrics).seats[n]? = (sources[n]?).map fun source => ⟨source, .harvesting⟩ := by
  simp [start]

/-! ## Schedules -/

namespace Schedule

variable {sources : List String} {deadline : Nat}

/-- the events of a schedule that take effect -/
def noticed (s : Schedule sources deadline) : List (Nat × Event) :=
  (s.moments.filter (·.isNoticed deadline)).map fun x => (x.seat, x.event)

theorem ready (s : Schedule sources deadline) (metrics : List Metric) :
    Ready sources (start sources metrics) s.noticed where
  sources := by simp [start, Function.comp_def]
  harvesting := by
    intro x hx
    obtain ⟨y, hy, rfl⟩ := List.mem_map.1 hx
    have hlt := s.seated y (List.mem_filter.1 hy).1
    exact ⟨sources[y.seat], by rw [start_seat, List.getElem?_eq_getElem hlt]; rfl⟩
  ends := List.pairwise_map.2 (s.ends.filter _)

theorem noticed_of_not_end {x : Moment} (h : x.event.end? = none) : x.isNoticed deadline = true := by
  simp [Moment.isNoticed, h]

/-- what is made of events that end no harvest is made of all moments alike -/
theorem filterMap_noticed {α : Type} (s : Schedule sources deadline) (f : Nat × Event → Option α)
    (hf : ∀ x, x.2.end?.isSome → f x = none) :
    s.noticed.filterMap f = s.moments.filterMap fun x => f (x.seat, x.event) := by
  rw [noticed, List.filterMap_map, List.filterMap_filter]
  refine List.filterMap_congr fun x _ => ?_
  cases he : x.event.end? with
  | none => rw [if_pos (noticed_of_not_end he)]; rfl
  | some status =>
    have : f (x.seat, x.event) = none := hf _ (by rw [he]; rfl)
    simp [this]

theorem completes_iff (s : Schedule sources deadline) (n : Nat) :
    s.completes n = true ↔ ∃ x ∈ s.noticed, x.1 = n ∧ x.2.end? = some .returned := by
  simp only [completes, List.any_eq_true, Bool.and_eq_true, decide_eq_true_eq, noticed, List.mem_map,
    List.mem_filter]
  constructor
  · rintro ⟨x, hx, ⟨hn, he⟩, ht⟩
    exact ⟨_, ⟨x, ⟨hx, by simp [Moment.isNoticed, ht.le]⟩, rfl⟩, hn, he⟩
  · rintro ⟨_, ⟨x, ⟨hx, hseen⟩, rfl⟩, hn, he⟩
    have hle : x.time ≤ deadline := by simpa [Moment.isNoticed, he] using hseen
    have hne := s.clear x hx (by rw [he]; rfl)
    exact ⟨x, hx, ⟨hn, he⟩, lt_of_le_of_ne hle hne⟩

/-- with distinct sensors, a sensor is among the completed ones exactly when its seat completes -/
theorem mem_completed (s : Schedule sources deadline) (distinct : sources.Nodup) (metrics : List Metric) (n : Nat)
    (source : String) (hn : sources[n]? = some source) :
    source ∈ ((start sources metrics).follow deadline s.moments).completed ↔ s.completes n = true := by
  have hr := s.ready metrics
  change source ∈ ((start sources metrics).run s.noticed).completed ↔ _
  have hsources := run_sources hr
  rw [completes_iff]
  simp only [completed, List.mem_map, List.mem_filter, decide_eq_true_eq]
  constructor
  · rintro ⟨seat, ⟨hseat, hreturned⟩, rfl⟩
    obtain ⟨k, hk⟩ := List.mem_iff_getElem?.1 hseat
    have hks : sources[k]? = some seat.source := by rw [← hsources, List.getElem?_map, hk]; rfl
    have hkn : k = n := (List.getElem?_inj (List.getElem?_eq_some_iff.1 hks).1 distinct).1 (hks.trans hn.symm)
    subst hkn
    have := (run_ended hr k seat.source .returned (by decide)).1 (by rw [hk, ← hreturned])
    rw [start_seat, hn] at this
    simpa using this
  · intro hc
    have := (run_ended hr n source .returned (by decide)).2 (Or.inr ⟨by rw [start_seat, hn]; rfl, hc⟩)
    exact ⟨⟨source, .returned⟩, ⟨List.mem_iff_getElem?.2 ⟨n, this⟩, rfl⟩, rfl⟩

/-- the samples that count in the queue of `m` are the finite values that completed sensors have written -/
theorem counted_results (s : Schedule sources deadline) (distinct : sources.Nodup) (metrics : List Metric)
    (m : Metric) :
    ((start sources metrics).follow deadline s.moments).counted (results sources m s.noticed) = s.written m := by
  have hends : ∀ x : Nat × Event, x.2.end?.isSome → x.2.sampleFor m = none := by
    rintro ⟨n, event⟩ he
    cases event <;> first | rfl | simp [Event.end?] at he
  have hresults : results sources m s.noticed = s.moments.filterMap fun x =>
      (sources[x.seat]?).bind fun source => (x.event.sampleFor m).map (ReadingResult.mk source) :=
    s.filterMap_noticed _ fun x he => by rw [hends x he]; cases sources[x.1]? <;> rfl
  rw [hresults, counted, List.filter_filterMap, List.map_filterMap, written]
  refine List.filterMap_congr fun x hx => ?_
  obtain ⟨source, hsource⟩ : ∃ source, sources[x.seat]? = some source :=
    ⟨_, List.getElem?_eq_getElem (s.seated x hx)⟩
  have hmem := s.mem_completed distinct metrics x.seat source hsource
  rw [hsource, Option.bind_some]
  cases x.event.sampleFor m with
  | none => simp
  | some v =>
    by_cases hc : s.completes x.seat = true
    · simp [hc, hmem.2 hc]
    · simp [hc, mt hmem.1 hc]

/-- the reading of a requested metric is made of what the completed sensors have written to it -/
theorem find?_readings (s : Schedule sources deadline) (distinct : sources.Nodup) (metrics : List Metric)
    (policy : Reduction) (m : Metric) :
    (s.outcome metrics policy).readings.find? m = if m ∈ metrics then policy.reduce (s.written m) else none := by
  have hqueue : ((start sources metrics).follow deadline s.moments).pipe.queues.find? m =
      if m ∈ metrics then some (results sources m s.noticed) else none := by
    change ((start sources metrics).run s.noticed).pipe.queues.find? m = _
    rw [run_find? (s.ready metrics), start, ofMetrics_find?]
    split_ifs <;> simp
  simp only [Schedule.outcome, Cycle.outcome, readings, Keyed.find?_filterMapValues, hqueue]
  split_ifs
  · rw [Option.bind_some, s.counted_results distinct metrics m]
  · rfl

theorem mem_written (s : Schedule sources deadline) (m : Metric) (v : Sample) :
    v ∈ s.written m ↔ ∃ x ∈ s.moments, s.completes x.seat = true ∧ x.event.sampleFor m = some v := by
  simp only [written, List.mem_filterMap]
  refine exists_congr fun x => and_congr_right fun _ => ?_
  split_ifs with hc <;> simp [hc]

theorem errors_outcome (s : Schedule sources deadline) (metrics : List Metric) (policy : Reduction) :
    (s.outcome metrics policy).errors = s.reported metrics := by
  change ((start sources metrics).run s.noticed).pipe.errors = _
  rw [run_errors (s.ready metrics) metrics fun m => start_wants sources metrics m]
  rw [s.filterMap_noticed]
  · rfl
  · rintro ⟨n, event⟩ he
    cases event <;> first | (cases sources[n]? <;> rfl) | simp [Event.end?] at he

end Schedule

end SensorNode.Cycle
