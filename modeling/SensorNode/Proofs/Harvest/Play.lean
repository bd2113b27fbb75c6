/-
What the players of a cycle play. Each harvest by itself is a list of events, every one at its time (`HarvestStep.timed`);
the loop of a cycle plays each harvest as far as it goes before the deadline, and all of them by the clock
(`Played.finish`). So a cycle follows the schedule that its instruments play (`runCycle_follows`), and what holds of
schedules holds of it.
-/
import SensorNode.Proofs.Harvest.Outcome
import SensorNode.Proofs.Harvest.Rounds

namespace SensorNode

/-! ## One harvest -/

namespace HarvestStep

/-- what a sensor does that plays these steps from this time on, each event with its time -/
def timed : Nat → List HarvestStep → List (Nat × Cycle.Event)
  | now, [] => [(now, .returned)]
  | now, .sleep time :: rest => timed (now + time.millis) rest
  | now, .write m s :: rest => (now, .write m s) :: timed now rest
  | now, .writeIfWanted m s :: rest => (now, .writeIfWanted m s) :: timed now rest
  | now, .fail m message :: rest => (now, .fail m message) :: timed now rest
  | now, .die :: _ => [(now, .died)]

theorem timed_from (now : Nat) (steps : List HarvestStep) : ∀ x ∈ timed now steps, now ≤ x.1 := by
  induction steps generalizing now with
  | nil => exact List.forall_mem_singleton.2 le_rfl
  | cons step rest ih =>
    cases step with
    | sleep time => exact fun x hx => (Nat.le_add_right now time.millis).trans (ih _ x hx)
    | die => exact List.forall_mem_singleton.2 le_rfl
    | _ => exact List.forall_mem_cons.2 ⟨le_rfl, ih now⟩

/-- only the last event is an end -/
theorem timed_ends (now : Nat) (steps : List HarvestStep) : (timed now steps).Pairwise fun x _ => x.2.end? = none := by
  induction steps generalizing now with
  | nil => exact List.pairwise_singleton _ _
  | cons step rest ih =>
    cases step with
    | sleep time => exact ih _
    | die => exact List.pairwise_singleton _ _
    | _ => exact List.pairwise_cons.2 ⟨fun _ _ => rfl, ih now⟩

end HarvestStep

open HarvestStep (timed)

/-- what a player has yet to play of its harvest -/
def Player.Stage.left (steps : List HarvestStep) : Player.Stage → List (Nat × Cycle.Event)
  | .fresh => timed 0 steps
  | .playing rest wake => timed wake rest
  | .over => []

/-- a turn plays events now and leaves the others for later -/
theorem Player.play_timed (now n : Nat) (harvest steps : List HarvestStep) (c : Cycle) :
    (Engine.eventsOf n steps).map (fun x => (now, x.2)) ++ (play now n steps c).2.left harvest = timed now steps := by
  induction steps generalizing c with
  | nil => rfl
  | cons step rest ih =>
    cases step with
    | sleep time => rfl
    | write m s => exact congrArg ((now, _) :: ·) (ih _)
    | writeIfWanted m s => exact congrArg ((now, _) :: ·) (ih _)
    | fail m message => exact congrArg ((now, _) :: ·) (ih _)
    | die => rfl

/-! ## Schedules that are played -/

namespace Cycle

/-- what the sensor in seat `n` does in the course of these moments -/
def ofSeat (n : Nat) (moments : List Moment) : List (Nat × Event) :=
  (moments.filter (·.seat = n)).map fun x => (x.time, x.event)

/-- The schedule is what these sensors play: each one its own harvest, as far as it goes before the deadline, and all of
them by the clock. Who comes first of those at the same time is left open. -/
structure Schedule.IsPlayed (fleet : Fleet) (sensors : List Sensor) {sources : List String} {deadline : Nat}
    (s : Schedule sources deadline) : Prop where
  ordered : s.moments.Pairwise fun x y => x.time ≤ y.time
  own : ∀ (n : Nat) (steps : List HarvestStep), (fleet.harvests sensors)[n]? = some steps →
    ofSeat n s.moments = (timed 0 steps).filter (·.1 < deadline)

theorem ofSeat_append (n : Nat) (moments moments' : List Moment) :
    ofSeat n (moments ++ moments') = ofSeat n moments ++ ofSeat n moments' := by
  simp [ofSeat]

/-- what one sensor does now is done in its seat and in no other -/
theorem ofSeat_now {events : List (Nat × Event)} {n : Nat} (h : ∀ x ∈ events, x.1 = n) (now m : Nat) :
    ofSeat m (events.map fun x => ⟨now, x.1, x.2⟩) = if m = n then events.map fun x => (now, x.2) else [] := by
  have hmap : ofSeat m (events.map fun x => ⟨now, x.1, x.2⟩) = (events.filter (·.1 = m)).map fun x => (now, x.2) := by
    simp [ofSeat, List.filter_map, Function.comp_def]
  rw [hmap]
  split_ifs with hm
  · rw [List.filter_eq_self.2 fun x hx => decide_eq_true ((h x hx).trans hm.symm)]
  · rw [List.filter_eq_nil_iff.2 fun x hx hseat => hm ((of_decide_eq_true hseat).symm.trans (h x hx)), List.map_nil]

end Cycle

/-! ## The loop -/

namespace Harvesting

open SensorNode.Cycle (Moment ofSeat)

/-- The cycle has come about by these moments, all of them past and before the deadline; and what its players have yet to
play is what is left of their harvests. -/
structure Played (fleet₀ : Fleet) (sensors : List Sensor) (metrics : List Metric) (now : Nat) (moments : List Moment)
    (h : Harvesting) : Prop where
  cycle : h.cycle = (Cycle.start (sensors.map Sensor.id) metrics).run (moments.map fun x => (x.seat, x.event))
  seated : ∀ x ∈ moments, x.seat < sensors.length
  ordered : moments.Pairwise fun x y => x.time ≤ y.time
  past : ∀ x ∈ moments, x.time ≤ now ∧ x.time < h.deadline
  own : ∀ (n : Nat) (p : Player) (steps : List HarvestStep), h.players[n]? = some p →
    (fleet₀.harvests sensors)[n]? = some steps → ofSeat n moments ++ p.stage.left steps = timed 0 steps

variable {fleet₀ fleet : Fleet} {sensors : List Sensor} {metrics : List Metric} {b now n : Nat} {moments : List Moment}
  {h : Harvesting}

theorem start_played (fleet : Fleet) (sensors : List Sensor) (metrics : List Metric) (timeout : Duration) :
    (start sensors metrics 0 timeout).Played fleet sensors metrics 0 [] where
  cycle := rfl
  seated := List.forall_mem_nil _
  ordered := List.Pairwise.nil
  past := List.forall_mem_nil _
  own n p steps hp _ := by
    simp only [start, List.getElem?_map, Option.map_eq_some_iff] at hp
    obtain ⟨s, -, rfl⟩ := hp
    rfl

/-- a player that can go on goes on with what it has yet to play, and is in time for it -/
theorem Underway.timed_steps (hu : h.Underway fleet₀ sensors b now fleet) (hn : n < sensors.length) (hnb : n ≤ b)
    {p : Player} {steps : List HarvestStep} (hp : h.players[n]? = some p)
    (hsteps : (fleet₀.harvests sensors)[n]? = some steps) (hready : p.isReady now = true) :
    timed now (p.steps fleet) = p.stage.left steps := by
  have hs := List.getElem?_eq_getElem hn
  obtain ⟨stage, status, hp', -, hstands⟩ := hu.seated n _ steps hs hsteps
  obtain rfl := Option.some.inj (hp'.symm.trans hp)
  generalize hbegun : decide (n < b) = begun at hstands
  cases hstands with
  | fresh =>
    obtain rfl : n = b := le_antisymm hnb (Nat.le_of_not_lt (of_decide_eq_false hbegun))
    obtain rfl := hu.prompt hn
    exact congrArg (timed 0) (hu.next hs hsteps).1
  | @asleep rest wake later =>
    obtain rfl : now = wake := le_antisymm later (of_decide_eq_true hready)
    rfl
  | ended => exact absurd hready Bool.false_ne_true

/-- When the next player begins or one that has begun goes on, its events are the next moments. -/
theorem Played.play (hp : h.Played fleet₀ sensors metrics now moments) (hu : h.Underway fleet₀ sensors b now fleet)
    (hn : n < sensors.length) (hnb : n ≤ b) (hnow : now < h.deadline) :
    (h.play now n fleet).1.Played fleet₀ sensors metrics now
      (moments ++ (h.events now n fleet).map fun x => ⟨now, x.1, x.2⟩) := by
  have hseat := h.events_seat now n fleet
  refine ⟨?_, ?_, ?_, ?_, fun m p steps hm hsteps => ?_⟩
  · rw [play_cycle, hp.cycle]
    simp [Cycle.run, Function.comp_def]
  · refine List.forall_mem_append.2 ⟨hp.seated, List.forall_mem_map.2 fun x hx => ?_⟩
    exact (hseat x hx).symm ▸ hn
  · refine List.pairwise_append.2 ⟨hp.ordered, List.pairwise_map.2 (List.pairwise_of_forall fun _ _ => le_rfl), ?_⟩
    intro x hx y hy
    obtain ⟨e, -, rfl⟩ := List.mem_map.1 hy
    exact (hp.past x hx).1
  · rw [play_deadline]
    exact List.forall_mem_append.2 ⟨hp.past, List.forall_mem_map.2 fun _ _ => ⟨le_rfl, hnow⟩⟩
  · rw [Cycle.ofSeat_append, Cycle.ofSeat_now hseat]
    split_ifs with hmn
    · subst hmn
      have hlt : m < h.players.length := hu.players ▸ hn
      have hold := hp.own m _ steps (List.getElem?_eq_getElem hlt) hsteps
      generalize hget : h.players[m] = old at hold
      have hat : h.players[m]? = some old := hget ▸ List.getElem?_eq_getElem hlt
      by_cases hready : old.isReady now = true
      · rw [play_of_ready hat hready] at hm
        obtain rfl := Option.some.inj ((List.getElem?_set_self hlt).symm.trans hm)
        simp only [events, hat, hready, if_true]
        rw [List.append_assoc, Player.play_timed, hu.timed_steps hn hnb hat hsteps hready, hold]
      · rw [play_of_not_ready hat (Bool.eq_false_iff.2 hready)] at hm
        obtain rfl := Option.some.inj (hat.symm.trans hm)
        simpa [events, hat, hready] using hold
    · rw [play_players_of_ne hmn] at hm
      rw [List.append_nil, hp.own m p steps hm hsteps]

theorem Played.round (hp : h.Played fleet₀ sensors metrics now moments) (hu : h.Underway fleet₀ sensors b now fleet)
    (hnow : now < h.deadline) (k : Nat) (hk : k ≤ sensors.length) :
    ∀ r, r = (List.range k).foldl (fun (r : Harvesting × Fleet) n => r.1.play now n r.2) (h, fleet) →
      r.1.deadline = h.deadline ∧ ∃ moments, r.1.Played fleet₀ sensors metrics now moments := by
  induction k with
  | zero =>
    rintro r rfl
    exact ⟨rfl, moments, hp⟩
  | succ k ih =>
    rintro r rfl
    rw [List.range_succ, List.foldl_append, List.foldl_cons, List.foldl_nil]
    obtain ⟨hdeadline, moments, hp'⟩ := ih (Nat.le_of_succ_le hk) _ rfl
    obtain ⟨hu', -⟩ := hu.round k (Nat.le_of_succ_le hk) _ rfl
    refine ⟨(play_deadline _ _ _ _).trans hdeadline, _, hp'.play hu' hk (le_max_right b k) ?_⟩
    rwa [hdeadline]

theorem Played.playAll (hp : h.Played fleet₀ sensors metrics now moments) (hu : h.Underway fleet₀ sensors b now fleet)
    (hnow : now < h.deadline) : ∃ moments, (h.playAll now fleet).1.Played fleet₀ sensors metrics now moments :=
  (hp.round hu hnow sensors.length le_rfl (h.playAll now fleet) (by rw [Harvesting.playAll, hu.players])).2

theorem Played.later (hp : h.Played fleet₀ sensors metrics now moments) {now' : Nat} (hle : now ≤ now') :
    h.Played fleet₀ sensors metrics now' moments :=
  ⟨hp.cycle, hp.seated, hp.ordered, fun x hx => (hp.past x hx).imp_left (le_trans · hle), hp.own⟩

/-- the loop plays by the clock, however many rounds it has -/
theorem Played.finish (fuel : Nat) (hp : h.Played fleet₀ sensors metrics now moments)
    (hu : h.Underway fleet₀ sensors b now fleet) (hb : b ≤ sensors.length) :
    ∀ r, r = Harvesting.finish fuel h now fleet → ∃ moments, r.1.Played fleet₀ sensors metrics r.2.1 moments := by
  induction fuel generalizing h now fleet b moments with
  | zero =>
    rintro r rfl
    exact ⟨moments, hp⟩
  | succ fuel ih =>
    rintro r rfl
    rw [Harvesting.finish]
    by_cases hdue : h.isDue now = true
    · rw [if_pos hdue]
      exact ⟨moments, hp⟩
    · rw [if_neg hdue]
      have hnow : now < h.deadline := by
        simp only [isDue, Bool.or_eq_true, decide_eq_true_eq, not_or, not_le] at hdue
        exact hdue.2
      obtain ⟨hround, -⟩ := hu.playAll hb
      obtain ⟨moments', hplayed⟩ := hp.playAll hu hnow
      have hdeadline := h.playAll_deadline now fleet
      generalize h.playAll now fleet = next at *
      obtain ⟨h', fleet'⟩ := next
      dsimp only at *
      by_cases hdue' : h'.isDue now = true
      · rw [if_pos hdue']
        exact ⟨moments', hplayed⟩
      · rw [if_neg hdue']
        obtain ⟨hlater, -⟩ := hround.timely (Bool.eq_false_iff.2 hdue')
        exact ih (hplayed.later (hround.now_le_nextTime (hdeadline ▸ hnow.le))) hlater le_rfl _ rfl

/-! ## The end of the loop -/

/-- what is left to a player when the cycle is due is not before the deadline -/
theorem Underway.left_late (hu : h.Underway fleet₀ sensors sensors.length now fleet) (hdue : h.isDue now = true)
    {p : Player} {steps : List HarvestStep} (hp : h.players[n]? = some p)
    (hsteps : (fleet₀.harvests sensors)[n]? = some steps) : ∀ x ∈ p.stage.left steps, h.deadline ≤ x.1 := by
  have hn : n < sensors.length := hu.players ▸ (List.getElem?_eq_some_iff.1 hp).1
  obtain ⟨stage, status, hp', hseat, hstands⟩ := hu.seated n _ steps (List.getElem?_eq_getElem hn) hsteps
  obtain rfl := Option.some.inj (hp'.symm.trans hp)
  rw [decide_eq_true hn] at hstands
  cases hstands with
  | @asleep rest wake later =>
    intro x hx
    calc h.deadline ≤ now := deadline_le_of_harvesting hdue hseat
      _ ≤ wake := later
      _ ≤ x.1 := HarvestStep.timed_from wake rest x hx
  | ended => exact List.forall_mem_nil _

/-- no sensor does anything after its end -/
theorem Played.ends (hp : h.Played fleet₀ sensors metrics now moments) (hplayers : h.players.length = sensors.length) :
    moments.Pairwise fun x y => x.event.end?.isSome → x.seat ≠ y.seat := by
  -- two moments of one seat are events of its harvest, in which only the last is an end
  refine List.pairwise_iff_forall_sublist.2 fun {x y} hxy hend hsame => ?_
  have hn : x.seat < sensors.length := hp.seated x (hxy.subset List.mem_cons_self)
  obtain ⟨-, steps, -, hsteps⟩ := exists_seat fleet₀ hn
  have hplayer := List.getElem?_eq_getElem (hplayers.symm ▸ hn : x.seat < h.players.length)
  have hown : [(x.time, x.event), (y.time, y.event)].Sublist (ofSeat x.seat moments) := by
    have hfilter := (hxy.filter (·.seat = x.seat)).map fun x => (x.time, x.event)
    simpa [ofSeat, hsame] using hfilter
  have hharvest : [(x.time, x.event), (y.time, y.event)].Sublist (timed 0 steps) := by
    rw [← hp.own _ _ steps hplayer hsteps]
    exact hown.trans (List.sublist_append_left _ _)
  have hnone := List.pairwise_iff_forall_sublist.1 (HarvestStep.timed_ends 0 steps) hharvest
  rw [hnone] at hend
  exact Bool.false_ne_true hend

/-- a sensor with nothing left before the deadline has done what its harvest has before it -/
theorem Played.ofSeat_eq (hp : h.Played fleet₀ sensors metrics now moments) {p : Player} {steps : List HarvestStep}
    (hplayer : h.players[n]? = some p) (hsteps : (fleet₀.harvests sensors)[n]? = some steps)
    (hlate : ∀ x ∈ p.stage.left steps, h.deadline ≤ x.1) :
    ofSeat n moments = (timed 0 steps).filter (·.1 < h.deadline) := by
  have hpast : ∀ x ∈ ofSeat n moments, decide (x.1 < h.deadline) = true := by
    refine List.forall_mem_map.2 fun x hx => decide_eq_true ?_
    exact (hp.past x (List.mem_of_mem_filter hx)).2
  have hleft : ∀ x ∈ p.stage.left steps, ¬decide (x.1 < h.deadline) = true := by
    intro x hx hlt
    exact absurd (hlate x hx) (Nat.not_le.2 (of_decide_eq_true hlt))
  rw [← hp.own n p steps hplayer hsteps, List.filter_append, List.filter_eq_self.2 hpast,
    List.filter_eq_nil_iff.2 hleft, List.append_nil]

/-- what has been played when nothing more comes before the deadline is a schedule that is played -/
theorem Played.schedule (hp : h.Played fleet₀ sensors metrics now moments) {deadline : Nat} (hdue : h.deadline = deadline)
    (hplayers : h.players.length = sensors.length)
    (hlate : ∀ (n : Nat) (p : Player) (steps : List HarvestStep), h.players[n]? = some p →
      (fleet₀.harvests sensors)[n]? = some steps → ∀ x ∈ p.stage.left steps, deadline ≤ x.1) (policy : Reduction) :
    ∃ s : Cycle.Schedule (sensors.map Sensor.id) deadline, s.IsPlayed fleet₀ sensors ∧
      h.cycle.outcome policy = s.outcome metrics policy := by
  subst hdue
  refine ⟨⟨moments, ?_, hp.ends hplayers, fun x hx _ => (hp.past x hx).2.ne⟩, ⟨hp.ordered, fun n steps hsteps => ?_⟩, ?_⟩
  · rw [List.length_map]
    exact hp.seated
  · have hn : n < h.players.length := by
      rw [hplayers, ← fleet₀.length_harvests sensors]
      exact (List.getElem?_eq_some_iff.1 hsteps).1
    have hplayer := List.getElem?_eq_getElem hn
    exact hp.ofSeat_eq hplayer hsteps (hlate n _ steps hplayer hsteps)
  · have hnoticed : moments.filter (·.isNoticed h.deadline) = moments :=
      List.filter_eq_self.2 fun x hx => by simp [Moment.isNoticed, (hp.past x hx).2.le]
    rw [Cycle.Schedule.outcome, Cycle.follow, hnoticed, ← hp.cycle]

/-- the loop of a cycle ends with nothing left to play before the deadline -/
theorem start_left (fleet : Fleet) (sensors : List Sensor) (metrics : List Metric) (timeout : Duration) :
    ∀ r, r = Harvesting.finish ((sensors.length + 1) * (fleet.longest + 2)) (start sensors metrics 0 timeout) 0 fleet →
      r.1.deadline = timeout.millis ∧ r.1.players.length = sensors.length ∧
      ∀ (n : Nat) (p : Player) (steps : List HarvestStep), r.1.players[n]? = some p →
        (fleet.harvests sensors)[n]? = some steps → ∀ x ∈ p.stage.left steps, timeout.millis ≤ x.1 := by
  rintro r rfl
  rcases Nat.eq_zero_or_pos timeout.millis with hzero | hpos
  · -- a cycle without time is due at its start
    have hdue : (start sensors metrics 0 timeout).isDue 0 = true := by simp [isDue, start, hzero]
    have hstays := finish_add 0 ((sensors.length + 1) * (fleet.longest + 2)) (start sensors metrics 0 timeout) 0 fleet
      hdue
    rw [Nat.zero_add] at hstays
    rw [hstays, Harvesting.finish]
    exact ⟨Nat.zero_add _, List.length_map _, fun _ _ _ _ _ x _ => hzero.le.trans (Nat.zero_le x.1)⟩
  · obtain ⟨h, now, after, hrun, hdeadline, hu, -, hdue⟩ := start_finish fleet sensors metrics hpos
    rw [hrun _ le_rfl, ← hdeadline]
    exact ⟨rfl, hu.players, fun n p steps => hu.left_late hdue⟩

end Harvesting

/-- **Every cycle follows the schedule that its instruments play.** -/
theorem runCycle_follows (fleet : Fleet) (sensors : List Sensor) (metrics : List Metric) (timeout : Duration)
    (policy : Reduction) :
    ∃ s : Cycle.Schedule (sensors.map Sensor.id) timeout.millis, s.IsPlayed fleet sensors ∧
      (runCycle fleet sensors metrics timeout policy).1 = s.outcome metrics policy := by
  obtain ⟨hdeadline, hplayers, hlate⟩ := Harvesting.start_left fleet sensors metrics timeout _ rfl
  obtain ⟨moments, hplayed⟩ := (Harvesting.start_played fleet sensors metrics timeout).finish _
    (Harvesting.start_underway fleet sensors metrics timeout) (Nat.zero_le _) _ rfl
  exact hplayed.schedule hdeadline hplayers hlate policy

/-! ## Readings of a cycle -/

/-- **Harvest cycle.** For every schedule of distinct sensors: a metric has a reading exactly when it was requested and a
sensor that returned before the deadline wrote a finite value to it; the reading is made of the finite values that such
sensors wrote to it, in order; and the errors are all that were reported, in order. A cycle of instruments follows the
schedule that they play: each instrument its own harvest as far as it goes before the deadline, and all by the clock. -/
theorem cycle_outcome (policy : Reduction) :
    (∀ (sources : List String) (deadline : Nat) (s : Cycle.Schedule sources deadline) (metrics : List Metric),
      sources.Nodup →
      (∀ m, (s.outcome metrics policy).readings.contains m = true ↔ m ∈ metrics ∧
        ∃ x ∈ s.moments, s.completes x.seat = true ∧ ∃ v, x.event.sampleFor m = some v) ∧
      (∀ m, (s.outcome metrics policy).readings.find? m =
        if m ∈ metrics then policy.reduce (s.written m) else none) ∧
      (s.outcome metrics policy).errors = s.reported metrics) ∧
    (∀ (fleet : Fleet) (sensors : List Sensor) (metrics : List Metric) (timeout : Duration),
      ∃ s : Cycle.Schedule (sensors.map Sensor.id) timeout.millis, s.IsPlayed fleet sensors ∧
        (runCycle fleet sensors metrics timeout policy).1 = s.outcome metrics policy) := by
  refine ⟨fun sources deadline s metrics distinct => ⟨fun m => ?_, fun m => ?_, ?_⟩,
    fun fleet sensors metrics timeout => runCycle_follows fleet sensors metrics timeout policy⟩
  · rw [Keyed.contains, s.find?_readings distinct metrics policy m]
    split_ifs with hm
    · rw [Reduction.isSome_reduce]
      constructor
      · intro hne
        obtain ⟨v, hv⟩ := List.exists_mem_of_ne_nil _ hne
        obtain ⟨x, hx, hc, hs⟩ := (s.mem_written m v).1 hv
        exact ⟨hm, x, hx, hc, v, hs⟩
      · rintro ⟨-, x, hx, hc, v, hs⟩
        exact List.ne_nil_of_mem ((s.mem_written m v).2 ⟨x, hx, hc, hs⟩)
    · simp [hm]
  · exact s.find?_readings distinct metrics policy m
  · exact s.errors_outcome metrics policy

/-- one sensor returns in time; the other writes too, and then something that is no number, and comes to its end only
after the deadline -/
def Cycle.Schedule.stalled : Cycle.Schedule ["prompt", "stalled"] 1000 where
  moments :=
    [⟨5, 1, .write .humidity ⟨0x4056800000000000⟩⟩, ⟨10, 0, .write .humidity ⟨0x4044000000000000⟩⟩,
      ⟨10, 0, .returned⟩, ⟨20, 1, .write .humidity ⟨0x7ff8000000000000⟩⟩, ⟨1500, 1, .returned⟩]
  seated := by decide
  ends := by decide
  clear := by decide

theorem cycle_outcome_stalled :
    ["prompt", "stalled"].Nodup ∧
      (Cycle.Schedule.stalled.outcome [.humidity] .mean).readings.contains .humidity = true ∧
      (Cycle.Schedule.stalled.outcome [.humidity] .mean).readings.find? .humidity =
        Reduction.mean.reduce [⟨0x4044000000000000⟩] ∧
      (Cycle.Schedule.stalled.outcome [.humidity] .mean).errors.map HarvestError.source = ["stalled"] := by
  have distinct : ["prompt", "stalled"].Nodup := by decide
  obtain ⟨hcontains, hreading, herrors⟩ :=
    (cycle_outcome .mean).1 _ _ Cycle.Schedule.stalled [.humidity] distinct
  refine ⟨distinct, (hcontains _).2 ⟨by simp, ?_⟩, ?_, ?_⟩
  · exact ⟨⟨10, 0, .write .humidity ⟨0x4044000000000000⟩⟩, by simp [Cycle.Schedule.stalled], by decide, _, rfl⟩
  · rw [hreading, if_pos (by simp)]
    rfl
  · rw [herrors]
    rfl

end SensorNode
