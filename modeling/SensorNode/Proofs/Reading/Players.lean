/-
The players of a cycle. A harvest begins when its player goes on for the first time, and never again; so the sensors whose
harvests have begun and those that are still pending are together the sensors of the cycle (`Attended`). A sensor returns
or dies only when its player goes on: a cycle in which every one of them has done so has harvested each of its sensors,
once (`Attended.over`).
-/
import SensorNode.Proofs.Reading.Harvests

namespace SensorNode

/-! ## What players do -/

/-- the harvest has not begun -/
def Player.Stage.isFresh : Player.Stage → Bool
  | .fresh => true
  | _ => false

namespace Player

/-- the sensor of a player whose harvest has not begun -/
def pending? (p : Player) : Option Sensor := if p.stage.isFresh then some p.sensor else none

/-- the steps that a player goes on with -/
def steps (p : Player) (fleet : Fleet) : List HarvestStep :=
  match p.stage with
  | .fresh => (fleet.beginHarvest p.sensor).2
  | .playing rest _ => rest
  | .over => []

theorem isReady_of_fresh {p : Player} (h : p.stage.isFresh = true) (now : Nat) : p.isReady now = true := by
  obtain ⟨sensor, stage⟩ := p
  cases stage with
  | fresh => rfl
  | _ => exact absurd h Bool.false_ne_true

/-- a player that goes on has begun -/
theorem play_stage (now n : Nat) (steps : List HarvestStep) (c : Cycle) :
    (play now n steps c).2.isFresh = false := by
  induction steps generalizing c with
  | nil => rfl
  | cons step rest ih =>
    cases step with
    | write m s => exact ih _
    | writeIfWanted m s => exact ih _
    | fail m message => exact ih _
    | _ => rfl

end Player

namespace Engine

/-- they are all of the one sensor -/
theorem eventsOf_seat (n : Nat) (steps : List HarvestStep) : ∀ x ∈ eventsOf n steps, x.1 = n := by
  intro x hx
  induction steps with
  | nil => rw [List.mem_singleton.1 hx]
  | cons step rest ih =>
    cases step with
    | sleep time => cases hx
    | die => rw [List.mem_singleton.1 hx]
    | _ => exact (List.mem_cons.1 hx).elim (fun h => by rw [h]) ih

end Engine

/-- what one sensor does leaves the others where they are -/
theorem Cycle.run_seat_of_ne {c : Cycle} {events : List (Nat × Cycle.Event)} {n i : Nat} (hne : n ≠ i)
    (h : ∀ x ∈ events, x.1 = n) : (c.run events).seats[i]? = c.seats[i]? := by
  induction events generalizing c with
  | nil => rfl
  | cons x events ih =>
    obtain ⟨hx, hrest⟩ := List.forall_mem_cons.1 h
    have hstep : (c.apply x.1 x.2).seats[i]? = c.seats[i]? := by
      by_cases hseat : ∃ source, c.seats[x.1]? = some ⟨source, .harvesting⟩
      · obtain ⟨source, hseat⟩ := hseat
        rw [apply_seats c x.1 x.2 source hseat]
        cases x.2.end? with
        | none => rfl
        | some status => exact List.getElem?_set_ne (hx ▸ hne)
      · rw [apply_of_not_harvesting c x.1 x.2 fun source hs => hseat ⟨source, hs⟩]
    rw [run_cons, ih hrest, hstep]

/-! ## What instruments count -/

/-- a change to an instrument does not show in what it leaves as it is -/
theorem Fleet.map_update {α : Type} {read : Instrument → α} {change : Instrument → Instrument}
    (h : ∀ i, read (change i) = read i) (fleet : Fleet) (key : Nat) :
    (fleet.update key change).map read = fleet.map read := by
  refine List.ext_getElem? fun n => ?_
  simp only [update, List.getElem?_map, List.getElem?_modify]
  cases fleet[n]? with
  | none => rfl
  | some i =>
    simp only [Option.map_eq_map, Option.map_some]
    split_ifs
    · rw [h]
    · rfl

theorem Fleet.endHarvest_harvests (fleet : Fleet) (s : Sensor) (key : Nat) :
    ((fleet.endHarvest s)[key]?).map Instrument.harvests = (fleet[key]?).map Instrument.harvests := by
  rw [← List.getElem?_map, ← List.getElem?_map, endHarvest, map_update]
  exact fun _ => rfl

theorem Fleet.beginHarvest_harvests (fleet : Fleet) (s : Sensor) (key : Nat) :
    ((fleet.beginHarvest s).1[key]?).map Instrument.harvests =
      (fleet[key]?).map fun i => i.harvests + [s].countP (·.instrument = key) := by
  unfold beginHarvest find?
  split
  · simp only [update, List.getElem?_modify]
    cases fleet[key]? with
    | none => rfl
    | some i =>
      simp only [Option.map_eq_map, Option.map_some, List.countP_singleton, decide_eq_true_eq]
      split_ifs <;> rfl
  · rename_i hnone
    cases hi : fleet[key]? with
    | none => rfl
    | some i =>
      have hother : s.instrument ≠ key := by
        rintro rfl
        exact absurd (hnone.symm.trans hi) (by simp)
      simp [hother]

/-! ## Plays -/

namespace Harvesting

variable {h : Harvesting}

/-- the sensors whose harvests have not begun -/
def pending (h : Harvesting) : List Sensor := h.players.filterMap Player.pending?

/-- the sensor whose harvest begins when the player in seat `n` goes on, if one does -/
def begins (h : Harvesting) (n : Nat) : List Sensor := ((h.players[n]?).bind Player.pending?).toList

/-- what the sensor in seat `n` does when its player goes on -/
def events (h : Harvesting) (now n : Nat) (fleet : Fleet) : List (Nat × Cycle.Event) :=
  match h.players[n]? with
  | some p => if p.isReady now then Engine.eventsOf n (p.steps fleet) else []
  | none => []

theorem events_seat (h : Harvesting) (now n : Nat) (fleet : Fleet) : ∀ x ∈ h.events now n fleet, x.1 = n := by
  intro x hx
  unfold events at hx
  split at hx
  · split_ifs at hx
    · exact Engine.eventsOf_seat n _ x hx
    · cases hx
  · cases hx

/-- what comes of a player that goes on: nothing, or it has begun and its sensor has done its events -/
theorem play_cases (h : Harvesting) (now n : Nat) (fleet : Fleet) :
    ((h.play now n fleet).1 = h ∧ h.begins n = [] ∧ h.events now n fleet = []) ∨
      ∃ p stage, h.players[n]? = some p ∧ stage.isFresh = false ∧ (h.play now n fleet).1 =
        { h with
          cycle := h.cycle.run (h.events now n fleet), players := h.players.set n { p with stage := stage } } := by
  unfold play begins events
  cases hp : h.players[n]? with
  | none => exact Or.inl ⟨rfl, rfl, rfl⟩
  | some p =>
    by_cases hready : p.isReady now = true
    · right
      refine ⟨p, (Player.play now n (p.steps fleet) h.cycle).2, rfl, Player.play_stage _ _ _ _, ?_⟩
      dsimp only
      rw [if_pos hready, if_pos hready]
      obtain ⟨sensor, stage⟩ := p
      cases stage <;> simp only [Engine.play_cycle] <;> rfl
    · left
      have hbegun : p.stage.isFresh = false :=
        Bool.eq_false_iff.2 fun hfresh => hready (Player.isReady_of_fresh hfresh now)
      dsimp only
      rw [if_neg hready, if_neg hready]
      simp [Player.pending?, hbegun]

theorem play_cycle (h : Harvesting) (now n : Nat) (fleet : Fleet) :
    (h.play now n fleet).1.cycle = h.cycle.run (h.events now n fleet) := by
  rcases h.play_cases now n fleet with ⟨hsame, -, hnone⟩ | ⟨p, stage, -, -, hplay⟩
  · rw [hsame, hnone]
    rfl
  · rw [hplay]

theorem play_deadline (h : Harvesting) (now n : Nat) (fleet : Fleet) :
    (h.play now n fleet).1.deadline = h.deadline := by
  rcases h.play_cases now n fleet with ⟨hsame, -, -⟩ | ⟨p, stage, -, -, hplay⟩
  · rw [hsame]
  · rw [hplay]

/-- the sensor whose harvest begins is not pending any more -/
theorem play_pending (h : Harvesting) (now n : Nat) (fleet : Fleet) :
    (h.begins n ++ (h.play now n fleet).1.pending).Perm h.pending := by
  rcases h.play_cases now n fleet with ⟨hsame, hnone, -⟩ | ⟨p, stage, hp, hbegun, hplay⟩
  · rw [hsame, hnone]
    exact List.Perm.refl _
  · obtain ⟨hlt, hget⟩ := List.getElem?_eq_some_iff.1 hp
    have hbefore : (p :: h.players.eraseIdx n).Perm h.players := hget ▸ List.getElem_cons_eraseIdx_perm hlt
    have hafter : (h.players.set n { p with stage := stage }).Perm
        ({ p with stage := stage } :: h.players.eraseIdx n) := List.set_perm_cons_eraseIdx hlt _
    have hover : Player.pending? { p with stage := stage } = none := by simp [Player.pending?, hbegun]
    have hrest : (h.play now n fleet).1.pending.Perm ((h.players.eraseIdx n).filterMap Player.pending?) := by
      rw [hplay, pending]
      refine (hafter.filterMap Player.pending?).trans ?_
      rw [List.filterMap_cons_none hover]
    have hfirst : h.begins n ++ (h.players.eraseIdx n).filterMap Player.pending? =
        (p :: h.players.eraseIdx n).filterMap Player.pending? := by
      rw [begins, hp, Option.bind_some, List.filterMap_cons]
      cases p.pending? <;> rfl
    exact (hrest.append_left _).trans (hfirst ▸ hbefore.filterMap Player.pending?)

/-- a harvest is counted by its instrument when it begins, and at no other time -/
theorem play_harvests (h : Harvesting) (now n : Nat) (fleet : Fleet) (key : Nat) :
    ((h.play now n fleet).2[key]?).map Instrument.harvests =
      (fleet[key]?).map fun i => i.harvests + (h.begins n).countP (·.instrument = key) := by
  unfold play begins
  cases hp : h.players[n]? with
  | none => rfl
  | some p =>
    obtain ⟨sensor, stage⟩ := p
    cases stage with
    | fresh =>
      simp only [Player.isReady, if_true, Player.pending?, Player.Stage.isFresh, Option.bind_some, Option.toList_some]
      rw [← Fleet.beginHarvest_harvests]
      split_ifs
      · exact Fleet.endHarvest_harvests _ sensor key
      · rfl
    | _ =>
      dsimp only
      split_ifs
      · exact Fleet.endHarvest_harvests _ sensor key
      · rfl
      · rfl

/-! ## The sensors of a cycle -/

/-- Of the sensors of a cycle these have begun, the others are pending, and those that are pending have not come to an
end. -/
structure Attended (sensors begun : List Sensor) (h : Harvesting) : Prop where
  all : (begun ++ h.pending).Perm sensors
  seated : ∀ (n : Nat) (p : Player), h.players[n]? = some p → p.stage.isFresh = true →
    ∃ source, h.cycle.seats[n]? = some ⟨source, .harvesting⟩

variable {sensors begun : List Sensor}

theorem start_pending (sensors : List Sensor) (metrics : List Metric) (now : Nat) (timeout : Duration) :
    (start sensors metrics now timeout).pending = sensors := by
  simp [pending, start, List.filterMap_map, Function.comp_def, Player.pending?, Player.Stage.isFresh]

theorem start_attended (sensors : List Sensor) (metrics : List Metric) (now : Nat) (timeout : Duration) :
    (start sensors metrics now timeout).Attended sensors [] where
  all := by
    rw [start_pending]
    exact List.Perm.refl _
  seated n p hp _ := by
    simp only [start, List.getElem?_map, Option.map_eq_some_iff] at hp
    obtain ⟨s, hs, -⟩ := hp
    refine ⟨s.id, ?_⟩
    simp only [start, Cycle.start_seat, List.getElem?_map, hs]
    rfl

theorem Attended.play (ha : h.Attended sensors begun) (now n : Nat) (fleet : Fleet) :
    (h.play now n fleet).1.Attended sensors (begun ++ h.begins n) := by
  refine ⟨?_, fun i p hi hfresh => ?_⟩
  · rw [List.append_assoc]
    exact ((h.play_pending now n fleet).append_left begun).trans ha.all
  · rcases h.play_cases now n fleet with ⟨hsame, -, -⟩ | ⟨q, stage, hq, hbegun, hplay⟩
    · rw [hsame] at hi ⊢
      exact ha.seated i p hi hfresh
    · rw [hplay] at hi ⊢
      by_cases hin : n = i
      · subst hin
        -- the player that has gone on is not pending
        have hlt := (List.getElem?_eq_some_iff.1 hq).1
        obtain rfl : _ = p := Option.some.inj ((List.getElem?_set_self hlt).symm.trans hi)
        exact absurd (hfresh.symm.trans hbegun) (by decide)
      · have hold : h.players[i]? = some p := (List.getElem?_set_ne hin).symm.trans hi
        obtain ⟨source, hsource⟩ := ha.seated i p hold hfresh
        exact ⟨source, (Cycle.run_seat_of_ne hin (h.events_seat now n fleet)).trans hsource⟩

theorem Attended.subperm (ha : h.Attended sensors begun) : begun.Subperm sensors :=
  (List.sublist_append_left begun h.pending).subperm.trans ha.all.subperm

theorem Attended.perm (ha : h.Attended sensors begun) (hnone : h.pending = []) : begun.Perm sensors := by
  have hall := ha.all
  rwa [hnone, List.append_nil] at hall

/-- a pending sensor has a player that can go on -/
theorem exists_ready_of_pending (hp : h.pending ≠ []) (now : Nat) :
    ∃ (n : Nat) (p : Player), h.players[n]? = some p ∧ p.isReady now = true := by
  obtain ⟨s, hs⟩ := List.exists_mem_of_ne_nil _ hp
  obtain ⟨p, hmem, hpending⟩ := List.mem_filterMap.1 hs
  obtain ⟨n, hn⟩ := List.mem_iff_getElem?.1 hmem
  refine ⟨n, p, hn, Player.isReady_of_fresh ?_ now⟩
  unfold Player.pending? at hpending
  split_ifs at hpending with hfresh
  exact hfresh

/-- where everybody has returned or died, everybody has begun -/
theorem Attended.over (ha : h.Attended sensors begun) (hover : h.cycle.isOver = true) : h.pending = [] := by
  refine List.filterMap_eq_nil_iff.2 fun p hp => ?_
  cases hfresh : p.stage.isFresh with
  | false => simp [Player.pending?, hfresh]
  | true =>
    obtain ⟨n, hn⟩ := List.mem_iff_getElem?.1 hp
    obtain ⟨source, hseat⟩ := ha.seated n p hn hfresh
    have hended := List.all_eq_true.1 hover _ (List.mem_of_getElem? hseat)
    exact absurd hended (by simp)

end Harvesting

/-! ## Players of an engine -/

namespace Engine

variable {e : Engine} {name : Nat}

/-- the sensor whose harvest begins when the player in seat `n` of a job's cycle goes on, if one does -/
def begins (e : Engine) (name n : Nat) : List Sensor :=
  match e.jobs.find? name with
  | some ⟨_, .harvesting h _⟩ => h.begins n
  | _ => []

/-- what the sensor in seat `n` of a job's cycle does when its player goes on -/
def events (e : Engine) (name n : Nat) : List (Nat × Cycle.Event) :=
  match e.jobs.find? name with
  | some ⟨_, .harvesting h _⟩ => h.events e.now n e.fleet
  | _ => []

theorem play_find?_of_harvesting {order : Order} {h : Harvesting} {next : Nat}
    (hj : e.jobs.find? name = some ⟨order, .harvesting h next⟩) (n : Nat) :
    (e.play name n).jobs.find? name = some ⟨order, .harvesting (h.play e.now n e.fleet).1 next⟩ := by
  simp only [play, hj]
  exact (setPhase_find? e name name _).trans (by rw [if_pos rfl, hj]; rfl)

/-- where no cycle is under way there are no players -/
theorem play_of_not_harvesting (hnot : ∀ order h next, e.jobs.find? name ≠ some ⟨order, .harvesting h next⟩) (n : Nat) :
    e.play name n = e ∧ e.begins name n = [] ∧ e.events name n = [] := by
  unfold play begins events
  cases hj : e.jobs.find? name with
  | none => exact ⟨rfl, rfl, rfl⟩
  | some job =>
    obtain ⟨order, phase⟩ := job
    cases phase with
    | harvesting h next => exact absurd hj (hnot order h next)
    | _ => exact ⟨rfl, rfl, rfl⟩

/-- the instruments count the harvests that begin -/
theorem play_harvests (e : Engine) (name n key : Nat) :
    ((e.play name n).fleet[key]?).map Instrument.harvests =
      (e.fleet[key]?).map fun i => i.harvests + (e.begins name n).countP (·.instrument = key) := by
  by_cases hcycle : ∃ order h next, e.jobs.find? name = some ⟨order, .harvesting h next⟩
  · obtain ⟨order, h, next, hj⟩ := hcycle
    simp only [play, begins, hj]
    exact h.play_harvests e.now n e.fleet key
  · obtain ⟨hsame, hnone, -⟩ :=
      play_of_not_harvesting (fun order h next hj => hcycle ⟨order, h, next, hj⟩) n
    rw [hsame, hnone]
    rfl

theorem play_find?_of_ne {name' : Nat} (hne : name' ≠ name) (n : Nat) :
    (e.play name n).jobs.find? name' = e.jobs.find? name' := by
  unfold play
  split
  · exact (setPhase_find? e name name' _).trans (if_neg hne)
  · rfl

end Engine

end SensorNode
