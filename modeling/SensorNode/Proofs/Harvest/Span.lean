/-
How long harvests take. The steps of a harvest have a span, the time from the first of them to their end, and an ending;
both are settled when the harvest begins, for a player only sleeps in between (`Player.play_turn`). The harvests that the
sensors of a cycle begin, one after the other, are `Fleet.harvests`.
-/
import SensorNode.Proofs.Reading.Players

namespace SensorNode

/-! ## Steps -/

namespace HarvestStep

def isSleep : HarvestStep → Bool
  | .sleep _ => true
  | _ => false

/-- the time from the first of the steps to their end -/
def span : List HarvestStep → Nat
  | [] => 0
  | .sleep time :: rest => time.millis + span rest
  | .die :: _ => 0
  | _ :: rest => span rest

/-- how the steps end -/
def ending : List HarvestStep → Seat.Status
  | [] => .returned
  | .die :: _ => .died
  | _ :: rest => ending rest

theorem ending_ne_harvesting (steps : List HarvestStep) : ending steps ≠ .harvesting := by
  induction steps with
  | nil => decide
  | cons step rest ih =>
    cases step with
    | die => exact Seat.Status.noConfusion
    | _ => exact ih

end HarvestStep

/-! ## The turn of a player -/

/-- What a turn makes of the seats and of the player, with these steps to go on with: the player sleeps, and then has less
to sleep, or comes to its end at once. -/
inductive Player.Turn (now n : Nat) (source : String) (steps : List HarvestStep) (seats : List Seat) :
    List Seat → Player.Stage → Prop
  | sleeps {rest : List HarvestStep} {wake : Nat} (later : now ≤ wake)
      (span : wake + HarvestStep.span rest = now + HarvestStep.span steps)
      (ending : HarvestStep.ending rest = HarvestStep.ending steps)
      (fewer : rest.countP HarvestStep.isSleep < steps.countP HarvestStep.isSleep) :
      Turn now n source steps seats seats (.playing rest wake)
  | ends (span : HarvestStep.span steps = 0) :
      Turn now n source steps seats (seats.set n ⟨source, HarvestStep.ending steps⟩) .over

theorem Player.play_turn (now n : Nat) (source : String) (steps : List HarvestStep) (c : Cycle)
    (h : c.seats[n]? = some ⟨source, .harvesting⟩) :
    Turn now n source steps c.seats (play now n steps c).1.seats (play now n steps c).2 := by
  induction steps generalizing c with
  | nil =>
    have hseats : (c.apply n .returned).seats = c.seats.set n ⟨source, .returned⟩ := c.apply_seats n .returned source h
    simp only [play, hseats]
    exact .ends rfl
  | cons step rest ih =>
    -- a step that takes no time leaves the seats to the turn of the rest
    have onward : ∀ event : Cycle.Event, event.end? = none →
        Turn now n source rest c.seats (play now n rest (c.apply n event)).1.seats
          (play now n rest (c.apply n event)).2 := by
      intro event hevent
      have hsame : (c.apply n event).seats = c.seats := by rw [c.apply_seats n event source h, hevent]
      have hrest := ih (c.apply n event) (by rw [hsame]; exact h)
      rwa [hsame] at hrest
    have passes : ∀ {seats stage}, HarvestStep.span (step :: rest) = HarvestStep.span rest →
        HarvestStep.ending (step :: rest) = HarvestStep.ending rest → Turn now n source rest c.seats seats stage →
        Turn now n source (step :: rest) c.seats seats stage := by
      intro seats stage hspan hending hturn
      cases hturn with
      | sleeps later span ending fewer =>
        refine .sleeps later (hspan ▸ span) (hending ▸ ending) (lt_of_lt_of_le fewer ?_)
        rw [List.countP_cons]
        exact Nat.le_add_right _ _
      | ends span => rw [← hending]; exact .ends (hspan.trans span)
    cases step with
    | sleep time =>
      refine .sleeps (Nat.le_add_right _ _) (Nat.add_assoc _ _ _) rfl ?_
      rw [List.countP_cons_of_pos rfl]
      exact Nat.lt_succ_self _
    | write m v => exact passes rfl rfl (onward (.write m v) rfl)
    | writeIfWanted m v => exact passes rfl rfl (onward (.writeIfWanted m v) rfl)
    | fail m message => exact passes rfl rfl (onward (.fail m message) rfl)
    | die =>
      have hseats : (c.apply n .died).seats = c.seats.set n ⟨source, .died⟩ := c.apply_seats n .died source h
      simp only [play, hseats]
      exact .ends rfl

/-! ## The harvests of a cycle -/

namespace Fleet

/-- the harvests that these sensors begin, one after the other -/
def harvests : Fleet → List Sensor → List (List HarvestStep)
  | _, [] => []
  | fleet, s :: sensors => (fleet.beginHarvest s).2 :: harvests (fleet.beginHarvest s).1 sensors

theorem length_harvests (fleet : Fleet) (sensors : List Sensor) :
    (fleet.harvests sensors).length = sensors.length := by
  induction sensors generalizing fleet with
  | nil => rfl
  | cons s sensors ih => rw [harvests, List.length_cons, List.length_cons, ih]

/-- what the next harvests of an instrument are made of -/
def script (i : Instrument) : Behaviour × Nat := (i.behaviour, i.harvests)

theorem endHarvest_script (fleet : Fleet) (s : Sensor) : (fleet.endHarvest s).map script = fleet.map script := by
  apply map_update
  exact fun _ => rfl

/-- fleets with the same scripts begin the same harvests -/
theorem beginHarvest_congr {fleet fleet' : Fleet} (h : fleet'.map script = fleet.map script) (s : Sensor) :
    (fleet'.beginHarvest s).2 = (fleet.beginHarvest s).2 ∧
      (fleet'.beginHarvest s).1.map script = (fleet.beginHarvest s).1.map script := by
  have hat : ∀ key : Nat, (fleet'[key]?).map script = (fleet[key]?).map script := fun key => by
    rw [← List.getElem?_map, h, List.getElem?_map]
  have hs := hat s.instrument
  unfold beginHarvest find?
  cases hi : fleet[s.instrument]? with
  | none =>
    rw [hi] at hs
    rw [Option.map_eq_none_iff.1 hs]
    exact ⟨rfl, h⟩
  | some i =>
    rw [hi, Option.map_some, Option.map_eq_some_iff] at hs
    obtain ⟨i', hi', hscript⟩ := hs
    obtain ⟨hbehaviour, hcount⟩ := Prod.mk.inj hscript
    simp only [hi']
    refine ⟨by simp only [Instrument.steps, hbehaviour, hcount], List.ext_getElem? fun key => ?_⟩
    have hk := hat key
    simp only [update, List.getElem?_map, List.getElem?_modify]
    cases hj : fleet[key]? with
    | none =>
      rw [hj] at hk
      rw [Option.map_eq_none_iff.1 hk]
    | some j =>
      rw [hj, Option.map_some, Option.map_eq_some_iff] at hk
      obtain ⟨j', hj', hscript⟩ := hk
      obtain ⟨hbehaviour, hcount⟩ := Prod.mk.inj hscript
      rw [hj']
      simp only [Option.map_eq_map, Option.map_some, script]
      split_ifs <;> simp [hbehaviour, hcount]

theorem harvests_congr {fleet fleet' : Fleet} (h : fleet'.map script = fleet.map script) (sensors : List Sensor) :
    fleet'.harvests sensors = fleet.harvests sensors := by
  induction sensors generalizing fleet fleet' with
  | nil => rfl
  | cons s sensors ih =>
    obtain ⟨hsteps, hrest⟩ := beginHarvest_congr h s
    rw [harvests, harvests, hsteps, ih hrest]

theorem harvests_endHarvest (fleet : Fleet) (s : Sensor) (sensors : List Sensor) :
    (fleet.endHarvest s).harvests sensors = fleet.harvests sensors :=
  harvests_congr (fleet.endHarvest_script s) sensors

/-- a bound on the sleeps of every harvest of the fleet -/
def longest (fleet : Fleet) : Nat := (fleet.map Instrument.longestHarvest).foldl max 0

theorem beginHarvest_longest (fleet : Fleet) (s : Sensor) : (fleet.beginHarvest s).1.longest = fleet.longest := by
  unfold beginHarvest
  split
  · have hsame : (fleet.update s.instrument fun i => { i with harvests := i.harvests + 1 }).map
        Instrument.longestHarvest = fleet.map Instrument.longestHarvest := by
      apply map_update
      exact fun _ => rfl
    rw [longest, hsame, longest]
  · rfl

end Fleet

theorem foldl_max_le_iff {l : List Nat} {bound : Nat} : l.foldl max 0 ≤ bound ↔ ∀ n ∈ l, n ≤ bound := by
  have hmax : (0 :: l).max? = some (l.foldl max 0) := List.max?_cons'
  rw [List.max?_le_iff hmax, List.forall_mem_cons]
  exact and_iff_right (Nat.zero_le bound)

theorem le_foldl_max {l : List Nat} {n : Nat} (h : n ∈ l) : n ≤ l.foldl max 0 := foldl_max_le_iff.1 le_rfl n h

namespace Instrument

theorem fixedSteps_isSleep (values : Keyed Metric Float) (jitter : Float) (noise : Metric → Float) :
    (fixedSteps values jitter noise).countP HarvestStep.isSleep = 0 := by
  refine List.countP_eq_zero.2 fun step hstep => ?_
  unfold fixedSteps at hstep
  dsimp only at hstep
  split at hstep
  · rw [List.mem_singleton.1 hstep]
    exact Bool.false_ne_true
  · obtain ⟨e, -, rfl⟩ := List.mem_map.1 hstep
    exact Bool.false_ne_true

theorem steps_isSleep_le (i : Instrument) (n : Nat) : (i.steps n).countP HarvestStep.isSleep ≤ i.longestHarvest := by
  unfold steps longestHarvest
  cases i.behaviour with
  | fixed values jitter noise => exact (fixedSteps_isSleep values jitter (noise n)).le
  | scripted scripts closeFails =>
    simp only
    split_ifs with hnone
    · exact Nat.zero_le _
    · have hlt : n % scripts.length < scripts.length :=
        Nat.mod_lt _ (List.length_pos_iff.2 fun h => hnone (by rw [h]; rfl))
      rw [List.getD_eq_getElem?_getD, List.getElem?_eq_getElem hlt, Option.getD_some]
      exact List.countP_le_length.trans (le_foldl_max (List.mem_map_of_mem (List.getElem_mem hlt)))

end Instrument

theorem Fleet.harvests_isSleep_le (fleet : Fleet) (sensors : List Sensor) :
    ∀ steps ∈ fleet.harvests sensors, steps.countP HarvestStep.isSleep ≤ fleet.longest := by
  induction sensors generalizing fleet with
  | nil => exact fun steps h => absurd h List.not_mem_nil
  | cons s sensors ih =>
    intro steps hsteps
    rw [harvests] at hsteps
    rcases List.mem_cons.1 hsteps with rfl | hrest
    · unfold beginHarvest
      split
      · rename_i i hi
        have hmem : i.longestHarvest ∈ fleet.map Instrument.longestHarvest :=
          List.mem_map_of_mem (List.mem_of_getElem? hi)
        exact (i.steps_isSleep_le i.harvests).trans (le_foldl_max hmem)
      · exact Nat.zero_le _
    · exact fleet.beginHarvest_longest s ▸ ih _ steps hrest

end SensorNode
