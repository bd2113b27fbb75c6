/-
The cycles of jobs. A turn of a job starts a cycle over the sensors that are eligible then, or ends the one that is under
way and delivers its readings, or does both, or neither (`advance_harvest`); besides its turns only its sensors do
anything to its cycle (`move_underWay?`). Whatever they do, there are readings only of the metrics that the cycle is for
(`Cycle.mem_of_readings`).
-/
import SensorNode.Proofs.Harvest.Outcome
import SensorNode.Proofs.Reading.Cancellation

namespace SensorNode

namespace Cycle

/-- what sensors do does not change which metrics are wanted -/
theorem run_wants (c : Cycle) (events : List (Nat × Event)) (m : Metric) :
    (c.run events).pipe.wants m = c.pipe.wants m := by
  induction events generalizing c with
  | nil => rfl
  | cons x events ih =>
    rw [run_cons, ih]
    by_cases h : ∃ source, c.seats[x.1]? = some ⟨source, .harvesting⟩
    · obtain ⟨source, hs⟩ := h
      exact apply_wants c x.1 x.2 source m hs
    · rw [apply_of_not_harvesting c x.1 x.2 fun source hs => h ⟨source, hs⟩]

/-- a metric that there is a reading of is one that the cycle is for -/
theorem mem_of_readings {sources : List String} {metrics : List Metric} {events : List (Nat × Event)}
    {policy : Reduction} {m : Metric} (h : m ∈ (((start sources metrics).run events).readings policy).keys) :
    m ∈ metrics := by
  rw [← start_wants sources metrics m, ← run_wants _ events m]
  rw [← Keyed.find?_isSome_iff, readings, Keyed.find?_filterMapValues] at h
  obtain ⟨v, hv⟩ := Option.isSome_iff_exists.1 h
  obtain ⟨queue, hqueue, -⟩ := Option.bind_eq_some_iff.1 hv
  exact Option.isSome_iff_exists.2 ⟨queue, hqueue⟩

end Cycle

namespace Engine

variable {e : Engine} {name : Nat}

/-- the cycle that a job for these metrics would start now -/
def fresh (e : Engine) (metrics : List Metric) : Cycle := Cycle.start ((e.eligible metrics).map Sensor.id) metrics

/-- the cycle of a job that is under way, with the order that it is for -/
def Job.cycle? (job : Job) : Option (Order × Cycle) :=
  match job.phase with
  | .harvesting h _ => some (job.order, h.cycle)
  | _ => none

/-- the cycle that is under way for the job of this name -/
def underWay? (e : Engine) (name : Nat) : Option (Order × Cycle) := (e.jobs.find? name).bind Job.cycle?

theorem underWay?_of_find? {job : Job} (hj : e.jobs.find? name = some job) : e.underWay? name = Job.cycle? job := by
  rw [underWay?, hj]
  rfl

theorem underWay?_of_none (hj : e.jobs.find? name = none) : e.underWay? name = none := by
  rw [underWay?, hj]
  rfl

theorem underWay?_setPhase {job : Job} (hj : e.jobs.find? name = some job) (phase : Job.Phase) :
    (e.setPhase name phase).underWay? name = Job.cycle? { job with phase } := by
  rw [underWay?, setPhase_find?, if_pos rfl, hj]
  rfl

theorem underWay?_endJob (e : Engine) (name : Nat) (order : Order) : (e.endJob name order).underWay? name = none := by
  refine underWay?_of_none ?_
  rw [endJob_find?, if_pos rfl]

/-! ## A turn of a job -/

/-- what is to be seen of a turn of a job with this order, and what cycle is under way after it -/
inductive Harvest (e : Engine) (name : Nat) (order : Order) : List Effect → Option (Order × Cycle) → Prop
  | rests {cycle} (same : cycle = none ∨ cycle = e.underWay? name) : Harvest e name order [] cycle
  | starts : Harvest e name order [.started order (e.eligible order.metrics)] (some (order, e.fresh order.metrics))
  | ends {cycle} (ends : e.underWay? name = some (order, cycle)) :
      Harvest e name order [.delivered ⟨e.now, order.recipient, cycle.readings e.policy⟩] none
  | passes : Harvest e name order [.started order (e.eligible order.metrics),
      .delivered ⟨e.now, order.recipient, (e.fresh order.metrics).readings e.policy⟩] none

theorem afterDelivery_underWay? {job : Job} (hj : e.jobs.find? name = some job) (next : Nat) :
    (e.afterDelivery name job.order next).underWay? name = none := by
  unfold afterDelivery
  split
  · exact underWay?_endJob ..
  · split_ifs
    · exact underWay?_endJob ..
    · exact underWay?_setPhase hj _

theorem completeCycle_underWay? {job : Job} (hj : e.jobs.find? name = some job) (h : Harvesting) (next : Nat) :
    (e.completeCycle name job.order h next).1.underWay? name = none := by
  simp only [completeCycle]
  split_ifs
  · exact afterDelivery_underWay? (by exact hj) next
  · exact underWay?_setPhase (by exact hj) _

theorem startCycle_harvest {job : Job} (hj : e.jobs.find? name = some job) (next : Nat) :
    Harvest e name job.order (e.startCycle name job.order next).2 ((e.startCycle name job.order next).1.underWay? name) := by
  simp only [startCycle]
  split_ifs
  · rw [completeCycle_underWay? hj, completeCycle_effects]
    exact .passes
  · rw [underWay?_setPhase hj]
    exact .starts

theorem advance_harvest {job : Job} (hj : e.jobs.find? name = some job) :
    Harvest e name job.order (e.advance name).2 ((e.advance name).1.underWay? name) := by
  obtain ⟨order, phase⟩ := job
  have gone : ∀ {e' : Engine}, e'.underWay? name = none → Harvest e name order [] (e'.underWay? name) :=
    fun h => .rests (Or.inl h)
  unfold advance
  simp only [hj]
  split
  · exact startCycle_harvest hj 0
  · split_ifs
    · refine gone (underWay?_of_none ?_)
      rw [Keyed.find?_erase, if_pos rfl]
    · exact gone (underWay?_endJob ..)
    · exact gone (underWay?_setPhase hj _)
  · split_ifs
    · exact gone (underWay?_endJob ..)
    · exact startCycle_harvest hj _
    · exact .rests (Or.inr rfl)
  · exact .rests (Or.inr rfl)
  · rename_i h next _
    split_ifs
    · rw [completeCycle_effects, completeCycle_underWay? hj]
      exact .ends (underWay?_of_find? hj)
    · exact .rests (Or.inr rfl)
  · split_ifs
    · exact gone (afterDelivery_underWay? hj _)
    · exact .rests (Or.inr rfl)

/-- what is delivered in a turn are the readings of the cycle that was under way, or of one that has just started -/
theorem delivered_of_mem_entries {x : Entry} (hx : x ∈ e.entries name) {d : Delivery} (hd : x.effect = .delivered d) :
    (∃ c, e.underWay? name = some (x.order, c) ∧ e.entries name = [x] ∧
        d = ⟨e.now, x.order.recipient, c.readings e.policy⟩) ∨
      e.entries name = [⟨e.now, name, x.order, .started x.order (e.eligible x.order.metrics)⟩, x] ∧
        d = ⟨e.now, x.order.recipient, (e.fresh x.order.metrics).readings e.policy⟩ := by
  obtain ⟨job, hj, -⟩ := mem_entries hx
  have hentries := entries_of_find? hj
  have hharvest := advance_harvest hj
  rw [hentries] at hx ⊢
  obtain ⟨effect, hmem, rfl⟩ := List.mem_map.1 hx
  obtain rfl : effect = .delivered d := hd
  generalize (e.advance name).2 = effects at hharvest hmem ⊢
  generalize (e.advance name).1.underWay? name = after at hharvest
  cases hharvest with
  | rests => cases hmem
  | starts => cases List.mem_singleton.1 hmem
  | ends hunder =>
    cases List.mem_singleton.1 hmem
    exact Or.inl ⟨_, hunder, rfl, rfl⟩
  | passes =>
    rcases List.mem_cons.1 hmem with hmem | hmem
    · cases hmem
    · cases List.mem_singleton.1 hmem
      exact Or.inr ⟨rfl, rfl⟩

/-! ## Other moves -/

theorem Job.sense_cycle? (job : Job) (events : List (Nat × Cycle.Event)) (change : List Player → List Player) :
    Job.cycle? (job.sense events change) = (Job.cycle? job).map fun x => (x.1, x.2.run events) := by
  obtain ⟨order, phase⟩ := job
  cases phase <;> rfl

/-- a job that a move brings in has not run yet -/
theorem move_find?_of_unused (m : Move) (hm : m ≠ .advance name) (hnone : e.jobs.find? name = none) {job : Job}
    (hj : (e.move m).1.jobs.find? name = some job) : job.phase = .fresh := by
  have absent : e.jobs.find? name = some job → job.phase = .fresh := fun h => absurd (h.symm.trans hnone) (by simp)
  by_cases hspares : m.sparesJobs = true
  · rw [(move_jobs e m hspares).1] at hj
    exact absent hj
  cases m with
  | dispatch =>
    simp only [move] at hj
    rcases dispatch_cases e with h | ⟨order, rest, -, -, ⟨h, -⟩ | ⟨period, handle, -, -, h⟩⟩ <;> rw [h] at hj
    · exact absent hj
    · rw [Keyed.find?_insert] at hj
      split_ifs at hj
      · rw [← Option.some.inj hj]
      · exact absent hj
    · exact absent hj
  | advance name' =>
    have hne : name ≠ name' := fun h => hm (h ▸ rfl)
    rw [move, advance_find?_of_ne e hne] at hj
    exact absent hj
  | sense name' events players fleet =>
    simp only [move, sense_find?] at hj
    split_ifs at hj with hname
    · rw [← hname, hnone] at hj
      cases hj
    · exact absent hj
  | _ => exact absurd rfl hspares

/-- A cycle is under way until the next turn of its job, and only the sensors of the job do anything to it. -/
theorem move_underWay? (hr : Regular e) (m : Move) (hm : m ≠ .advance name) :
    (e.move m).1.underWay? name = (e.underWay? name).map fun x => (x.1, x.2.run ((Op.move m).sensed name)) := by
  by_cases hlt : name < e.nextJob
  · obtain ⟨change, hstep⟩ := step_find?_of_ne (.move m) name hlt fun h => hm (Op.move.inj h)
    have hstep : (e.move m).1.jobs.find? name =
        (e.jobs.find? name).map (·.sense ((Op.move m).sensed name) change) := hstep
    rw [underWay?, underWay?, hstep]
    cases e.jobs.find? name with
    | none => rfl
    | some job => exact Job.sense_cycle? job _ change
  · have hnone : e.jobs.find? name = none :=
      Option.eq_none_iff_forall_ne_some.2 fun job hj => hlt (hr.named name job hj)
    rw [underWay?_of_none hnone]
    cases hj : (e.move m).1.jobs.find? name with
    | none => exact underWay?_of_none hj
    | some job =>
      rw [underWay?_of_find? hj, Job.cycle?, move_find?_of_unused m hm hnone hj]
      rfl

end Engine

end SensorNode
