/-
How the job of a subscription stands between the cycles that it starts. It is idle until its next tick falls due, and
busy in a cycle and in the delivery of its readings. An action of the engine or of anyone else does one of few things to
it (`Change`), and nothing else (`perform_change`); a cycle of the subscription only starts by a turn of that job
(`Tracked.none_begins`). The tick after one that is taken is due at least a period later (`le_nextTick`).
-/
import SensorNode.Proofs.Reading.Cancellation
import SensorNode.Proofs.Reading.Single

namespace SensorNode

/-- how a job stands between the cycles that it starts -/
inductive Job.Standing
  /-- it has not run yet -/
  | fresh
  /-- its next tick is due then, and it waits for it -/
  | idle (due : Nat)
  /-- its next tick is due then, and it is in the middle of a cycle or of a delivery -/
  | busy (due : Nat)
  /-- there is no such job any more -/
  | gone
  deriving DecidableEq, Repr

def Job.Standing.isBusy : Job.Standing → Bool
  | .busy _ => true
  | _ => false

def Job.standing (job : Job) : Job.Standing :=
  match job.phase with
  | .fresh => .fresh
  | .waiting due => .idle due
  | .harvesting _ next => .busy next
  | .delivering _ next => .busy next

namespace Engine

variable {e : Engine} {k : CancelHandle} {p : Duration}

def standing (e : Engine) (name : Nat) : Job.Standing :=
  match e.jobs.find? name with
  | some job => job.standing
  | none => .gone

/-- a cycle of the subscription starts -/
def Entry.begins (k : CancelHandle) (x : Entry) : Bool := x.order.isFor k && x.effect.isStart

/-- a job of the subscription is in the middle of a cycle or of a delivery -/
def isBusy (e : Engine) (k : CancelHandle) : Bool := e.jobs.values.any fun job => job.order.isFor k && job.standing.isBusy

/-! ## Steps -/

/-- What an action may do to the job of a subscription with period `p`: how it stands before and after, and whether a
cycle starts. -/
inductive Change (p : Duration) (now : Nat) (cancelled : Bool) : Job.Standing → Job.Standing → Bool → Prop
  | stays (s : Job.Standing) : Change p now cancelled s s false
  | arises : Change p now cancelled .fresh (.idle (now + p.millis)) false
  /-- the first tick lies beyond the clock -/
  | dies (late : horizon ≤ now + p.millis) : Change p now cancelled .fresh .gone false
  | begins (due : Nat) (h : due ≤ now) : Change p now cancelled (.idle due) (.busy (nextTick p due now)) true
  /-- a cycle that takes no time, and neither does its delivery -/
  | passes (due : Nat) (h : due ≤ now) : Change p now cancelled (.idle due) (.idle (nextTick p due now)) true
  | returns (next : Nat) : Change p now cancelled (.busy next) (.idle next) false
  | ends (s : Job.Standing) (h : cancelled = true) : Change p now cancelled s .gone false

theorem standing_of_find? {name : Nat} {job : Job} (hj : e.jobs.find? name = some job) :
    e.standing name = job.standing := by
  simp only [standing, hj]

theorem setPhase_standing {name : Nat} {job : Job} (hj : e.jobs.find? name = some job) (phase : Job.Phase) :
    (e.setPhase name phase).standing name = Job.standing ⟨job.order, phase⟩ := by
  refine standing_of_find? ?_
  rw [setPhase_find?, if_pos rfl, hj]
  rfl

theorem endJob_standing (e : Engine) (name : Nat) (order : Order) : (e.endJob name order).standing name = .gone := by
  simp only [standing, endJob_find?, if_true]

theorem afterDelivery_standing {name : Nat} {job : Job} (hj : e.jobs.find? name = some job)
    (hc : job.order.cadence = .every p k) (next : Nat) :
    (e.afterDelivery name job.order next).standing name =
      if e.flags.isCancelled k then .gone else .idle next := by
  simp only [afterDelivery, hc]
  split_ifs
  · exact endJob_standing e name job.order
  · exact setPhase_standing hj _

/-- when a cycle ends, the readings are still being taken, or they are taken at once -/
theorem completeCycle_standing {name : Nat} {job : Job} (hj : e.jobs.find? name = some job)
    (hc : job.order.cadence = .every p k) (h : Harvesting) (next : Nat) :
    (e.completeCycle name job.order h next).1.standing name = .busy next ∨
      (e.completeCycle name job.order h next).1.standing name =
        if e.flags.isCancelled k then .gone else .idle next := by
  simp only [completeCycle]
  split_ifs with hhold hcancelled
  · exact Or.inr ((afterDelivery_standing (by exact hj) hc next).trans (if_pos hcancelled))
  · exact Or.inr ((afterDelivery_standing (by exact hj) hc next).trans (if_neg hcancelled))
  · exact Or.inl (setPhase_standing (by exact hj) _)
  · exact Or.inl (setPhase_standing (by exact hj) _)

theorem startCycle_standing {name : Nat} {job : Job} (hj : e.jobs.find? name = some job)
    (hc : job.order.cadence = .every p k) (hlive : e.flags.isCancelled k = false) (next : Nat) :
    (e.startCycle name job.order next).1.standing name = .busy next ∨
      (e.startCycle name job.order next).1.standing name = .idle next := by
  simp only [startCycle]
  split_ifs
  · have h := completeCycle_standing hj hc (Harvesting.start (e.eligible job.order.metrics) job.order.metrics e.now
      e.timeout) next
    rwa [hlive, if_neg Bool.false_ne_true] at h
  · exact Or.inl (setPhase_standing hj _)

/-- a start is among the effects of a cycle that starts, and of nothing else -/
theorem any_isStart_startCycle (e : Engine) (name : Nat) (order : Order) (next : Nat) :
    (e.startCycle name order next).2.any Effect.isStart = true := by
  obtain ⟨rest, hrest, -⟩ := startCycle_effects e name order next
  rw [hrest]
  rfl

theorem any_isStart_completeCycle (e : Engine) (name : Nat) (order : Order) (h : Harvesting) (next : Nat) :
    (e.completeCycle name order h next).2.any Effect.isStart = false := by
  rw [completeCycle_effects]
  rfl

/-- the job has its first turn -/
theorem advance_fresh {name : Nat} {order : Order} (hj : e.jobs.find? name = some ⟨order, .fresh⟩)
    (hc : order.cadence = .every p k) :
    (e.advance name).2 = [] ∧ ((e.advance name).1.standing name = .idle (e.now + p.millis) ∨
      (e.advance name).1.standing name = .gone ∧
        (horizon ≤ e.now + p.millis ∨ e.flags.isCancelled k = true)) := by
  unfold advance
  simp only [hj, hc]
  split_ifs with hlate hcancelled
  · refine ⟨rfl, Or.inr ⟨?_, Or.inl hlate⟩⟩
    simp only [standing, Keyed.find?_erase, if_true]
  · exact ⟨rfl, Or.inr ⟨endJob_standing e name order, Or.inr hcancelled⟩⟩
  · exact ⟨rfl, Or.inl (setPhase_standing hj _)⟩

/-- the job goes on -/
theorem advance_change {name : Nat} {job : Job} (hj : e.jobs.find? name = some job)
    (hc : job.order.cadence = .every p k) :
    Change p e.now (e.flags.isCancelled k) (e.standing name) ((e.advance name).1.standing name)
      ((e.advance name).2.any Effect.isStart) := by
  obtain ⟨order, phase⟩ := job
  have hc : order.cadence = .every p k := hc
  rw [standing_of_find? hj]
  by_cases hfresh : phase = .fresh
  · subst hfresh
    obtain ⟨hnone, hs | ⟨hs, hlate | hcancelled⟩⟩ := advance_fresh hj hc <;> rw [hnone, hs]
    · exact .arises
    · exact .dies hlate
    · exact .ends _ hcancelled
  unfold advance
  simp only [hj, hc]
  cases phase with
  | fresh => exact absurd rfl hfresh
  | waiting due =>
    dsimp only
    split_ifs with hcancelled hdue
    · rw [endJob_standing]
      exact .ends _ hcancelled
    · rw [any_isStart_startCycle]
      rcases startCycle_standing hj hc (by simpa using hcancelled) (nextTick p due e.now) with h | h <;> rw [h]
      · exact .begins due hdue
      · exact .passes due hdue
    · rw [standing_of_find? hj]
      exact .stays _
  | harvesting h next =>
    dsimp only
    split_ifs with hdue
    · rw [any_isStart_completeCycle]
      rcases completeCycle_standing hj hc h next with hs | hs <;> rw [hs]
      · exact .stays _
      · split_ifs with hcancelled
        · exact .ends _ hcancelled
        · exact .returns next
    · rw [standing_of_find? hj]
      exact .stays _
  | delivering done next =>
    dsimp only
    split_ifs with hdone
    · rw [afterDelivery_standing hj hc]
      split_ifs with hcancelled
      · exact .ends _ hcancelled
      · exact .returns next
    · rw [standing_of_find? hj]
      exact .stays _

theorem Job.sense_standing (job : Job) (events : List (Nat × Cycle.Event)) (change : List Player → List Player) :
    (job.sense events change).standing = job.standing := by
  obtain ⟨order, phase⟩ := job
  cases phase <;> rfl

theorem Job.linger_standing (job : Job) (done : Nat) : (Job.linger job done).standing = job.standing := by
  obtain ⟨order, phase⟩ := job
  cases phase <;> rfl

/-- an action that is not the job's own leaves it as it stands, with its order -/
theorem perform_of_ne {name : Nat} (hlt : name < e.nextJob) {a : Action} (ha : a ≠ .base (.move (.advance name))) :
    (e.perform a).1.standing name = e.standing name ∧
      ∀ job', (e.perform a).1.jobs.find? name = some job' →
        ∃ job, e.jobs.find? name = some job ∧ job'.order = job.order := by
  -- one change of the job that touches neither
  have of_map : ∀ {jobs : Option Job} (change : Job → Job), (∀ job, (change job).standing = job.standing) →
      (∀ job, (change job).order = job.order) → (e.perform a).1.jobs.find? name = jobs.map change →
      e.jobs.find? name = jobs →
      (e.perform a).1.standing name = e.standing name ∧
        ∀ job', (e.perform a).1.jobs.find? name = some job' →
          ∃ job, e.jobs.find? name = some job ∧ job'.order = job.order := by
    intro jobs change hstanding horder hafter hbefore
    cases jobs with
    | none =>
      refine ⟨by simp only [standing, hafter, hbefore, Option.map_none], fun job' hj' => ?_⟩
      rw [hafter] at hj'
      exact absurd hj' (by simp)
    | some job =>
      refine ⟨by simp only [standing, hafter, hbefore, Option.map_some, hstanding], fun job' hj' => ?_⟩
      rw [hafter] at hj'
      obtain rfl := Option.some.inj hj'
      exact ⟨job, hbefore, horder job⟩
  cases a with
  | base op =>
    obtain ⟨change, hstep⟩ := step_find?_of_ne op name hlt fun hop => ha (congrArg Action.base hop)
    exact of_map _ (fun job => Job.sense_standing job _ change) (fun job => job.sense_order _ change) hstep rfl
  | linger name' done =>
    by_cases hname : name = name'
    · subst hname
      refine of_map (Job.linger · done) (fun job => Job.linger_standing job done)
        (fun job => Job.linger_order job done) ?_ rfl
      exact (linger_find? e name name done).trans (if_pos rfl)
    · refine of_map id (fun _ => rfl) (fun _ => rfl) ?_ rfl
      rw [Option.map_id]
      exact (linger_find? e name' name done).trans (if_neg hname)

/-! ## The job of a subscription -/

/-- whatever job there is of the subscription has this name, and the job of this name is one of the subscription -/
structure Tracked (p : Duration) (k : CancelHandle) (name : Nat) (e : Engine) : Prop where
  sole : Sole k name e
  cadence : ∀ job, e.jobs.find? name = some job → job.order.cadence = .every p k

variable {name : Nat}

theorem Tracked.isFor (h : Tracked p k name e) {job : Job} (hj : e.jobs.find? name = some job) :
    job.order.isFor k = true := (job.order.isFor_iff k).2 ⟨p, h.cadence job hj⟩

theorem Tracked.perform (h : Tracked p k name e) (a : Action) : Tracked p k name (e.perform a).1 := by
  refine ⟨h.sole.perform a, fun job hj => ?_⟩
  rcases perform_order e a hj with ⟨old, hold, horder⟩ | ⟨hname, -⟩
  · rw [horder]
    exact h.cadence old hold
  · exact absurd h.sole.used (by omega)

theorem Tracked.isBusy_eq (h : Tracked p k name e) : e.isBusy k = (e.standing name).isBusy := by
  rw [Bool.eq_iff_iff]
  simp only [isBusy, List.any_eq_true, Keyed.mem_values_iff, Bool.and_eq_true]
  constructor
  · rintro ⟨job, ⟨name', hj⟩, hk, hbusy⟩
    obtain rfl := h.sole.only name' job hj hk
    rwa [standing_of_find? hj]
  · intro hbusy
    cases hj : e.jobs.find? name with
    | none => simp [standing, hj, Job.Standing.isBusy] at hbusy
    | some job =>
      rw [standing_of_find? hj] at hbusy
      exact ⟨job, ⟨name, hj⟩, h.isFor hj, hbusy⟩

/-- no cycle of the subscription starts but by a turn of its job -/
theorem Tracked.none_begins (h : Tracked p k name e) {a : Action} (ha : a ≠ .base (.move (.advance name))) :
    (e.perform a).2.any (Entry.begins k) = false := by
  rw [List.any_eq_false]
  intro x hx hbegins
  cases a with
  | base op =>
    obtain ⟨rfl, hx⟩ := mem_step_log hx
    obtain ⟨job, hj, -, -, horder, -⟩ := mem_entries hx
    have hk : job.order.isFor k = true := horder ▸ (Bool.and_eq_true_iff.1 hbegins).1
    exact ha (by rw [h.sole.only x.job job hj hk])
  | linger name' done => exact absurd hx (by simp [Engine.perform])

/-- what an action may do to the job, and when a cycle starts -/
theorem perform_change (h : Tracked p k name e) (a : Action) :
    Change p e.now (e.flags.isCancelled k) (e.standing name) ((e.perform a).1.standing name)
      ((e.perform a).2.any (Entry.begins k)) := by
  by_cases ha : a = .base (.move (.advance name))
  · subst ha
    simp only [Engine.perform, step, move]
    cases hj : e.jobs.find? name with
    | none =>
      simp only [advance_of_none e name hj, entries, hj, List.any_nil]
      exact .stays _
    | some job =>
      have hany : (e.entries name).any (Entry.begins k) = (e.advance name).2.any Effect.isStart := by
        rw [entries_of_find? hj, List.any_map]
        refine congrArg (e.advance name).2.any (funext fun effect => ?_)
        simp only [Function.comp_apply, Entry.begins, h.isFor hj, Bool.true_and]
      rw [hany]
      exact advance_change hj (h.cadence job hj)
  · rw [h.none_begins ha, (perform_of_ne h.sole.used ha).1]
    exact .stays _

/-- the clock goes on only when time is let pass -/
theorem perform_now (e : Engine) (a : Action) :
    (e.perform a).1.now = e.now ∨ ∃ span, a = .base (.move (.wait span)) := by
  cases a with
  | base op =>
    refine (step_settings e op).2.2.1.imp_right ?_
    rintro ⟨span, rfl⟩
    exact ⟨span, rfl⟩
  | linger name done =>
    refine Or.inl ?_
    simp only [Engine.perform]
    rcases linger_eq e name done with hl | ⟨phase, hl⟩ <;> rw [hl]
    rfl

theorem perform_raised (a : Action) (h : e.flags.isCancelled k = true) :
    (e.perform a).1.flags.isCancelled k = true := by
  cases a with
  | base op => exact step_raised op h
  | linger name done =>
    simp only [Engine.perform]
    rcases linger_eq e name done with hl | ⟨phase, hl⟩ <;> rw [hl] <;> exact h

/-! ## Ticks -/

/-- the tick after one that is taken is due at least a period later -/
theorem le_nextTick (p : Duration) {due now : Nat} (h : due ≤ now) : due + p.millis ≤ nextTick p due now := by
  unfold nextTick
  have := Nat.mod_le (now - due) p.millis
  split_ifs <;> omega

/-- a tick that is taken in time is followed by one a period later -/
theorem nextTick_self (p : Duration) (due : Nat) : nextTick p due due = due + p.millis := by
  unfold nextTick
  rw [if_neg (by simp [lateness])]

end Engine

end SensorNode
