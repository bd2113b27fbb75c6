/-
Two engines that differ in one subscription. `Alike k` says that two engines agree on all but the subscription with
handle `k`: its flag, its place in the table and its job. What that job does keeps an engine alike to itself
(`advance_alike`), and every other step keeps two alike engines alike, with the same to be seen (`Alike.step`); so the
other subscriptions of two runs cannot tell what became of this one (`Alike.run`).
-/
import SensorNode.Proofs.Reading.Jobs

namespace SensorNode

namespace Engine

/-- the job under a name, unless it is one of the subscription with handle `k` -/
def otherJob (e : Engine) (k : CancelHandle) (name : Nat) : Option Job :=
  (e.jobs.find? name).filter fun job => !job.order.isFor k

/-- The engines agree besides the subscription with handle `k`. Counts and errors are left out, which add up over all
jobs. -/
structure Alike (k : CancelHandle) (e c : Engine) : Prop where
  now : c.now = e.now
  timeout : c.timeout = e.timeout
  policy : c.policy = e.policy
  fleet : c.fleet = e.fleet
  pool : c.pool = e.pool
  queue : c.queue = e.queue
  loop : c.loop = e.loop
  stopping : c.stopping = e.stopping
  nextJob : c.nextJob = e.nextJob
  issued : c.flags.issued = e.flags.issued
  flags : ∀ h, h ≠ k → c.flags.isCancelled h = e.flags.isCancelled h
  table : c.subscriptions.filter (· ≠ k) = e.subscriptions.filter (· ≠ k)
  jobs : ∀ name, c.otherJob k name = e.otherJob k name

variable {k : CancelHandle} {e c : Engine}

theorem Alike.refl (k : CancelHandle) (e : Engine) : Alike k e e :=
  ⟨rfl, rfl, rfl, rfl, rfl, rfl, rfl, rfl, rfl, rfl, fun _ _ => rfl, rfl, fun _ => rfl⟩

theorem Alike.symm (h : Alike k e c) : Alike k c e :=
  ⟨h.now.symm, h.timeout.symm, h.policy.symm, h.fleet.symm, h.pool.symm, h.queue.symm, h.loop.symm, h.stopping.symm,
    h.nextJob.symm, h.issued.symm, fun i hi => (h.flags i hi).symm, h.table.symm, fun name => (h.jobs name).symm⟩

theorem Alike.trans {d : Engine} (h : Alike k e c) (i : Alike k c d) : Alike k e d :=
  ⟨i.now.trans h.now, i.timeout.trans h.timeout, i.policy.trans h.policy, i.fleet.trans h.fleet, i.pool.trans h.pool,
    i.queue.trans h.queue, i.loop.trans h.loop, i.stopping.trans h.stopping, i.nextJob.trans h.nextJob,
    i.issued.trans h.issued, fun j hj => (i.flags j hj).trans (h.flags j hj), i.table.trans h.table,
    fun name => (i.jobs name).trans (h.jobs name)⟩

theorem Alike.mem_table (h : Alike k e c) {i : CancelHandle} (hi : i ≠ k) :
    i ∈ c.subscriptions ↔ i ∈ e.subscriptions := by
  have mem : ∀ table : List CancelHandle, i ∈ table ↔ i ∈ table.filter (· ≠ k) := fun table => by
    simp [List.mem_filter, hi]
  rw [mem, h.table, ← mem]

theorem filter_erase_self (table : List CancelHandle) (k : CancelHandle) :
    (table.erase k).filter (· ≠ k) = table.filter (· ≠ k) := by
  rw [← List.erase_filter]
  exact List.erase_of_not_mem (by simp [List.mem_filter])

theorem Alike.table_erase (h : Alike k e c) (i : CancelHandle) :
    (c.subscriptions.erase i).filter (· ≠ k) = (e.subscriptions.erase i).filter (· ≠ k) := by
  rw [← List.erase_filter, ← List.erase_filter, h.table]

/-! ## Jobs that are not of the subscription -/

theorem otherJob_eq_some {name : Nat} {job : Job} :
    e.otherJob k name = some job ↔ e.jobs.find? name = some job ∧ job.order.isFor k = false := by
  simp [otherJob, Option.filter_eq_some_iff]

theorem otherJob_eq_none {name : Nat} :
    e.otherJob k name = none ↔ ∀ job, e.jobs.find? name = some job → job.order.isFor k = true := by
  simp [otherJob, Option.filter_eq_none_iff]

theorem otherJob_map (jobs : Option Job) (change : Job → Job) (horder : ∀ job, (change job).order = job.order) :
    (jobs.map change).filter (fun job => !job.order.isFor k) =
      (jobs.filter fun job => !job.order.isFor k).map change := by
  cases jobs with
  | none => rfl
  | some job =>
    simp only [Option.map_some, Option.filter, horder]
    split_ifs <;> rfl

theorem setPhase_otherJob (e : Engine) (name name' : Nat) (phase : Job.Phase) :
    (e.setPhase name phase).otherJob k name' =
      if name' = name then (e.otherJob k name).map fun job => { job with phase := phase }
      else e.otherJob k name' := by
  simp only [otherJob, setPhase_find?]
  split_ifs
  · exact otherJob_map _ (fun job => { job with phase := phase }) fun _ => rfl
  · rfl

theorem sense_otherJob (e : Engine) (name name' : Nat) (events : List (Nat × Cycle.Event)) (players : List Player)
    (fleet : Fleet) :
    (e.sense name events players fleet).otherJob k name' =
      if name' = name then (e.otherJob k name).map (·.sense events fun _ => players) else e.otherJob k name' := by
  simp only [otherJob, sense_find?]
  split_ifs
  · exact otherJob_map _ (·.sense events fun _ => players) fun job => job.sense_order events _
  · rfl

theorem endJob_otherJob (e : Engine) (name name' : Nat) (order : Order) :
    (e.endJob name order).otherJob k name' = if name' = name then none else e.otherJob k name' := by
  simp only [otherJob, endJob_find?]
  split_ifs <;> rfl

/-! ## Steps of the subscription's own job -/

theorem Outcome.alike {name : Nat} {job : Job} {e' : Engine} (h : Outcome e name job e')
    (hj : e.jobs.find? name = some job) (hk : job.order.isFor k = true) : Alike k e e' := by
  have hnone : e.otherJob k name = none :=
    otherJob_eq_none.2 fun job' hj' => by rw [hj] at hj'; exact Option.some.inj hj' ▸ hk
  have erased : ∀ name', ((e.jobs.erase name).find? name').filter (fun job => !job.order.isFor k) =
      e.otherJob k name' := by
    intro name'
    rw [Keyed.find?_erase]
    split_ifs with hname
    · rw [hname]
      exact hnone.symm
    · rfl
  cases h with
  | stays => exact Alike.refl k e
  | dies => exact { Alike.refl k e with jobs := erased }
  | ends =>
    obtain ⟨period, hc⟩ := (job.order.isFor_iff k).1 hk
    have hend : e.endJob name job.order =
        { e with jobs := e.jobs.erase name, subscriptions := e.subscriptions.erase k } := by
      simp only [endJob, hc]
    rw [hend]
    exact { Alike.refl k e with table := filter_erase_self e.subscriptions k, jobs := erased }
  | goesOn phase =>
    refine { Alike.refl k e with jobs := fun name' => ?_ }
    rw [setPhase_otherJob]
    split_ifs with hname
    · rw [hname, hnone]
      rfl
    · rfl

theorem recount_alike (k : CancelHandle) (e : Engine) (errors : List (Nat × HarvestError)) (cycles : Nat) :
    Alike k e (e.recount errors cycles) :=
  { Alike.refl k e with }

/-- what the subscription's own job does leaves all else as it is -/
theorem advance_alike (e : Engine) (name : Nat) (h : e.otherJob k name = none) : Alike k e (e.advance name).1 := by
  cases hj : e.jobs.find? name with
  | none =>
    rw [advance_of_none e name hj]
    exact Alike.refl k e
  | some job =>
    obtain ⟨errors, cycles, ho⟩ := advance_outcome e name job hj
    exact (recount_alike k e errors cycles).trans (ho.alike hj (otherJob_eq_none.1 h job hj))

theorem cancel_alike (k : CancelHandle) (e : Engine) : Alike k e (e.cancel k) :=
  { Alike.refl k e with
    issued := CancelFlags.issued_cancel _ _
    flags := fun i hi => by simp [cancel, CancelFlags.isCancelled_cancel, hi] }

/-- the drive loop drops the subscription's order or makes a job of it -/
theorem dispatch_alike (hr : Regular e) (hl : e.loop = .running) {order : Order} {rest : List Order}
    (hq : e.queue = order :: rest) (hk : order.isFor k = true) :
    Alike k { e with queue := rest, nextJob := e.nextJob + 1 } e.dispatch := by
  obtain ⟨period, hc⟩ := (order.isFor_iff k).1 hk
  by_cases hcancelled : e.flags.isCancelled k = true
  · have hd : e.dispatch = { e with
        queue := rest, subscriptions := e.subscriptions.erase k, nextJob := e.nextJob + 1 } := by
      simp only [dispatch, hl, hq, hc, hcancelled, if_true]
    rw [hd]
    exact { Alike.refl k { e with queue := rest, nextJob := e.nextJob + 1 } with
      table := filter_erase_self e.subscriptions k }
  · have hd : e.dispatch = { e with
        queue := rest, jobs := e.jobs.insert e.nextJob ⟨order, .fresh⟩, nextJob := e.nextJob + 1 } := by
      simp only [dispatch, hl, hq, hc, hcancelled, if_false, Bool.false_eq_true]
    rw [hd]
    refine { Alike.refl k { e with queue := rest, nextJob := e.nextJob + 1 } with jobs := fun name => ?_ }
    simp only [otherJob, Keyed.find?_insert]
    split_ifs with hname
    · -- no job had this name
      subst hname
      simp [hr.unused, Option.filter, hk]
    · rfl

/-! ## Other steps -/

theorem Alike.setPhase (h : Alike k e c) (name : Nat) {phase phase' : Job.Phase} (hp : phase' = phase) :
    Alike k (e.setPhase name phase) (c.setPhase name phase') :=
  { h with jobs := fun name' => by simp only [setPhase_otherJob, h.jobs, hp] }

theorem Alike.endJob (h : Alike k e c) (name : Nat) (order : Order) :
    Alike k (e.endJob name order) (c.endJob name order) := by
  have hjobs : ∀ name', (c.endJob name order).otherJob k name' = (e.endJob name order).otherJob k name' :=
    fun name' => by simp only [endJob_otherJob, h.jobs]
  revert hjobs
  unfold Engine.endJob
  split
  · exact fun hjobs => { h with jobs := hjobs }
  · rename_i period handle hc
    exact fun hjobs => { h with table := h.table_erase handle, jobs := hjobs }

theorem Alike.afterDelivery (h : Alike k e c) (name : Nat) (order : Order) (next : Nat)
    (hk : order.isFor k = false) : Alike k (e.afterDelivery name order next) (c.afterDelivery name order next) := by
  unfold Engine.afterDelivery
  split
  · exact h.endJob name order
  · rename_i period handle hc
    have hne : handle ≠ k := by
      rintro rfl
      simp [Order.isFor, hc] at hk
    rw [h.flags handle hne]
    split_ifs
    · exact h.endJob name order
    · exact h.setPhase name rfl

theorem Alike.recount (h : Alike k e c) (errors errors' : List (Nat × HarvestError)) (cycles cycles' : Nat) :
    Alike k (e.recount errors cycles) (c.recount errors' cycles') :=
  (recount_alike k e errors cycles).symm.trans (h.trans (recount_alike k c errors' cycles'))

theorem Alike.completeCycle (h : Alike k e c) (name : Nat) (order : Order) (hv : Harvesting) (next : Nat)
    (hk : order.isFor k = false) :
    Alike k (e.completeCycle name order hv next).1 (c.completeCycle name order hv next).1 ∧
      (c.completeCycle name order hv next).2 = (e.completeCycle name order hv next).2 := by
  refine ⟨?_, by rw [completeCycle_effects, completeCycle_effects, h.now, h.policy]⟩
  simp only [Engine.completeCycle]
  split_ifs
  · exact (h.recount _ _ _ _).afterDelivery name order next hk
  · exact (h.recount _ _ _ _).setPhase name (by rw [h.now])

theorem Alike.eligible (h : Alike k e c) (metrics : List Metric) : c.eligible metrics = e.eligible metrics := by
  simp only [Engine.eligible, h.pool, h.fleet]

theorem Alike.startCycle (h : Alike k e c) (name : Nat) (order : Order) (next : Nat)
    (hk : order.isFor k = false) :
    Alike k (e.startCycle name order next).1 (c.startCycle name order next).1 ∧
      (c.startCycle name order next).2 = (e.startCycle name order next).2 := by
  simp only [Engine.startCycle, h.eligible, h.now, h.timeout]
  split_ifs
  · have hc := h.completeCycle name order (Harvesting.start (e.eligible order.metrics) order.metrics e.now e.timeout)
      next hk
    exact ⟨hc.1, by rw [hc.2]⟩
  · exact ⟨h.setPhase name rfl, rfl⟩

/-- another job goes on in the same way in both engines -/
theorem Alike.advance (h : Alike k e c) (name : Nat) (job : Job) (hj : e.otherJob k name = some job) :
    Alike k (e.advance name).1 (c.advance name).1 ∧ (c.advance name).2 = (e.advance name).2 := by
  obtain ⟨hje, hk⟩ := otherJob_eq_some.1 hj
  obtain ⟨hjc, -⟩ := otherJob_eq_some.1 ((h.jobs name).trans hj)
  obtain ⟨order, phase⟩ := job
  have hflag : ∀ period handle, order.cadence = .every period handle →
      c.flags.isCancelled handle = e.flags.isCancelled handle := by
    intro period handle hc
    refine h.flags handle ?_
    rintro rfl
    simp [Order.isFor, hc] at hk
  unfold Engine.advance
  simp only [hje, hjc]
  split
  · exact h.startCycle name order 0 hk
  · rename_i period handle hc
    rw [h.now, hflag period handle hc]
    split_ifs
    · refine ⟨{ h with now := rfl, jobs := fun name' => ?_ }, rfl⟩
      have hjobs := h.jobs name'
      simp only [otherJob, Keyed.find?_erase] at hjobs ⊢
      split_ifs
      · rfl
      · exact hjobs
    · exact ⟨h.endJob name order, rfl⟩
    · exact ⟨h.setPhase name rfl, rfl⟩
  · rename_i period handle due hc
    rw [h.now, hflag period handle hc]
    split_ifs
    · exact ⟨h.endJob name order, rfl⟩
    · exact h.startCycle name order _ hk
    · exact ⟨h, rfl⟩
  · exact ⟨h, rfl⟩
  · rw [h.now]
    split_ifs
    · exact h.completeCycle name order _ _ hk
    · exact ⟨h, rfl⟩
  · rw [h.now]
    split_ifs
    · exact ⟨h.afterDelivery name order _ hk, rfl⟩
    · exact ⟨h, rfl⟩

theorem Alike.cancel (h : Alike k e c) (handle : CancelHandle) : Alike k (e.cancel handle) (c.cancel handle) :=
  { h with
    issued := by simp only [Engine.cancel, CancelFlags.issued_cancel, h.issued]
    flags := fun i hi => by simp only [Engine.cancel, CancelFlags.isCancelled_cancel, h.flags i hi] }

theorem Alike.cancelAll (h : Alike k e c) : Alike k e.cancelAll c.cancelAll :=
  { h with
    issued := by simp only [Engine.cancelAll, CancelFlags.issued_cancelAll, h.issued]
    flags := fun i hi => by
      have hmem : c.subscriptions.contains i = e.subscriptions.contains i := by
        rw [Bool.eq_iff_iff, List.contains_iff_mem, List.contains_iff_mem]
        exact h.mem_table hi
      simp only [Engine.cancelAll, CancelFlags.isCancelled_cancelAll, h.flags i hi, hmem]
    table := rfl }

theorem dispatch_of_not_running (hl : e.loop ≠ .running) : e.dispatch = e := by
  rcases dispatch_cases e with h | ⟨order, rest, hrunning, -⟩
  · exact h
  · exact absurd hrunning hl

theorem dispatch_of_cons {order : Order} {rest : List Order} (hl : e.loop = .running)
    (hq : e.queue = order :: rest) :
    e.dispatch =
      let spawned := { e with
        queue := rest, jobs := e.jobs.insert e.nextJob ⟨order, .fresh⟩, nextJob := e.nextJob + 1 }
      match order.cadence with
      | .once => spawned
      | .every _ handle =>
        if e.flags.isCancelled handle then
          { e with queue := rest, subscriptions := e.subscriptions.erase handle, nextJob := e.nextJob + 1 }
        else spawned := by
  unfold Engine.dispatch
  split
  · rename_i order' rest' hl' hq'
    obtain ⟨rfl, rfl⟩ := List.cons.inj (hq.symm.trans hq')
    rfl
  · rename_i hnot
    exact absurd hq (hnot order rest hl)

theorem dispatch_of_empty (hq : e.queue = []) : e.dispatch = e := by
  rcases dispatch_cases e with h | ⟨order, rest, -, hcons, -⟩
  · exact h
  · rw [hq] at hcons
    exact absurd hcons (by simp)

theorem Alike.dispatch (he : Regular e) (hc : Regular c) (h : Alike k e c) : Alike k e.dispatch c.dispatch := by
  by_cases hl : e.loop = .running
  · cases hq : e.queue with
    | nil =>
      rw [dispatch_of_empty hq, dispatch_of_empty (h.queue.trans hq)]
      exact h
    | cons order rest =>
      have hl' := h.loop.trans hl
      have hq' := h.queue.trans hq
      have taken : Alike k { e with queue := rest, nextJob := e.nextJob + 1 }
          { c with queue := rest, nextJob := c.nextJob + 1 } :=
        { h with queue := rfl, nextJob := by rw [h.nextJob] }
      by_cases hk : order.isFor k = true
      · exact (dispatch_alike he hl hq hk).symm.trans (taken.trans (dispatch_alike hc hl' hq' hk))
      · have spawned : Alike k
            { e with queue := rest, jobs := e.jobs.insert e.nextJob ⟨order, .fresh⟩, nextJob := e.nextJob + 1 }
            { c with queue := rest, jobs := c.jobs.insert c.nextJob ⟨order, .fresh⟩, nextJob := c.nextJob + 1 } := by
          refine { taken with jobs := fun name => ?_ }
          have hjobs := h.jobs name
          simp only [otherJob, Keyed.find?_insert, h.nextJob] at hjobs ⊢
          split_ifs
          · rfl
          · exact hjobs
        rw [dispatch_of_cons hl hq, dispatch_of_cons hl' hq']
        split
        · exact spawned
        · rename_i period handle hcadence
          have hne : handle ≠ k := by
            rintro rfl
            exact hk ((order.isFor_iff handle).2 ⟨period, hcadence⟩)
          rw [h.flags handle hne]
          split_ifs
          · exact { taken with table := h.table_erase handle }
          · exact spawned
  · rw [dispatch_of_not_running hl, dispatch_of_not_running (h.loop ▸ hl)]
    exact h

theorem Alike.sense (h : Alike k e c) (name : Nat) (events : List (Nat × Cycle.Event)) (players : List Player)
    (fleet : Fleet) : Alike k (e.sense name events players fleet) (c.sense name events players fleet) := by
  have hjobs : ∀ name', (c.sense name events players fleet).otherJob k name' =
      (e.sense name events players fleet).otherJob k name' := fun name' => by simp only [sense_otherJob, h.jobs]
  have same : ∀ e : Engine, e.sense name events players fleet =
      { e with fleet, jobs := (e.sense name events players fleet).jobs } := by
    intro e
    unfold Engine.sense
    split <;> rfl
  revert hjobs
  rw [same e, same c]
  exact fun hjobs => { h with fleet := rfl, jobs := hjobs }

theorem Alike.move (he : Regular e) (hc : Regular c) (h : Alike k e c) (m : Move) :
    Alike k (e.move m).1 (c.move m).1 ∧
      (c.move m).2.filter (fun x => !x.order.isFor k) = (e.move m).2.filter fun x => !x.order.isFor k := by
  cases m with
  | process =>
    refine ⟨?_, rfl⟩
    simp only [Engine.move, Engine.process, h.loop]
    split_ifs
    · exact { h with loop := rfl }
    · exact h
  | shutdown => exact ⟨Alike.cancelAll { h with stopping := rfl }, rfl⟩
  | cancel handle => exact ⟨h.cancel handle, rfl⟩
  | dispatch => exact ⟨Alike.dispatch he hc h, rfl⟩
  | endLoop =>
    refine ⟨?_, rfl⟩
    simp only [Engine.move, Engine.endLoop, h.loop, h.stopping]
    split_ifs
    · exact Alike.cancelAll { h with loop := rfl, stopping := rfl, queue := rfl }
    · exact h
  | advance name =>
    simp only [Engine.move]
    cases hj : e.otherJob k name with
    | none =>
      have hj' := (h.jobs name).trans hj
      have own : ∀ e : Engine, e.otherJob k name = none →
          (e.entries name).filter (fun x => !x.order.isFor k) = [] := by
        intro e hj
        refine List.filter_eq_nil_iff.2 fun x hx => ?_
        obtain ⟨job, hjob, -, -, horder, -⟩ := mem_entries hx
        rw [horder, otherJob_eq_none.1 hj job hjob]
        decide
      exact ⟨(advance_alike e name hj).symm.trans (h.trans (advance_alike c name hj')), by rw [own e hj, own c hj']⟩
    | some job =>
      obtain ⟨hstate, heffects⟩ := h.advance name job hj
      refine ⟨hstate, ?_⟩
      rw [entries_of_find? (otherJob_eq_some.1 hj).1, entries_of_find? (otherJob_eq_some.1 ((h.jobs name).trans hj)).1,
        heffects, h.now]
  | sense name events players fleet => exact ⟨h.sense name events players fleet, rfl⟩
  | pool pool => exact ⟨{ h with pool := rfl }, rfl⟩
  | wait span => exact ⟨{ h with now := congrArg (· + span.millis) h.now }, rfl⟩

theorem Alike.step (he : Regular e) (hc : Regular c) (h : Alike k e c) (op : Op) :
    Alike k (e.step op).1 (c.step op).1 ∧
      (c.step op).2.filter (fun x => !x.order.isFor k) = (e.step op).2.filter fun x => !x.order.isFor k := by
  have hopen : c.isOpen = e.isOpen := by simp only [isOpen, h.loop]
  cases op with
  | sendOnce recipient metrics =>
    refine ⟨?_, rfl⟩
    simp only [Engine.step, Engine.sendOnce, hopen]
    split_ifs
    · exact { h with queue := by rw [h.queue] }
    · exact h
  | subscribe recipient period metrics =>
    simp only [Engine.step, Engine.subscribe, hopen]
    split_ifs
    · exact ⟨h, rfl⟩
    · have hissue : c.flags.issue.1 = e.flags.issue.1 := by simp only [CancelFlags.issue, h.issued]
      refine ⟨{ h with
        queue := by rw [h.queue, hissue]
        issued := congrArg (· + 1) h.issued
        flags := h.flags
        table := by rw [List.filter_append, List.filter_append, h.table, hissue] }, rfl⟩
    · exact ⟨h, rfl⟩
  | move m => exact Alike.move he hc h m

/-- **One subscription more or less.** Two engines that are alike besides one subscription stay so, and what is to be
seen of the other orders is the same. -/
theorem Alike.run (he : Regular e) (hc : Regular c) (h : Alike k e c) (ops : List Op) :
    Alike k (e.run ops) (c.run ops) ∧
      (c.log ops).filter (fun x => !x.order.isFor k) = (e.log ops).filter fun x => !x.order.isFor k := by
  induction ops generalizing e c with
  | nil => exact ⟨h, rfl⟩
  | cons op ops ih =>
    obtain ⟨hstep, hlog⟩ := Alike.step he hc h op
    obtain ⟨hrun, hrest⟩ := ih (step_regular he op) (step_regular hc op) hstep
    refine ⟨hrun, ?_⟩
    rw [log_cons, log_cons, List.filter_append, List.filter_append, hlog, hrest]

end Engine

end SensorNode
