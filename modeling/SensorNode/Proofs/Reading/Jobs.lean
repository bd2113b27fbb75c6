/-
Jobs of a running engine. Names of jobs are never used twice and a handle is on the table of subscriptions at most once
(`run_regular`); a job is changed only by its own steps and by its sensors (`step_find?_of_ne`); a cycle starts only for
a job that is due for one and has not been cancelled (`started_of_mem_advance`).
-/
import SensorNode.Proofs.Reading.Run

namespace SensorNode

/-- the order is one of the subscription with this handle -/
def Order.isFor (o : Order) (k : CancelHandle) : Bool :=
  match o.cadence with
  | .once => false
  | .every _ h => h = k

theorem Order.isFor_iff (o : Order) (k : CancelHandle) : o.isFor k = true ↔ ∃ period, o.cadence = .every period k := by
  unfold isFor
  split
  · rename_i hc
    simp [hc]
  · rename_i period h hc
    simp [hc]

/-- a cycle starts -/
def Effect.isStart : Effect → Bool
  | .started .. => true
  | .delivered _ => false

/-- The sensors of the job do these things if it is in the middle of a cycle, and its players change. -/
def Job.sense (job : Job) (events : List (Nat × Cycle.Event)) (change : List Player → List Player) : Job :=
  match job.phase with
  | .harvesting h next =>
    { job with phase := .harvesting { h with cycle := h.cycle.run events, players := change h.players } next }
  | _ => job

theorem Job.sense_order (job : Job) (events : List (Nat × Cycle.Event)) (change : List Player → List Player) :
    (job.sense events change).order = job.order := by
  unfold sense
  split <;> rfl

theorem Job.sense_nil (job : Job) : job.sense [] id = job := by
  obtain ⟨order, phase⟩ := job
  cases phase <;> rfl

namespace Engine

/-- what the sensors of a job do in an operation -/
def Op.sensed (name : Nat) : Op → List (Nat × Cycle.Event)
  | .move (.sense job events _ _) => if job = name then events else []
  | _ => []

/-! ## Regular engines -/

/-- names that are still to come are new, and so are handles -/
structure Regular (e : Engine) : Prop where
  named : ∀ name job, e.jobs.find? name = some job → name < e.nextJob
  distinct : e.subscriptions.Nodup
  issued : ∀ h ∈ e.subscriptions, h.flag < e.flags.issued

theorem new_regular (timeout : Duration) (policy : Reduction) : Regular (new timeout policy) where
  named _ _ h := by simp [new] at h
  distinct := by simp [new]
  issued _ h := by simp [new] at h

/-- no job has a name that is still to come -/
theorem Regular.unnamed {e : Engine} (h : Regular e) {name : Nat} (hle : e.nextJob ≤ name) :
    e.jobs.find? name = none :=
  Option.eq_none_iff_forall_ne_some.2 fun job hj => absurd (h.named name job hj) hle.not_gt

/-- no job has the name that the next one gets -/
theorem Regular.unused {e : Engine} (h : Regular e) : e.jobs.find? e.nextJob = none := h.unnamed le_rfl

/-- no job gets a name from an operation other than a dispatch -/
theorem Regular.of_onward {e e' : Engine} (h : Regular e) (ho : Onward e e')
    (hn : ∀ name job, e'.jobs.find? name = some job → name < e'.nextJob) : Regular e' where
  named := hn
  distinct := h.distinct.sublist ho.table
  issued handle hm := by rw [ho.issued]; exact h.issued handle (ho.table.subset hm)

theorem setPhase_find? (e : Engine) (name name' : Nat) (phase : Job.Phase) :
    (e.setPhase name phase).jobs.find? name' =
      if name' = name then (e.jobs.find? name).map fun job => { job with phase := phase }
      else e.jobs.find? name' :=
  Keyed.find?_modify ..

theorem endJob_find? (e : Engine) (name name' : Nat) (order : Order) :
    (e.endJob name order).jobs.find? name' = if name' = name then none else e.jobs.find? name' := by
  unfold endJob
  split <;> exact Keyed.find?_erase ..

theorem Outcome.find?_of_ne {e e' : Engine} {name : Nat} {job : Job} (h : Outcome e name job e') {name' : Nat}
    (hne : name' ≠ name) : e'.jobs.find? name' = e.jobs.find? name' := by
  cases h with
  | stays => rfl
  | dies => exact (Keyed.find?_erase ..).trans (if_neg hne)
  | ends => rw [endJob_find?, if_neg hne]
  | goesOn phase => rw [setPhase_find?, if_neg hne]

theorem Outcome.nextJob {e e' : Engine} {name : Nat} {job : Job} (h : Outcome e name job e') :
    e'.nextJob = e.nextJob := by
  cases h with
  | ends => unfold endJob; split <;> rfl
  | _ => rfl

/-- a job that goes on leaves the other jobs as they are -/
theorem advance_find?_of_ne (e : Engine) {name name' : Nat} (hne : name' ≠ name) :
    (e.advance name).1.jobs.find? name' = e.jobs.find? name' := by
  cases hj : e.jobs.find? name with
  | none => rw [advance_of_none e name hj]
  | some job =>
    obtain ⟨errors, cycles, h⟩ := advance_outcome e name job hj
    exact h.find?_of_ne hne

theorem advance_nextJob (e : Engine) (name : Nat) : (e.advance name).1.nextJob = e.nextJob := by
  cases hj : e.jobs.find? name with
  | none => rw [advance_of_none e name hj]
  | some job =>
    obtain ⟨errors, cycles, h⟩ := advance_outcome e name job hj
    exact h.nextJob

theorem advance_named {e : Engine} (h : Regular e) (name : Nat) :
    ∀ name' job, (e.advance name).1.jobs.find? name' = some job → name' < (e.advance name).1.nextJob := by
  intro name' job' hj'
  rw [advance_nextJob]
  by_cases hne : name' = name
  · subst hne
    cases hj : e.jobs.find? name' with
    | none => rw [advance_of_none e name' hj, hj] at hj'; simp at hj'
    | some job => exact h.named name' job hj
  · rw [advance_find?_of_ne e hne] at hj'
    exact h.named name' job' hj'

theorem sense_find? (e : Engine) (name name' : Nat) (events : List (Nat × Cycle.Event)) (players : List Player)
    (fleet : Fleet) :
    (e.sense name events players fleet).jobs.find? name' =
      if name' = name then (e.jobs.find? name).map (·.sense events fun _ => players) else e.jobs.find? name' := by
  unfold sense
  split
  · rename_i order h next hj
    exact (setPhase_find? e name name' _).trans (by rw [hj]; rfl)
  · rename_i hnot
    split_ifs with hne
    · subst hne
      cases hj : e.jobs.find? name' with
      | none => rfl
      | some job =>
        obtain ⟨order, phase⟩ := job
        cases phase with
        | harvesting h next => exact absurd hj (hnot order h next)
        | _ => rfl
    · rfl

/-- no job comes, goes or changes by the move -/
def Move.sparesJobs : Move → Bool
  | .dispatch | .advance _ | .sense .. => false
  | _ => true

theorem move_jobs (e : Engine) (m : Move) (hm : m.sparesJobs = true) :
    (e.move m).1.jobs = e.jobs ∧ (e.move m).1.nextJob = e.nextJob ∧ (e.move m).2 = [] := by
  cases m with
  | process => simp only [move, process]; split_ifs <;> exact ⟨rfl, rfl, trivial⟩
  | endLoop => simp only [move, endLoop]; split_ifs <;> exact ⟨rfl, rfl, trivial⟩
  | dispatch => exact absurd hm (by decide)
  | advance name => exact absurd hm Bool.false_ne_true
  | sense name events players fleet => exact absurd hm Bool.false_ne_true
  | _ => exact ⟨rfl, rfl, rfl⟩

theorem dispatch_named {e : Engine} (h : Regular e) :
    ∀ name job, e.dispatch.jobs.find? name = some job → name < e.dispatch.nextJob := by
  intro name job hj
  rcases dispatch_cases e with hd | ⟨order, rest, -, -, ⟨hd, -⟩ | ⟨period, handle, -, -, hd⟩⟩
  · rw [hd] at hj ⊢
    exact h.named name job hj
  · rw [hd] at hj ⊢
    rw [Keyed.find?_insert] at hj
    split_ifs at hj with hname
    · rw [hname]; exact Nat.lt_succ_self _
    · exact Nat.lt_succ_of_lt (h.named name job hj)
  · rw [hd] at hj ⊢
    exact Nat.lt_succ_of_lt (h.named name job hj)

theorem sense_nextJob (e : Engine) (name : Nat) (events : List (Nat × Cycle.Event)) (players : List Player)
    (fleet : Fleet) : (e.sense name events players fleet).nextJob = e.nextJob := by
  unfold sense
  split <;> rfl

theorem move_regular {e : Engine} (h : Regular e) (m : Move) : Regular (e.move m).1 := by
  refine h.of_onward (move_onward e m) ?_
  by_cases hm : m.sparesJobs = true
  · obtain ⟨hjobs, hnext, -⟩ := move_jobs e m hm
    intro name job hj
    rw [hjobs] at hj
    rw [hnext]
    exact h.named name job hj
  cases m with
  | dispatch => exact dispatch_named h
  | advance name => exact advance_named h name
  | sense name events players fleet =>
    intro name' job hj
    simp only [move, sense_find?, sense_nextJob] at hj ⊢
    split_ifs at hj with hname
    · obtain ⟨job', hj', -⟩ := Option.map_eq_some_iff.1 hj
      rw [hname]
      exact h.named name job' hj'
    · exact h.named name' job hj
  | _ => exact absurd rfl hm

theorem sendOnce_regular {e : Engine} (h : Regular e) (recipient : Recipient) (metrics : List Metric) :
    Regular (e.sendOnce recipient metrics) := by
  unfold sendOnce
  split_ifs
  · exact ⟨h.named, h.distinct, h.issued⟩
  · exact h

/-- what becomes of an engine that is asked for a subscription -/
theorem subscribe_cases (e : Engine) (recipient : Recipient) (period : Duration) (metrics : List Metric) :
    (∃ error, e.subscribe recipient period metrics = .error error ∧ (period.millis = 0 ∨ e.isOpen = false)) ∨
      (period.millis ≠ 0 ∧ e.isOpen = true ∧ e.subscribe recipient period metrics = .ok (⟨e.flags.issued⟩,
        { e with
          flags := { e.flags with issued := e.flags.issued + 1 }
          subscriptions := e.subscriptions ++ [⟨e.flags.issued⟩]
          queue := e.queue ++ [⟨metrics, recipient, .every period ⟨e.flags.issued⟩⟩] })) := by
  unfold subscribe
  split_ifs with hz ho
  · exact Or.inl ⟨_, rfl, Or.inl hz⟩
  · exact Or.inr ⟨hz, ho, rfl⟩
  · exact Or.inl ⟨_, rfl, Or.inr (by simpa using ho)⟩

theorem subscribe_ok {e e' : Engine} {recipient : Recipient} {period : Duration} {metrics : List Metric}
    {handle : CancelHandle} (h : e.subscribe recipient period metrics = .ok (handle, e')) :
    handle = ⟨e.flags.issued⟩ ∧ e' = { e with
      flags := { e.flags with issued := e.flags.issued + 1 }
      subscriptions := e.subscriptions ++ [⟨e.flags.issued⟩]
      queue := e.queue ++ [⟨metrics, recipient, .every period ⟨e.flags.issued⟩⟩] } := by
  rcases subscribe_cases e recipient period metrics with ⟨error, he, -⟩ | ⟨-, -, he⟩
  · exact absurd (h.symm.trans he) (by simp)
  · exact Prod.mk.inj (Except.ok.inj (h.symm.trans he))

theorem step_regular {e : Engine} (h : Regular e) (op : Op) : Regular (e.step op).1 := by
  cases op with
  | sendOnce recipient metrics => exact sendOnce_regular h recipient metrics
  | subscribe recipient period metrics =>
    simp only [step]
    rcases subscribe_cases e recipient period metrics with ⟨error, he, -⟩ | ⟨-, -, he⟩
    · rw [he]
      exact h
    · rw [he]
      refine ⟨h.named, ?_, ?_⟩
      · refine List.nodup_append.2 ⟨h.distinct, List.nodup_singleton _, ?_⟩
        rintro handle hm _ hm' rfl
        obtain rfl := List.mem_singleton.1 hm'
        exact absurd (h.issued _ hm) (lt_irrefl _)
      · intro handle hm
        rcases List.mem_append.1 hm with hm | hm
        · exact Nat.lt_succ_of_lt (h.issued handle hm)
        · obtain rfl := List.mem_singleton.1 hm
          exact Nat.lt_succ_self _
  | move m => exact move_regular h m

theorem run_regular {e : Engine} (h : Regular e) (ops : List Op) : Regular (e.run ops) := by
  induction ops generalizing e with
  | nil => exact h
  | cons op ops ih => exact ih (step_regular h op)

/-! ## One job among others -/

theorem mem_entries {e : Engine} {name : Nat} {x : Entry} (hx : x ∈ e.entries name) :
    ∃ job, e.jobs.find? name = some job ∧ x.time = e.now ∧ x.job = name ∧ x.order = job.order ∧
      x.effect ∈ (e.advance name).2 := by
  unfold entries at hx
  split at hx
  · rename_i job hj
    obtain ⟨effect, hm, rfl⟩ := List.mem_map.1 hx
    exact ⟨job, hj, rfl, rfl, rfl, hm⟩
  · simp at hx

theorem entries_of_find? {e : Engine} {name : Nat} {job : Job} (hj : e.jobs.find? name = some job) :
    e.entries name = (e.advance name).2.map fun effect => ⟨e.now, name, job.order, effect⟩ := by
  unfold entries
  rw [hj]

/-- what is to be seen of a step is what a job does -/
theorem mem_step_log {e : Engine} {op : Op} {x : Entry} (hx : x ∈ (e.step op).2) :
    op = .move (.advance x.job) ∧ x ∈ e.entries x.job := by
  cases op with
  | sendOnce recipient metrics => simp [step] at hx
  | subscribe recipient period metrics =>
    simp only [step] at hx
    split at hx <;> simp at hx
  | move m =>
    cases m with
    | advance name =>
      obtain ⟨job, -, -, hname, -⟩ := mem_entries hx
      rw [hname]
      exact ⟨rfl, hx⟩
    | _ => simp [step, move] at hx

/-- the part of a step's log that is of a job which is not the one to go on -/
theorem filter_step_log_of_ne (e : Engine) (op : Op) (name : Nat) (hop : op ≠ .move (.advance name)) :
    (e.step op).2.filter (·.job = name) = [] := by
  refine List.filter_eq_nil_iff.2 fun x hx hname => hop ?_
  obtain rfl : x.job = name := by simpa using hname
  exact (mem_step_log hx).1

/-- a name is used up only when an order leaves the queue -/
theorem step_nextJob (e : Engine) {op : Op} (hop : op ≠ .move .dispatch) : (e.step op).1.nextJob = e.nextJob := by
  cases op with
  | sendOnce recipient metrics => simp only [step, sendOnce]; split_ifs <;> rfl
  | subscribe recipient period metrics =>
    simp only [step]
    rcases subscribe_cases e recipient period metrics with ⟨error, he, -⟩ | ⟨-, -, he⟩ <;> rw [he]
  | move m =>
    by_cases hm : m.sparesJobs = true
    · exact (move_jobs e m hm).2.1
    cases m with
    | dispatch => exact absurd rfl hop
    | advance name => exact advance_nextJob e name
    | sense name events players fleet => exact sense_nextJob e name events players fleet
    | _ => exact absurd rfl hm

theorem step_nextJob_le (e : Engine) (op : Op) : e.nextJob ≤ (e.step op).1.nextJob := by
  by_cases hop : op = .move .dispatch
  · subst hop
    simp only [step, move]
    rcases dispatch_cases e with h | ⟨order, rest, -, -, ⟨h, -⟩ | ⟨period, handle, -, -, h⟩⟩ <;> rw [h]
    · exact Nat.le_succ _
    · exact Nat.le_succ _
  · exact (step_nextJob e hop).ge

/-- the sensors of some job do something -/
def Op.isSense : Op → Bool
  | .move (.sense ..) => true
  | _ => false

/-- a job whose turn it is not stays as it is when no sensors do anything, and a name that has been used stays free -/
theorem step_find?_of_unsensed {e : Engine} {op : Op} (hop : op.isSense = false) (name : Nat)
    (hlt : name < e.nextJob) (hne : op ≠ .move (.advance name)) :
    (e.step op).1.jobs.find? name = e.jobs.find? name := by
  cases op with
  | sendOnce recipient metrics =>
    simp only [step, sendOnce]
    split_ifs <;> rfl
  | subscribe recipient period metrics =>
    simp only [step]
    rcases subscribe_cases e recipient period metrics with ⟨error, he, -⟩ | ⟨-, -, he⟩ <;> rw [he]
  | move m =>
    cases m with
    | dispatch =>
      simp only [step, move]
      rcases dispatch_cases e with h | ⟨order, rest, -, -, ⟨h, -⟩ | ⟨period, handle, -, -, h⟩⟩ <;> rw [h]
      rw [Keyed.find?_insert, if_neg hlt.ne]
    | advance name' => exact advance_find?_of_ne e fun hname => hne (hname ▸ rfl)
    | sense name' events players fleet => exact absurd hop (by simp [Op.isSense])
    | process => exact congrArg (·.find? name) (move_jobs e .process rfl).1
    | endLoop => exact congrArg (·.find? name) (move_jobs e .endLoop rfl).1
    | _ => rfl

/-- a job whose turn it is not stays, but for what its sensors do; and a name that has been used stays free -/
theorem step_find?_of_ne {e : Engine} (op : Op) (name : Nat) (hlt : name < e.nextJob)
    (hop : op ≠ .move (.advance name)) :
    ∃ change, (e.step op).1.jobs.find? name = (e.jobs.find? name).map (·.sense (op.sensed name) change) := by
  by_cases hsense : op.isSense = true
  · obtain ⟨name', events, players, fleet, rfl⟩ :
        ∃ name' events players fleet, op = .move (.sense name' events players fleet) := by
      unfold Op.isSense at hsense
      split at hsense
      · exact ⟨_, _, _, _, rfl⟩
      · exact absurd hsense Bool.false_ne_true
    simp only [step, move, Op.sensed, sense_find?]
    by_cases hname : name = name'
    · subst hname
      exact ⟨fun _ => players, by simp only [if_true]⟩
    · refine ⟨id, ?_⟩
      simp only [if_neg hname, if_neg (Ne.symm hname), Job.sense_nil, Option.map_id']
  · have hsense : op.isSense = false := by simpa using hsense
    have hsensed : op.sensed name = [] := by
      unfold Op.sensed
      split
      · exact absurd hsense (by simp [Op.isSense])
      · rfl
    refine ⟨id, ?_⟩
    rw [step_find?_of_unsensed hsense name hlt hop, hsensed]
    simp only [Job.sense_nil, Option.map_id']

/-! ## The clock, the settings and the instruments -/

theorem Outcome.settings {e e' : Engine} {name : Nat} {job : Job} (h : Outcome e name job e') :
    e'.timeout = e.timeout ∧ e'.policy = e.policy ∧ e'.now = e.now ∧ e'.fleet = e.fleet := by
  cases h with
  | ends => unfold endJob; split <;> exact ⟨rfl, rfl, rfl, rfl⟩
  | _ => exact ⟨rfl, rfl, rfl, rfl⟩

/-- the settings stay, the clock goes on only when time is let pass, and the instruments change only by what sensors do -/
theorem step_settings (e : Engine) (op : Op) :
    (e.step op).1.timeout = e.timeout ∧ (e.step op).1.policy = e.policy ∧
      ((e.step op).1.now = e.now ∨ ∃ span, op = .move (.wait span)) ∧
      (op.isSense = false → (e.step op).1.fleet = e.fleet) := by
  have same : ∀ {e' : Engine}, e'.timeout = e.timeout ∧ e'.policy = e.policy ∧ e'.now = e.now ∧ e'.fleet = e.fleet →
      e'.timeout = e.timeout ∧ e'.policy = e.policy ∧ (e'.now = e.now ∨ ∃ span, op = .move (.wait span)) ∧
        (op.isSense = false → e'.fleet = e.fleet) :=
    fun ⟨htimeout, hpolicy, hnow, hfleet⟩ => ⟨htimeout, hpolicy, Or.inl hnow, fun _ => hfleet⟩
  cases op with
  | sendOnce recipient metrics =>
    apply same
    simp only [step, sendOnce]
    split_ifs <;> exact ⟨rfl, rfl, rfl, rfl⟩
  | subscribe recipient period metrics =>
    apply same
    simp only [step]
    rcases subscribe_cases e recipient period metrics with ⟨error, he, -⟩ | ⟨-, -, he⟩ <;> rw [he] <;>
      exact ⟨rfl, rfl, rfl, rfl⟩
  | move m =>
    cases m with
    | wait span => exact ⟨rfl, rfl, Or.inr ⟨span, rfl⟩, fun _ => rfl⟩
    | process =>
      apply same
      simp only [step, move, process]
      split_ifs <;> exact ⟨rfl, rfl, rfl, rfl⟩
    | dispatch =>
      apply same
      simp only [step, move]
      rcases dispatch_cases e with h | ⟨order, rest, -, -, ⟨h, -⟩ | ⟨period, handle, -, -, h⟩⟩ <;> rw [h] <;>
        exact ⟨rfl, rfl, rfl, rfl⟩
    | endLoop =>
      apply same
      simp only [step, move, endLoop]
      split_ifs <;> exact ⟨rfl, rfl, rfl, rfl⟩
    | advance name =>
      apply same
      simp only [step, move]
      cases hj : e.jobs.find? name with
      | none =>
        rw [advance_of_none e name hj]
        exact ⟨rfl, rfl, rfl, rfl⟩
      | some job =>
        obtain ⟨errors, cycles, ho⟩ := advance_outcome e name job hj
        exact ho.settings
    | sense name events players fleet =>
      simp only [step, move, sense]
      split <;> exact ⟨rfl, rfl, Or.inl rfl, fun hop => absurd hop (by simp [Op.isSense])⟩
    | _ => exact same ⟨rfl, rfl, rfl, rfl⟩

/-! ## What a job does for others to see -/

theorem completeCycle_effects (e : Engine) (name : Nat) (order : Order) (h : Harvesting) (next : Nat) :
    (e.completeCycle name order h next).2 =
      [.delivered ⟨e.now, order.recipient, h.cycle.readings e.policy⟩] := by
  have hnow : (e.completeCycle name order h next).1.now = e.now := by
    obtain ⟨errors, cycles, ho⟩ := completeCycle_outcome e name ⟨order, .fresh⟩ h next
    exact ho.settings.2.2.1
  rw [← hnow]
  rfl

theorem startCycle_effects (e : Engine) (name : Nat) (order : Order) (next : Nat) :
    ∃ rest, (e.startCycle name order next).2 = .started order (e.eligible order.metrics) :: rest ∧
      ∀ effect ∈ rest, effect.isStart = false := by
  simp only [startCycle]
  split_ifs
  · refine ⟨_, rfl, fun effect hm => ?_⟩
    rw [completeCycle_effects] at hm
    obtain rfl := List.mem_singleton.1 hm
    rfl
  · exact ⟨[], rfl, by simp⟩

/-- a cycle starts for a job that has not run yet and is to run once, or for one whose tick is due and whose handle is
not cancelled; it is a cycle for the order of the job, over the sensors that are eligible then -/
theorem started_of_mem_advance {e : Engine} {name : Nat} {job : Job} (hj : e.jobs.find? name = some job)
    {effect : Effect} (hm : effect ∈ (e.advance name).2) (hstart : effect.isStart = true) :
    effect = .started job.order (e.eligible job.order.metrics) ∧
      ((job.order.cadence = .once ∧ job.phase = .fresh) ∨
        ∃ period handle due, job.order.cadence = .every period handle ∧ job.phase = .waiting due ∧ due ≤ e.now ∧
          e.flags.isCancelled handle = false) := by
  have starts : ∀ next, effect ∈ (e.startCycle name job.order next).2 →
      effect = .started job.order (e.eligible job.order.metrics) := by
    intro next hm
    obtain ⟨rest, hrest, hnot⟩ := startCycle_effects e name job.order next
    rw [hrest] at hm
    rcases List.mem_cons.1 hm with rfl | hm
    · rfl
    · exact absurd hstart (by simp [hnot effect hm])
  obtain ⟨order, phase⟩ := job
  unfold advance at hm
  simp only [hj] at hm
  split at hm
  · rename_i hc
    exact ⟨starts 0 hm, Or.inl ⟨hc, rfl⟩⟩
  · split_ifs at hm <;> simp at hm
  · rename_i period handle due hc
    split_ifs at hm with hcancelled hdue
    · simp at hm
    · exact ⟨starts _ hm, Or.inr ⟨period, handle, due, hc, rfl, hdue, by simpa using hcancelled⟩⟩
    · simp at hm
  · simp at hm
  · split_ifs at hm
    · rw [completeCycle_effects] at hm
      obtain rfl := List.mem_singleton.1 hm
      exact absurd hstart (by simp [Effect.isStart])
    · simp at hm
  · split_ifs at hm <;> simp at hm

end Engine

end SensorNode
