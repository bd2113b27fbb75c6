/-
Cancelling a subscription, at any point of a run and whatever goes on afterwards.

- `run_no_start`: no cycle of a cancelled subscription starts.
- `run_silent`, `run_harvesting`: a job of it does nothing more to be seen, unless it is in the middle of a cycle; then
  the cycle goes on to its end and its readings are delivered, once.
- `run_backed`: a subscription stays on the table only as long as there is an order or a job for it, so that none is
  left when all is quiet.
-/
import SensorNode.Proofs.Reading.Besides

namespace SensorNode

namespace Engine

variable {k : CancelHandle} {e : Engine}

/-! ## No more cycles -/

theorem step_raised (op : Op) (h : e.flags.isCancelled k = true) : (e.step op).1.flags.isCancelled k = true := by
  cases op with
  | sendOnce recipient metrics =>
    simp only [step, sendOnce]
    split_ifs <;> exact h
  | subscribe recipient period metrics =>
    simp only [step]
    rcases subscribe_cases e recipient period metrics with ⟨error, he, -⟩ | ⟨-, -, he⟩ <;> rw [he] <;> exact h
  | move m => exact (move_onward e m).raised k h

theorem run_raised (ops : List Op) (h : e.flags.isCancelled k = true) : (e.run ops).flags.isCancelled k = true := by
  induction ops generalizing e with
  | nil => exact h
  | cons op ops ih => exact ih (step_raised op h)

theorem step_no_start (op : Op) (h : e.flags.isCancelled k = true) :
    ∀ x ∈ (e.step op).2, x.order.isFor k = true → x.effect.isStart = false := by
  intro x hx hk
  obtain ⟨-, hx⟩ := mem_step_log hx
  obtain ⟨job, hj, -, -, horder, heffect⟩ := mem_entries hx
  obtain ⟨period, hc⟩ := (x.order.isFor_iff k).1 hk
  rw [horder] at hc
  by_contra hstart
  obtain ⟨-, ⟨honce, -⟩ | ⟨period', handle, due, hevery, -, -, hlive⟩⟩ :=
    started_of_mem_advance hj heffect (by simpa using hstart)
  · exact absurd (hc.symm.trans honce) (by simp)
  · obtain ⟨rfl, rfl⟩ := Cadence.every.inj (hc.symm.trans hevery)
    exact absurd (h.symm.trans hlive) (by simp)

theorem run_no_start (ops : List Op) (h : e.flags.isCancelled k = true) :
    ∀ x ∈ e.log ops, x.order.isFor k = true → x.effect.isStart = false := by
  induction ops generalizing e with
  | nil => exact fun x hx => absurd hx (by simp [log])
  | cons op ops ih =>
    intro x hx
    rw [log_cons] at hx
    rcases List.mem_append.1 hx with hx | hx
    · exact step_no_start op h x hx
    · exact ih (step_raised op h) x hx

/-! ## A job that is not in the middle of a cycle -/

/-- The name has been used, and what job there still is under it is of the cancelled subscription `k` and not in the
middle of a cycle. -/
structure Silent (k : CancelHandle) (name : Nat) (e : Engine) : Prop where
  used : name < e.nextJob
  cancelled : e.flags.isCancelled k = true
  job : ∀ order phase, e.jobs.find? name = some ⟨order, phase⟩ →
    order.isFor k = true ∧ ∀ h next, phase ≠ .harvesting h next

/-- a cancelled job that is not in the middle of a cycle ends, if it goes on at all -/
theorem advance_cancelled {name : Nat} {order : Order} {phase : Job.Phase}
    (hj : e.jobs.find? name = some ⟨order, phase⟩) (hk : order.isFor k = true)
    (hcancelled : e.flags.isCancelled k = true) (hphase : ∀ h next, phase ≠ .harvesting h next) :
    (e.advance name).2 = [] ∧ ((e.advance name).1 = e ∨ (e.advance name).1.jobs.find? name = none) := by
  obtain ⟨period, hc⟩ := (order.isFor_iff k).1 hk
  have gone : (e.endJob name order).jobs.find? name = none := by rw [endJob_find?, if_pos rfl]
  unfold advance
  simp only [hj]
  cases phase with
  | fresh =>
    simp only [hc, hcancelled, if_true]
    split_ifs
    · exact ⟨rfl, Or.inr (by rw [Keyed.find?_erase, if_pos rfl])⟩
    · exact ⟨rfl, Or.inr gone⟩
  | waiting due =>
    simp only [hc, hcancelled, if_true]
    exact ⟨trivial, Or.inr gone⟩
  | harvesting h next => exact absurd rfl (hphase h next)
  | delivering done next =>
    simp only [afterDelivery, hc, hcancelled, if_true]
    split_ifs
    · exact ⟨rfl, Or.inr gone⟩
    · exact ⟨rfl, Or.inl rfl⟩

theorem step_silent {name : Nat} (h : Silent k name e) (op : Op) :
    Silent k name (e.step op).1 ∧ (e.step op).2.filter (·.job = name) = [] := by
  have used := lt_of_lt_of_le h.used (step_nextJob_le e op)
  have cancelled := step_raised op h.cancelled
  by_cases hop : op = .move (.advance name)
  · subst hop
    cases hj : e.jobs.find? name with
    | none =>
      simp only [step, move, entries, hj, advance_of_none e name hj, List.filter_nil, and_true]
      exact h
    | some job =>
      obtain ⟨order, phase⟩ := job
      obtain ⟨hk, hphase⟩ := h.job order phase hj
      obtain ⟨heffects, hstate⟩ := advance_cancelled hj hk h.cancelled hphase
      refine ⟨⟨used, cancelled, ?_⟩, ?_⟩
      · intro order' phase' hj'
        simp only [step, move] at hj'
        rcases hstate with hstate | hstate
        · rw [hstate] at hj'
          exact h.job order' phase' hj'
        · rw [hstate] at hj'
          exact absurd hj' (by simp)
      · simp only [step, move, entries_of_find? hj, heffects, List.map_nil, List.filter_nil]
  · refine ⟨⟨used, cancelled, ?_⟩, filter_step_log_of_ne e op name hop⟩
    intro order phase hj
    obtain ⟨change, hstep⟩ := step_find?_of_ne op name h.used hop
    rw [hstep] at hj
    obtain ⟨⟨order', phase'⟩, hj', hsense⟩ := Option.map_eq_some_iff.1 hj
    obtain ⟨hk, hphase⟩ := h.job order' phase' hj'
    -- the sensors of a job that is not in the middle of a cycle have nothing to do
    have hsame : (⟨order', phase'⟩ : Job).sense (op.sensed name) change = ⟨order', phase'⟩ := by
      cases phase' with
      | harvesting hv next => exact absurd rfl (hphase hv next)
      | _ => rfl
    obtain ⟨rfl, rfl⟩ := Job.mk.inj (hsame.symm.trans hsense)
    exact ⟨hk, hphase⟩

/-- nothing more is to be seen of such a job -/
theorem run_silent {name : Nat} (h : Silent k name e) (ops : List Op) :
    Silent k name (e.run ops) ∧ (e.log ops).filter (·.job = name) = [] := by
  induction ops generalizing e with
  | nil => exact ⟨h, rfl⟩
  | cons op ops ih =>
    obtain ⟨hstep, hnone⟩ := step_silent h op
    obtain ⟨hrun, hrest⟩ := ih hstep
    refine ⟨hrun, ?_⟩
    rw [log_cons, List.filter_append, hnone, hrest, List.append_nil]

/-! ## A cycle that is under way -/

/-- what the sensors of a job do in a run -/
def sensed (name : Nat) (ops : List Op) : List (Nat × Cycle.Event) := ops.flatMap (Op.sensed name)

/-- the job's cycle, which was `h` at first, is due after these operations -/
def due (e : Engine) (name : Nat) (h : Harvesting) (ops : List Op) : Bool :=
  (h.cycle.run (sensed name ops)).isOver || h.deadline ≤ (e.run ops).now

/-- What comes of a job's cycle `h` in a run. Either it goes on, and then the job never had its turn when the cycle was
due, and it can have one as soon as it is; or the job has had such a turn, and what is to be seen of it is that its
readings were delivered, once. -/
inductive Concluded (e : Engine) (name : Nat) (order : Order) (h : Harvesting) (next : Nat) (ops : List Op) : Prop
  | underWay (players : List Player)
    (still : (e.run ops).jobs.find? name =
      some ⟨order, .harvesting { h with cycle := h.cycle.run (sensed name ops), players } next⟩)
    (silent : (e.log ops).filter (·.job = name) = [])
    (early : ∀ pre post, ops = pre ++ .move (.advance name) :: post → e.due name h pre = false)
    (ready : (e.run ops).jobIsReady name = e.due name h ops)
  | delivered (pre post : List Op) (turn : ops = pre ++ .move (.advance name) :: post)
    (due : e.due name h pre = true)
    (once : (e.log ops).filter (·.job = name) = [⟨(e.run pre).now, name, order,
      .delivered ⟨(e.run pre).now, order.recipient, (h.cycle.run (sensed name pre)).readings e.policy⟩⟩])

theorem sensed_cons (name : Nat) (op : Op) (ops : List Op) :
    sensed name (op :: ops) = op.sensed name ++ sensed name ops := rfl

theorem due_cons (e : Engine) (name : Nat) (h : Harvesting) (op : Op) (ops : List Op) (players : List Player) :
    e.due name h (op :: ops) =
      (e.step op).1.due name { h with cycle := h.cycle.run (op.sensed name), players } ops := by
  simp only [due, sensed_cons, run_cons, Cycle.run, List.foldl_append]
  rfl

theorem advance_harvesting {name : Nat} {order : Order} {h : Harvesting} {next : Nat}
    (hj : e.jobs.find? name = some ⟨order, .harvesting h next⟩) :
    e.advance name = if h.isDue e.now then e.completeCycle name order h next else (e, []) := by
  unfold advance
  simp only [hj]

/-- once its readings are delivered, a cancelled job is not in the middle of a cycle -/
theorem completeCycle_silent {name : Nat} {order : Order} {h : Harvesting} {next : Nat} (hlt : name < e.nextJob)
    (hk : order.isFor k = true) (hcancelled : e.flags.isCancelled k = true)
    (hj : e.jobs.find? name = some ⟨order, .harvesting h next⟩) :
    Silent k name (e.completeCycle name order h next).1 := by
  obtain ⟨period, hc⟩ := (order.isFor_iff k).1 hk
  obtain ⟨errors, cycles, ho⟩ := completeCycle_outcome e name ⟨order, .harvesting h next⟩ h next
  refine ⟨ho.nextJob ▸ hlt, ho.onward.raised k hcancelled, ?_⟩
  intro order' phase' hj'
  simp only [completeCycle, afterDelivery, hc, hcancelled, if_true] at hj'
  split_ifs at hj'
  · rw [endJob_find?, if_pos rfl] at hj'
    exact absurd hj' (by simp)
  · rw [setPhase_find?, if_pos rfl] at hj'
    simp only [hj, Option.map_some, Option.some.injEq, Job.mk.injEq] at hj'
    obtain ⟨rfl, rfl⟩ := hj'
    exact ⟨hk, fun _ _ h => Job.Phase.noConfusion h⟩

theorem step_policy (e : Engine) (op : Op) : (e.step op).1.policy = e.policy := (step_settings e op).2.1

/-- A cycle of a cancelled subscription that is under way comes to its end, and its readings are delivered once. -/
theorem run_harvesting {name : Nat} {order : Order} {h : Harvesting} {next : Nat} (hlt : name < e.nextJob)
    (hk : order.isFor k = true) (hcancelled : e.flags.isCancelled k = true)
    (hj : e.jobs.find? name = some ⟨order, .harvesting h next⟩) (ops : List Op) :
    Concluded e name order h next ops := by
  induction ops generalizing e h with
  | nil =>
    refine .underWay h.players hj rfl (fun pre post hsplit => absurd hsplit (by simp)) ?_
    simp only [run_nil, jobIsReady, hj]
    rfl
  | cons op ops ih =>
    have hlt' := lt_of_lt_of_le hlt (step_nextJob_le e op)
    have hcancelled' := step_raised op hcancelled
    by_cases hturn : op = .move (.advance name) ∧ h.isDue e.now = true
    · -- the turn at which the cycle ends
      obtain ⟨rfl, hdue⟩ := hturn
      have hadvance : e.advance name = e.completeCycle name order h next := by rw [advance_harvesting hj, if_pos hdue]
      have hsilent := (run_silent (completeCycle_silent hlt hk hcancelled hj) ops).2
      refine .delivered [] ops rfl hdue ?_
      rw [log_cons, List.filter_append]
      simp only [step, move, entries_of_find? hj, hadvance, completeCycle_effects, hsilent]
      simp [run_nil, sensed, Cycle.run]
    · -- the cycle goes on
      have hstep : ∃ players, (e.step op).1.jobs.find? name = some ⟨order,
          .harvesting { h with cycle := h.cycle.run (op.sensed name), players } next⟩ := by
        by_cases hop : op = .move (.advance name)
        · subst hop
          refine ⟨h.players, ?_⟩
          have hdue : ¬h.isDue e.now = true := fun hdue => hturn ⟨rfl, hdue⟩
          simp only [step, move, advance_harvesting hj, if_neg hdue]
          exact hj
        · obtain ⟨change, hstep⟩ := step_find?_of_ne op name hlt hop
          rw [hj] at hstep
          exact ⟨change h.players, hstep⟩
      have hnone : (e.step op).2.filter (·.job = name) = [] := by
        by_cases hop : op = .move (.advance name)
        · subst hop
          have hdue : ¬h.isDue e.now = true := fun hdue => hturn ⟨rfl, hdue⟩
          simp only [step, move, entries_of_find? hj, advance_harvesting hj, if_neg hdue, List.map_nil, List.filter_nil]
        · exact filter_step_log_of_ne e op name hop
      obtain ⟨players, hstep⟩ := hstep
      have hruns : ∀ pre, (h.cycle.run (op.sensed name)).run (sensed name pre) =
          h.cycle.run (sensed name (op :: pre)) := fun pre => by
        simp only [sensed_cons, Cycle.run, List.foldl_append]
      cases ih hlt' hcancelled' hstep with
      | underWay players' still silent early ready =>
        refine .underWay players' ?_ ?_ ?_ ?_
        · rw [← hruns]
          exact still
        · rw [log_cons, List.filter_append, hnone, silent, List.append_nil]
        · intro pre post hsplit
          cases pre with
          | nil =>
            obtain ⟨rfl, -⟩ := List.cons.inj hsplit
            exact Bool.eq_false_iff.2 fun hdue => hturn ⟨rfl, hdue⟩
          | cons op' pre =>
            obtain ⟨rfl, hrest⟩ := List.cons.inj hsplit
            rw [due_cons e name h op pre players]
            exact early pre post hrest
        · rw [due_cons e name h op ops players]
          exact ready
      | delivered pre post turn due once =>
        refine .delivered (op :: pre) post (by rw [turn]; rfl) ?_ ?_
        · rw [due_cons e name h op pre players]
          exact due
        · rw [log_cons, List.filter_append, hnone, once, List.nil_append, run_cons, step_policy, hruns]

/-! ## The table of subscriptions -/

/-- if the operation is the first turn of a job of the subscription, the job's first tick lies on the clock -/
def firstTickInTime (e : Engine) (k : CancelHandle) : Op → Bool
  | .move (.advance name) =>
    match e.jobs.find? name with
    | some ⟨⟨_, _, .every period handle⟩, .fresh⟩ => handle ≠ k || e.now + period.millis < horizon
    | _ => true
  | _ => true

/-- the first ticks of the subscription lie on the clock in a run -/
def ticksInTime (e : Engine) (k : CancelHandle) : List Op → Bool
  | [] => true
  | op :: ops => e.firstTickInTime k op && (e.step op).1.ticksInTime k ops

/-- a job is in the middle of a cycle or of a delivery -/
def Job.isBusy (job : Job) : Bool :=
  match job.phase with
  | .harvesting .. | .delivering .. => true
  | _ => false

/-- no order waits, no job can go on and none is in the middle of something -/
def isQuiet (e : Engine) : Bool :=
  e.queue.isEmpty && e.jobs.entries.all fun (name, job) => !e.jobIsReady name && !Job.isBusy job

/-- a subscription on the table has an order that waits or is the order of a job -/
def Backed (k : CancelHandle) (e : Engine) : Prop := k ∈ e.subscriptions → ∃ o, e.Holds o ∧ o.isFor k = true

theorem Backed.of_eq {e' : Engine} (h : Backed k e) (ht : e'.subscriptions = e.subscriptions)
    (ho : ∀ o, e.Holds o → e'.Holds o) : Backed k e' := by
  intro hm
  obtain ⟨o, hholds, hk⟩ := h (ht ▸ hm)
  exact ⟨o, ho o hholds, hk⟩

theorem Backed.of_empty (ht : e.subscriptions = []) : Backed k e := fun hm => absurd hm (by simp [ht])

theorem holds_setPhase (e : Engine) (name : Nat) (phase : Job.Phase) (o : Order) (h : e.Holds o) :
    (e.setPhase name phase).Holds o := by
  refine h.imp_right ?_
  rintro ⟨name', job, hj, rfl⟩
  by_cases hname : name' = name
  · subst hname
    exact ⟨name', { job with phase }, by rw [setPhase_find?, if_pos rfl, hj]; rfl, rfl⟩
  · exact ⟨name', job, by rw [setPhase_find?, if_neg hname]; exact hj, rfl⟩

/-- the order of another subscription is not lost with a job -/
theorem holds_eraseJob {name : Nat} {job : Job} (hj : e.jobs.find? name = some job) {o : Order} (h : e.Holds o)
    (hne : o ≠ job.order) : Holds { e with jobs := e.jobs.erase name } o := by
  refine h.imp_right ?_
  rintro ⟨name', job', hj', rfl⟩
  refine ⟨name', job', ?_, rfl⟩
  rw [Keyed.find?_erase, if_neg]
  · exact hj'
  · rintro rfl
    exact hne (congrArg Job.order (Option.some.inj (hj'.symm.trans hj)))

theorem Backed.endJob (hr : Regular e) (h : Backed k e) {name : Nat} {job : Job} (hj : e.jobs.find? name = some job) :
    Backed k (e.endJob name job.order) := by
  have other : job.order.isFor k = false → Backed k { e with jobs := e.jobs.erase name } := by
    intro hk hm
    obtain ⟨o, hholds, ho⟩ := h hm
    exact ⟨o, holds_eraseJob hj hholds fun heq => by simp [heq, hk] at ho, ho⟩
  revert other
  simp only [Engine.endJob]
  split
  · rename_i hc
    exact fun other => other (by simp [Order.isFor, hc])
  · rename_i period handle hc
    intro other hm
    by_cases hk : handle = k
    · -- the handle is on the table only once
      rw [hk] at hm
      exact absurd hm hr.distinct.not_mem_erase
    · exact other (by simp [Order.isFor, hc, hk]) (List.mem_of_mem_erase hm)

theorem Outcome.backed {e' : Engine} {name : Nat} {job : Job} (ho : Outcome e name job e') (hr : Regular e)
    (hj : e.jobs.find? name = some job) (hin : e.firstTickInTime k (.move (.advance name)) = true) (h : Backed k e) :
    Backed k e' := by
  cases ho with
  | stays => exact h
  | dies period handle hfresh hc hlate =>
    refine fun hm => ?_
    obtain ⟨o, hholds, hk⟩ := h hm
    refine ⟨o, holds_eraseJob hj hholds ?_, hk⟩
    rintro rfl
    obtain ⟨period', hc'⟩ := (job.order.isFor_iff k).1 hk
    obtain ⟨⟨metrics, recipient, cadence⟩, phase⟩ := job
    obtain rfl : phase = .fresh := hfresh
    obtain rfl : cadence = .every period' k := hc'
    obtain ⟨rfl, rfl⟩ := Cadence.every.inj hc
    simp only [firstTickInTime, hj, ne_eq, not_true_eq_false, decide_false, Bool.false_or, decide_eq_true_eq] at hin
    omega
  | ends => exact h.endJob hr hj
  | goesOn phase => exact h.of_eq rfl (holds_setPhase e name phase)

theorem Backed.dispatch (hr : Regular e) (h : Backed k e) : Backed k e.dispatch := by
  rcases dispatch_cases e with hd | ⟨order, rest, -, hq, ⟨hd, -⟩ | ⟨period, handle, hc, -, hd⟩⟩
  · rw [hd]
    exact h
  · rw [hd]
    refine h.of_eq rfl fun o ho => ?_
    rcases ho with ho | ⟨name, job, hj, rfl⟩
    · rw [hq] at ho
      rcases List.mem_cons.1 ho with rfl | ho
      · exact Or.inr ⟨e.nextJob, ⟨o, .fresh⟩, by rw [Keyed.find?_insert, if_pos rfl], rfl⟩
      · exact Or.inl ho
    · refine Or.inr ⟨name, job, ?_, rfl⟩
      rw [Keyed.find?_insert, if_neg (hr.named name job hj).ne]
      exact hj
  · rw [hd]
    intro hm
    obtain ⟨o, ho, hk⟩ := h (List.mem_of_mem_erase hm)
    refine ⟨o, ho.imp_left fun ho => ?_, hk⟩
    rw [hq] at ho
    rcases List.mem_cons.1 ho with rfl | ho
    · -- the handle of the order that is dropped is not on the table any more
      obtain ⟨period', hc'⟩ := (o.isFor_iff k).1 hk
      obtain ⟨-, rfl⟩ := Cadence.every.inj (hc.symm.trans hc')
      exact absurd hm hr.distinct.not_mem_erase
    · exact ho

theorem Backed.sense (h : Backed k e) (name : Nat) (events : List (Nat × Cycle.Event)) (players : List Player)
    (fleet : Fleet) : Backed k (e.sense name events players fleet) := by
  unfold Engine.sense
  split
  · rename_i order hv next hj
    exact h.of_eq rfl fun o ho => holds_setPhase e name _ o ho
  · exact h.of_eq rfl fun _ ho => ho

theorem step_backed (hr : Regular e) (op : Op) (hin : e.firstTickInTime k op = true) (h : Backed k e) :
    Backed k (e.step op).1 := by
  cases op with
  | sendOnce recipient metrics =>
    simp only [step, sendOnce]
    split_ifs
    · exact h.of_eq rfl fun o ho => ho.imp_left (List.mem_append_left _)
    · exact h
  | subscribe recipient period metrics =>
    simp only [step]
    rcases subscribe_cases e recipient period metrics with ⟨error, he, -⟩ | ⟨-, -, he⟩
    · rw [he]
      exact h
    · rw [he]
      intro hm
      rcases List.mem_append.1 hm with hm | hm
      · obtain ⟨o, ho, hk⟩ := h hm
        exact ⟨o, ho.imp_left (List.mem_append_left _), hk⟩
      · obtain rfl := List.mem_singleton.1 hm
        refine ⟨_, Or.inl (List.mem_append_right _ List.mem_cons_self), ?_⟩
        simp [Order.isFor]
  | move m =>
    cases m with
    | process =>
      simp only [step, move, process]
      split_ifs
      · exact h.of_eq rfl fun _ ho => ho
      · exact h
    | shutdown => exact Backed.of_empty rfl
    | cancel handle => exact h.of_eq rfl fun _ ho => ho
    | dispatch => exact h.dispatch hr
    | endLoop =>
      simp only [step, move, endLoop]
      split_ifs
      · exact Backed.of_empty rfl
      · exact h
    | advance name =>
      simp only [step, move]
      cases hj : e.jobs.find? name with
      | none =>
        rw [advance_of_none e name hj]
        exact h
      | some job =>
        obtain ⟨errors, cycles, ho⟩ := advance_outcome e name job hj
        exact ho.backed ⟨hr.named, hr.distinct, hr.issued⟩ hj hin h
    | sense name events players fleet => exact h.sense name events players fleet
    | pool pool => exact h.of_eq rfl fun _ ho => ho
    | wait span => exact h.of_eq rfl fun _ ho => ho

theorem run_backed (hr : Regular e) (ops : List Op) (hin : e.ticksInTime k ops = true) (h : Backed k e) :
    Backed k (e.run ops) := by
  induction ops generalizing e with
  | nil => exact h
  | cons op ops ih =>
    obtain ⟨hop, hops⟩ := Bool.and_eq_true_iff.1 hin
    exact ih (step_regular hr op) hops (step_backed hr op hop h)

theorem new_backed (timeout : Duration) (policy : Reduction) : Backed k (new timeout policy) := Backed.of_empty rfl

/-- when all is quiet, a cancelled subscription is not on the table -/
theorem Backed.not_mem_of_quiet (h : Backed k e) (hcancelled : e.flags.isCancelled k = true)
    (hq : e.isQuiet = true) : k ∉ e.subscriptions := by
  intro hm
  obtain ⟨o, ho, hk⟩ := h hm
  obtain ⟨period, hc⟩ := (o.isFor_iff k).1 hk
  obtain ⟨hqueue, hjobs⟩ := Bool.and_eq_true_iff.1 hq
  rcases ho with ho | ⟨name, ⟨order, phase⟩, hj, rfl⟩
  · rw [List.isEmpty_iff.1 hqueue] at ho
    exact absurd ho (by simp)
  · have hidle := List.all_eq_true.1 hjobs (name, ⟨order, phase⟩) ((Keyed.mem_entries_iff _ _ _).2 hj)
    obtain ⟨hready, hbusy⟩ := Bool.and_eq_true_iff.1 hidle
    simp only [jobIsReady, hj, Job.isBusy] at hready hbusy
    cases phase with
    | fresh => exact absurd hready Bool.false_ne_true
    | waiting due =>
      -- cancelled, it can go on whatever the time
      have hcan : e.isCancelled order = true := by
        simp only [isCancelled, show order.cadence = .every period k from hc]
        exact hcancelled
      simp [hcan] at hready
    | harvesting h next => exact absurd hbusy Bool.false_ne_true
    | delivering done next => exact absurd hbusy Bool.false_ne_true

/-! ## Cancellation -/

/-- **Cancelling a subscription.** Let `k` be cancelled at any point of a run, whatever has been done before and whatever
is done afterwards. No cycle of the subscription starts any more. A cycle of it that is under way goes on to its end,
and its readings are delivered once; of a job of it in any other phase nothing more is to be seen. Everything else goes
on as if it had not been cancelled. If its first tick lay on the clock, the subscription is off the table whenever no
order waits, no job can go on and none is in the middle of something. -/
theorem cancel_outcome (timeout : Duration) (policy : Reduction) (before after : List Op) (k : CancelHandle) :
    let e := (new timeout policy).run before
    let c := e.cancel k
    (∀ x ∈ c.log after, x.order.isFor k = true → x.effect.isStart = false) ∧
      (∀ name order h next, e.jobs.find? name = some ⟨order, .harvesting h next⟩ → order.isFor k = true →
        c.Concluded name order h next after) ∧
      (∀ name job, e.jobs.find? name = some job → job.order.isFor k = true →
        (∀ h next, job.phase ≠ .harvesting h next) → (c.log after).filter (·.job = name) = []) ∧
      (Alike k (e.run after) (c.run after) ∧
        (c.log after).filter (fun x => !x.order.isFor k) = (e.log after).filter fun x => !x.order.isFor k) ∧
      ((new timeout policy).ticksInTime k (before ++ .move (.cancel k) :: after) = true →
        (c.run after).isQuiet = true → k ∉ (c.run after).subscriptions) := by
  intro e c
  have hr : Regular e := run_regular (new_regular timeout policy) before
  have hcancelled : c.flags.isCancelled k = true := by simp [c, cancel, CancelFlags.isCancelled_cancel]
  have hc : Regular c := move_regular hr (.cancel k)
  refine ⟨run_no_start after hcancelled, ?_, ?_, Alike.run hr hc (cancel_alike k e) after, ?_⟩
  · intro name order h next hj hk
    exact run_harvesting (e := c) (hc.named name _ hj) hk hcancelled hj after
  · intro name job hj hk hphase
    refine (run_silent (e := c) ⟨hc.named name job hj, hcancelled, ?_⟩ after).2
    intro order phase hj'
    obtain rfl := Option.some.inj (hj.symm.trans hj')
    exact ⟨hk, hphase⟩
  · intro hin hquiet
    have hbacked := run_backed (new_regular timeout policy) _ hin (new_backed timeout policy)
    rw [run_append, run_cons] at hbacked
    exact hbacked.not_mem_of_quiet (run_raised after hcancelled) hquiet

/-- two subscriptions over one sensor; at the end a cycle of the first is under way -/
def cycleUnderWay : List Op :=
  let probe : Sensor := ⟨0, "probe", [.humidity]⟩
  [.move (.sense 0 [] [] [.scripted probe [] false false true]), .move (.pool (.ofSensors [probe])), .move .process,
    .subscribe (.listener "first" ⟨0⟩) ⟨1000⟩ [.humidity], .subscribe (.listener "second" ⟨0⟩) ⟨2000⟩ [.humidity],
    .move .dispatch, .move .dispatch, .move (.advance 0), .move (.advance 1), .move (.wait ⟨1000⟩), .move (.advance 0)]

/-- the sensor of the cycle writes and returns -/
def cycleEnds : List Op :=
  [.move (.sense 0 [(0, .write .humidity ⟨0x4044000000000000⟩), (0, .returned)] [] []), .move (.advance 0)]

theorem cancel_outcome_under_way :
    let e := (new ⟨500⟩ .mean).run cycleUnderWay
    let c := e.cancel ⟨0⟩
    (∃ order h next, e.jobs.find? 0 = some ⟨order, .harvesting h next⟩ ∧ order.isFor ⟨0⟩ = true ∧
        c.Concluded 0 order h next cycleEnds) ∧
      (c.log cycleEnds).map (fun x => (x.job, x.effect.isStart)) = [(0, false)] ∧
      (new ⟨500⟩ .mean).ticksInTime ⟨0⟩ (cycleUnderWay ++ .move (.cancel ⟨0⟩) :: cycleEnds) = true ∧
      (c.run cycleEnds).isQuiet = true ∧ e.subscriptions = [⟨0⟩, ⟨1⟩] ∧ ⟨0⟩ ∉ (c.run cycleEnds).subscriptions := by
  intro e c
  obtain ⟨-, hconcluded, -, -, htable⟩ := cancel_outcome ⟨500⟩ .mean cycleUnderWay cycleEnds ⟨0⟩
  have hin : (new ⟨500⟩ .mean).ticksInTime ⟨0⟩ (cycleUnderWay ++ .move (.cancel ⟨0⟩) :: cycleEnds) = true := by decide
  have hquiet : (c.run cycleEnds).isQuiet = true := by decide
  refine ⟨⟨_, _, _, rfl, rfl, hconcluded 0 _ _ _ rfl rfl⟩, rfl, hin, hquiet, rfl, htable hin hquiet⟩

end Engine

end SensorNode
