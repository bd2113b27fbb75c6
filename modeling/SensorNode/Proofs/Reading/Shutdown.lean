/-
Shutting the engine down. What `shutdown` cancels is cancelled for good. It does not close the engine, though: orders are
taken until the drive loop has ended, and then it is final (`Stopped`). Nothing waits in the queue from then on, there is
no subscription, none is accepted, and no cycle starts but those of single readings that the drive loop had dispatched
(`shutdown_outcome`).
-/
import SensorNode.Proofs.Reading.Cancellation
import SensorNode.Proofs.Reading.Once
import SensorNode.Proofs.Reading.Single

namespace SensorNode

namespace Engine

variable {e : Engine}

/-! ## The drive loop -/

/-- the drive loop stays as it is, or it is started, or it ends and leaves nothing behind that waits -/
theorem step_loop (e : Engine) (op : Op) :
    (e.step op).1.loop = e.loop ∨ e.loop = .notStarted ∧ (e.step op).1.loop = .running ∨
      e.loop = .running ∧ (e.step op).1.loop = .ended ∧ (e.step op).1.queue = [] ∧
        (e.step op).1.subscriptions = [] := by
  cases op with
  | sendOnce recipient metrics => exact Or.inl (by simp only [step, sendOnce]; split_ifs <;> rfl)
  | subscribe recipient period metrics =>
    refine Or.inl ?_
    simp only [step]
    rcases subscribe_cases e recipient period metrics with ⟨error, he, -⟩ | ⟨-, -, he⟩ <;> rw [he]
  | move m =>
    cases m with
    | process =>
      simp only [step, move, process]
      split_ifs with hl
      · exact Or.inr (Or.inl ⟨hl, rfl⟩)
      · exact Or.inl rfl
    | dispatch =>
      refine Or.inl ?_
      simp only [step, move]
      rcases dispatch_cases e with h | ⟨order, rest, -, -, ⟨h, -⟩ | ⟨period, handle, -, -, h⟩⟩ <;> rw [h]
    | endLoop =>
      simp only [step, move, endLoop]
      split_ifs with hl
      · exact Or.inr (Or.inr ⟨hl.1, rfl, rfl, rfl⟩)
      · exact Or.inl rfl
    | advance name =>
      refine Or.inl ?_
      simp only [step, move]
      cases hj : e.jobs.find? name with
      | none => rw [advance_of_none e name hj]
      | some job =>
        obtain ⟨errors, cycles, h⟩ := advance_outcome e name job hj
        exact h.loop.1
    | sense name events players fleet => exact Or.inl (by simp only [step, move, sense]; split <;> rfl)
    | _ => exact Or.inl rfl

/-- a drive loop that has been told to stop is not told otherwise -/
theorem step_stopping (op : Op) (h : e.stopping = true) : (e.step op).1.stopping = true := by
  cases op with
  | sendOnce recipient metrics => simp only [step, sendOnce]; split_ifs <;> exact h
  | subscribe recipient period metrics =>
    simp only [step]
    rcases subscribe_cases e recipient period metrics with ⟨error, he, -⟩ | ⟨-, -, he⟩ <;> rw [he] <;> exact h
  | move m =>
    cases m with
    | process => simp only [step, move, process]; split_ifs <;> exact h
    | dispatch =>
      simp only [step, move]
      rcases dispatch_cases e with hd | ⟨order, rest, -, -, ⟨hd, -⟩ | ⟨period, handle, -, -, hd⟩⟩ <;> rw [hd] <;> exact h
    | endLoop => simp only [step, move, endLoop]; split_ifs <;> exact h
    | advance name =>
      simp only [step, move]
      cases hj : e.jobs.find? name with
      | none => rw [advance_of_none e name hj]; exact h
      | some job =>
        obtain ⟨errors, cycles, ho⟩ := advance_outcome e name job hj
        exact ho.loop.2.trans h
    | sense name events players fleet => simp only [step, move, sense]; split <;> exact h
    | shutdown => rfl
    | _ => exact h

theorem run_stopping (ops : List Op) (h : e.stopping = true) : (e.run ops).stopping = true := by
  induction ops generalizing e with
  | nil => exact h
  | cons op ops ih => exact ih (step_stopping op h)

/-! ## The handles that are given out -/

/-- the handle that an operation gives out -/
def granted? (e : Engine) : Op → Option CancelHandle
  | .subscribe recipient period metrics => (e.subscribe recipient period metrics).toOption.map Prod.fst
  | _ => none

/-- the handles that are given out in a run -/
def granted (e : Engine) : List Op → List CancelHandle
  | [] => []
  | op :: ops => (e.granted? op).toList ++ (e.step op).1.granted ops

/-- what is asked for is put on the table; what was there stays there until it is cancelled -/
theorem step_tabled (op : Op) {k : CancelHandle}
    (h : (k ∈ e.subscriptions ∨ e.flags.isCancelled k = true) ∨ e.granted? op = some k) :
    k ∈ (e.step op).1.subscriptions ∨ (e.step op).1.flags.isCancelled k = true := by
  cases op with
  | sendOnce recipient metrics =>
    have h := h.resolve_right (by simp [granted?])
    simp only [step, sendOnce]
    split_ifs <;> exact h
  | subscribe recipient period metrics =>
    simp only [step, granted?] at h ⊢
    rcases subscribe_cases e recipient period metrics with ⟨error, he, -⟩ | ⟨-, -, he⟩ <;> rw [he] at h ⊢
    · exact h.resolve_right (by simp [Except.toOption])
    · rcases h with h | h
      · exact h.imp_left (List.mem_append_left _)
      · exact Or.inl (List.mem_append_right _ (List.mem_singleton.2 (Option.some.inj h).symm))
  | move m =>
    rcases h.resolve_right (by simp [granted?]) with h | h
    · exact (move_onward e m).live k h
    · exact Or.inr ((move_onward e m).raised k h)

theorem run_tabled (ops : List Op) {k : CancelHandle}
    (h : (k ∈ e.subscriptions ∨ e.flags.isCancelled k = true) ∨ k ∈ e.granted ops) :
    k ∈ (e.run ops).subscriptions ∨ (e.run ops).flags.isCancelled k = true := by
  induction ops generalizing e with
  | nil => exact h.resolve_right (by simp [granted])
  | cons op ops ih =>
    refine ih ?_
    rcases h with h | h
    · exact Or.inl (step_tabled op (Or.inl h))
    · rcases List.mem_append.1 h with h | h
      · exact Or.inl (step_tabled op (Or.inr (Option.mem_toList.1 h)))
      · exact Or.inr h

/-- the engine has an order of the subscription with this handle -/
def Serves (k : CancelHandle) (e : Engine) : Prop := ∃ o, e.Holds o ∧ o.isFor k = true

/-- nothing but what is asked for gets on the table -/
theorem step_listed (op : Op) {k : CancelHandle} (h : k ∈ (e.step op).1.subscriptions) :
    k ∈ e.subscriptions ∨ e.granted? op = some k := by
  cases op with
  | sendOnce recipient metrics =>
    simp only [step, sendOnce] at h
    split_ifs at h <;> exact Or.inl h
  | subscribe recipient period metrics =>
    simp only [step, granted?] at h ⊢
    rcases subscribe_cases e recipient period metrics with ⟨error, he, -⟩ | ⟨-, -, he⟩ <;> rw [he] at h ⊢
    · exact Or.inl h
    · exact (List.mem_append.1 h).imp_right fun h => congrArg some (List.mem_singleton.1 h).symm
  | move m => exact Or.inl ((move_onward e m).table.subset h)

/-- nothing else gets an order either -/
theorem step_serves (op : Op) {k : CancelHandle} (h : Serves k (e.step op).1) : Serves k e ∨ e.granted? op = some k := by
  cases op with
  | sendOnce recipient metrics =>
    simp only [step, sendOnce] at h
    split_ifs at h
    · obtain ⟨o, ho | ho, hk⟩ := h
      · rcases List.mem_append.1 ho with ho | ho
        · exact Or.inl ⟨o, Or.inl ho, hk⟩
        · rw [List.mem_singleton.1 ho] at hk
          exact absurd hk Bool.false_ne_true
      · exact Or.inl ⟨o, Or.inr ho, hk⟩
    · exact Or.inl h
  | subscribe recipient period metrics =>
    simp only [step, granted?] at h ⊢
    rcases subscribe_cases e recipient period metrics with ⟨error, he, -⟩ | ⟨-, -, he⟩ <;> rw [he] at h ⊢
    · exact Or.inl h
    · obtain ⟨o, ho | ho, hk⟩ := h
      · rcases List.mem_append.1 ho with ho | ho
        · exact Or.inl ⟨o, Or.inl ho, hk⟩
        · rw [List.mem_singleton.1 ho] at hk
          exact Or.inr (congrArg some (of_decide_eq_true hk))
      · exact Or.inl ⟨o, Or.inr ho, hk⟩
  | move m =>
    obtain ⟨o, ho, hk⟩ := h
    exact Or.inl ⟨o, (move_onward e m).orders o ho, hk⟩

/-- what comes of nothing but a handle that is given out is there at first, or the handle is given out -/
theorem run_granted {P : Engine → Prop} {k : CancelHandle}
    (hstep : ∀ (e : Engine) (op : Op), P (e.step op).1 → P e ∨ e.granted? op = some k) (ops : List Op)
    (h : P (e.run ops)) : P e ∨ k ∈ e.granted ops := by
  induction ops generalizing e with
  | nil => exact Or.inl h
  | cons op ops ih =>
    rcases ih h with h | h
    · exact (hstep e op h).imp_right fun h => List.mem_append_left _ (Option.mem_toList.2 h)
    · exact Or.inr (List.mem_append_right _ h)

theorem run_serves (ops : List Op) {k : CancelHandle} (h : Serves k (e.run ops)) : Serves k e ∨ k ∈ e.granted ops :=
  run_granted (fun _ op => step_serves op) ops h

/-- what is to be seen of a subscription comes of an order that there was or of a handle that is given out -/
theorem log_serves (ops : List Op) {x : Entry} (hx : x ∈ e.log ops) {k : CancelHandle} (hk : x.order.isFor k = true) :
    Serves k e ∨ k ∈ e.granted ops := by
  induction ops generalizing e with
  | nil => cases hx
  | cons op ops ih =>
    rw [log_cons] at hx
    rcases List.mem_append.1 hx with hx | hx
    · obtain ⟨job, hj, -, -, horder, -⟩ := mem_entries (mem_step_log hx).2
      exact Or.inl ⟨x.order, Or.inr ⟨x.job, job, hj, horder.symm⟩, hk⟩
    · rcases ih hx with h | h
      · exact (step_serves op h).imp_right fun h => List.mem_append_left _ (Option.mem_toList.2 h)
      · exact Or.inr (List.mem_append_right _ h)

/-- the handle that is given out is a new one, and has been issued from then on -/
theorem granted?_issued {op : Op} {k : CancelHandle} (h : e.granted? op = some k) :
    k.flag = e.flags.issued ∧ k.flag < (e.step op).1.flags.issued := by
  cases op with
  | subscribe recipient period metrics =>
    simp only [step, granted?] at h ⊢
    rcases subscribe_cases e recipient period metrics with ⟨error, he, -⟩ | ⟨-, -, he⟩ <;> rw [he] at h ⊢
    · simp [Except.toOption] at h
    · obtain rfl := Option.some.inj h
      exact ⟨rfl, Nat.lt_succ_self _⟩
  | _ => simp [granted?] at h

/-- the handles that are given out in a run are those issued in it -/
theorem granted_issued (ops : List Op) {k : CancelHandle} (h : k ∈ e.granted ops) :
    e.flags.issued ≤ k.flag ∧ k.flag < (e.run ops).flags.issued := by
  induction ops generalizing e with
  | nil => cases h
  | cons op ops ih =>
    rw [run_cons]
    rcases List.mem_append.1 h with h | h
    · obtain ⟨hflag, hlt⟩ := granted?_issued (Option.mem_toList.1 h)
      exact ⟨hflag.ge, hlt.trans_le (run_issued_le _ ops)⟩
    · obtain ⟨hle, hlt⟩ := ih h
      exact ⟨(step_issued_le e op).trans hle, hlt⟩

theorem not_serves_new (timeout : Duration) (policy : Reduction) (k : CancelHandle) :
    ¬Serves k (new timeout policy) := by
  rintro ⟨o, ho | ⟨name, job, hj, -⟩, -⟩
  · cases ho
  · cases hj

/-! ## Before the drive loop is started and after it has ended -/

/-- an engine whose drive loop has ended takes no orders -/
theorem refuses_of_ended (hl : e.loop = .ended) (recipient : Recipient) (metrics : List Metric) :
    e.sendOnce recipient metrics = e ∧
      ∀ period, ∃ error, e.subscribe recipient period metrics = .error error := by
  have hclosed : ¬e.isOpen = true := by simp [isOpen, hl]
  refine ⟨if_neg hclosed, fun period => ?_⟩
  rcases subscribe_cases e recipient period metrics with ⟨error, he, -⟩ | ⟨-, hopen, -⟩
  · exact ⟨error, he⟩
  · exact absurd hopen hclosed

/-- whatever goes on in it brings no order in and does not start the drive loop again -/
theorem step_of_ended (hl : e.loop = .ended) (op : Op) :
    Onward e (e.step op).1 ∧ (e.step op).1.queue.Sublist e.queue ∧ (e.step op).1.loop = .ended := by
  have hloop : (e.step op).1.loop = .ended := by
    rcases step_loop e op with hsame | ⟨hidle, -⟩ | ⟨-, hended, -⟩
    · exact hsame.trans hl
    · exact absurd (hl.symm.trans hidle) (by decide)
    · exact hended
  have hsame : ∀ {e'}, e' = e → Onward e e' ∧ e'.queue.Sublist e.queue := by
    rintro e' rfl
    exact ⟨Onward.refl _, List.Sublist.refl _⟩
  rw [← and_assoc]
  refine ⟨?_, hloop⟩
  cases op with
  | sendOnce recipient metrics => exact hsame (refuses_of_ended hl recipient metrics).1
  | subscribe recipient period metrics =>
    obtain ⟨error, he⟩ := (refuses_of_ended hl recipient metrics).2 period
    exact hsame (by rw [step, he])
  | move m => exact ⟨move_onward e m, move_queue e m⟩

/-- There are no jobs before the drive loop is started. Once it has ended, nothing waits and no subscription is left. -/
structure Driven (e : Engine) : Prop where
  idle : e.loop = .notStarted → ∀ name, e.jobs.find? name = none
  ended : e.loop = .ended → e.queue = [] ∧ e.subscriptions = []

theorem new_driven (timeout : Duration) (policy : Reduction) : Driven (new timeout policy) where
  idle _ _ := rfl
  ended h := by cases h

/-- an engine without jobs gets none as long as its drive loop has not been started, and so there is nothing to be seen -/
theorem step_idle (op : Op) (hloop : e.loop = .notStarted) (hidle : ∀ name, e.jobs.find? name = none) :
    (∀ name, (e.step op).1.jobs.find? name = none) ∧ (e.step op).2 = [] := by
  refine ⟨fun name => ?_, List.eq_nil_iff_forall_not_mem.2 fun x hx => ?_⟩
  · cases op with
    | sendOnce recipient metrics => simp only [step, sendOnce]; split_ifs <;> exact hidle name
    | subscribe recipient period metrics =>
      simp only [step]
      rcases subscribe_cases e recipient period metrics with ⟨error, he, -⟩ | ⟨-, -, he⟩ <;> rw [he] <;> exact hidle name
    | move m =>
      by_cases hm : m.sparesJobs = true
      · exact (congrArg (·.find? name) (move_jobs e m hm).1).trans (hidle name)
      cases m with
      | dispatch =>
        simp only [step, move, dispatch_of_not_running (show e.loop ≠ .running by simp [hloop])]
        exact hidle name
      | advance name' => simpa only [step, move, advance_of_none e name' (hidle name')] using hidle name
      | sense name' events players fleet => simp [step, move, sense_find?, hidle]
      | _ => exact absurd rfl hm
  · obtain ⟨job, hj, -⟩ := mem_entries (mem_step_log hx).2
    exact absurd (hj.symm.trans (hidle x.job)) (by simp)

theorem step_driven (h : Driven e) (op : Op) : Driven (e.step op).1 := by
  refine ⟨fun hl => ?_, fun hl => ?_⟩
  · rcases step_loop e op with hsame | ⟨-, hrunning⟩ | ⟨-, hended, -⟩
    · have hl := hsame.symm.trans hl
      exact (step_idle op hl (h.idle hl)).1
    · exact absurd (hrunning.symm.trans hl) (by decide)
    · exact absurd (hended.symm.trans hl) (by decide)
  · rcases step_loop e op with hsame | ⟨-, hrunning⟩ | ⟨-, -, hleft⟩
    · have hl := hsame.symm.trans hl
      obtain ⟨honward, hqueue, -⟩ := step_of_ended hl op
      obtain ⟨hempty, htable⟩ := h.ended hl
      exact ⟨List.sublist_nil.1 (hempty ▸ hqueue), List.sublist_nil.1 (htable ▸ honward.table)⟩
    · exact absurd (hrunning.symm.trans hl) (by decide)
    · exact hleft

theorem run_driven (h : Driven e) (ops : List Op) : Driven (e.run ops) := by
  induction ops generalizing e with
  | nil => exact h
  | cons op ops ih => exact ih (step_driven h op)

/-- while the drive loop has not been started, nothing is to be seen -/
theorem log_of_notStarted (h : Driven e) (ops : List Op) (hl : (e.run ops).loop = .notStarted) :
    e.loop = .notStarted ∧ e.log ops = [] := by
  induction ops generalizing e with
  | nil => exact ⟨hl, rfl⟩
  | cons op ops ih =>
    obtain ⟨hstep, hrest⟩ := ih (step_driven h op) hl
    rcases step_loop e op with hsame | ⟨-, hrunning⟩ | ⟨-, hended, -⟩
    · have hloop := hsame.symm.trans hstep
      rw [log_cons, (step_idle op hloop (h.idle hloop)).2, hrest]
      exact ⟨hloop, rfl⟩
    · exact absurd (hrunning.symm.trans hstep) (by decide)
    · exact absurd (hended.symm.trans hstep) (by decide)

/-! ## When the drive loop has ended -/

/-- It is final: nothing waits to be dispatched, no subscription is left, and the subscriptions of all jobs that there
still are have been cancelled. -/
structure Stopped (e : Engine) : Prop where
  ended : e.loop = .ended
  queue : e.queue = []
  table : e.subscriptions = []
  cancelled : ∀ name job k, e.jobs.find? name = some job → job.order.isFor k = true → e.flags.isCancelled k = true

/-- whatever goes on in it does not open it again -/
theorem step_stopped (h : Stopped e) (op : Op) : Stopped (e.step op).1 := by
  obtain ⟨honward, hqueue, hloop⟩ := step_of_ended h.ended op
  refine ⟨hloop, List.sublist_nil.1 (h.queue ▸ hqueue), List.sublist_nil.1 (h.table ▸ honward.table), ?_⟩
  intro name job k hj hk
  rcases honward.orders job.order (Or.inr ⟨name, job, hj, rfl⟩) with hqueued | ⟨name', job', hj', horder⟩
  · rw [h.queue] at hqueued
    cases hqueued
  · exact honward.raised k (h.cancelled name' job' k hj' (horder ▸ hk))

/-- only jobs for one reading start a cycle in it -/
theorem step_stopped_starts (h : Stopped e) (op : Op) :
    ∀ x ∈ (e.step op).2, x.effect.isStart = true → x.order.cadence = .once := by
  intro x hx hstart
  obtain ⟨job, hj, -, -, horder, -⟩ := mem_entries (mem_step_log hx).2
  cases hc : x.order.cadence with
  | once => rfl
  | every period k =>
    have hk : x.order.isFor k = true := (x.order.isFor_iff k).2 ⟨period, hc⟩
    have hnot := step_no_start op (h.cancelled x.job job k hj (horder ▸ hk)) x hx hk
    exact absurd (hnot.symm.trans hstart) Bool.false_ne_true

theorem step_stopped_starts_le (h : Stopped e) (hr : Regular e) (op : Op) {o : Order} (ho : o.cadence = .once) :
    (e.step op).2.countP (Entry.starts o) + (e.step op).1.waiting o ≤ e.waiting o := by
  cases op with
  | sendOnce recipient metrics => rw [step, (refuses_of_ended h.ended recipient metrics).1]; simp
  | subscribe recipient period metrics =>
    obtain ⟨error, he⟩ := (refuses_of_ended h.ended recipient metrics).2 period
    rw [step, he]
    simp
  | move m => exact move_starts_le hr m ho

/-- The engine stays stopped, and the cycles that start in it are no more than single readings had been dispatched. -/
theorem run_stopped (h : Stopped e) (hr : Regular e) (ops : List Op) :
    Stopped (e.run ops) ∧ (∀ x ∈ e.log ops, x.effect.isStart = true → x.order.cadence = .once) ∧
      ∀ o : Order, o.cadence = .once →
        (e.log ops).countP (Entry.starts o) + (e.run ops).waiting o ≤ e.waiting o := by
  induction ops generalizing e with
  | nil =>
    refine ⟨h, fun x hx => absurd hx List.not_mem_nil, fun o _ => ?_⟩
    rw [log, List.countP_nil, Nat.zero_add, run_nil]
  | cons op ops ih =>
    obtain ⟨hstopped, hstarts, hle⟩ := ih (step_stopped h op) (step_regular hr op)
    refine ⟨hstopped, fun x hx => ?_, fun o ho => ?_⟩
    · rw [log_cons] at hx
      rcases List.mem_append.1 hx with hx | hx
      · exact step_stopped_starts h op x hx
      · exact hstarts x hx
    · have hstep := step_stopped_starts_le h hr op ho
      have hrest := hle o ho
      calc (e.log (op :: ops)).countP (Entry.starts o) + (e.run (op :: ops)).waiting o
          = (e.step op).2.countP (Entry.starts o) +
              (((e.step op).1.log ops).countP (Entry.starts o) + ((e.step op).1.run ops).waiting o) := by
            rw [log_cons, List.countP_append, run_cons, Nat.add_assoc]
        _ ≤ (e.step op).2.countP (Entry.starts o) + (e.step op).1.waiting o := Nat.add_le_add_left hrest _
        _ ≤ e.waiting o := hstep

/-- a drive loop that has ended leaves the engine stopped -/
theorem stopped_of_ended (timeout : Duration) (policy : Reduction) (ops : List Op)
    (hl : ((new timeout policy).run ops).loop = .ended) : Stopped ((new timeout policy).run ops) := by
  obtain ⟨hqueue, hnone⟩ := (run_driven (new_driven timeout policy) ops).ended hl
  refine ⟨hl, hqueue, hnone, fun name job k hj hk => ?_⟩
  have hgranted : k ∈ (new timeout policy).granted ops :=
    (run_serves ops ⟨job.order, Or.inr ⟨name, job, hj, rfl⟩, hk⟩).resolve_left (not_serves_new timeout policy k)
  -- what has been given out is on the table, which is empty, or cancelled
  refine (run_tabled ops (Or.inr hgranted)).resolve_left fun hm => ?_
  rw [hnone] at hm
  cases hm

theorem Stopped.activeSubscriptions (h : Stopped e) : e.activeSubscriptions = 0 := by
  unfold Engine.activeSubscriptions
  rw [h.table]
  rfl

/-- whatever goes on in a stopped engine, it does nothing more than carry single readings out -/
theorem stopped_outcome (h : Stopped e) (hr : Regular e) (later : List Op) :
    let d := e.run later
    d.loop = .ended ∧ d.activeSubscriptions = 0 ∧ d.queue = [] ∧
      (∀ recipient metrics, d.sendOnce recipient metrics = d ∧
        ∀ period, ∃ error, d.subscribe recipient period metrics = .error error) ∧
      (∀ x ∈ e.log later, x.effect.isStart = true → x.order.cadence = .once) ∧
      ∀ o : Order, o.cadence = .once →
        (e.log later).countP (Entry.starts o) + d.waiting o ≤ e.waiting o := by
  obtain ⟨hd, hstarts, hle⟩ := run_stopped h hr later
  exact ⟨hd.ended, hd.activeSubscriptions, hd.queue, refuses_of_ended hd.ended, hstarts, hle⟩

/-! ## Shutdown -/

/-- one reading has been dispatched and another not, and there is a subscription -/
def busy : List Op :=
  let probe : Sensor := ⟨0, "probe", [.humidity]⟩
  [.move (.sense 0 [] [] [.scripted probe [] false false true]), .move (.pool (.ofSensors [probe])), .move .process,
    .sendOnce (.listener "first" ⟨0⟩) [.humidity], .move .dispatch, .sendOnce (.listener "second" ⟨0⟩) [.humidity],
    .subscribe (.listener "third" ⟨0⟩) ⟨1000⟩ [.humidity]]

/-- A subscription is made after the engine has been shut down, and it is live. The reading that had been dispatched
starts its cycle. -/
theorem shutdown_not_closed :
    let e := ((new ⟨500⟩ .mean).run busy).shutdown
    (∃ handle c, e.subscribe (.listener "late" ⟨0⟩) ⟨1000⟩ [.humidity] = .ok (handle, c) ∧ c.activeSubscriptions = 1) ∧
      ∃ x ∈ e.log [.move (.advance 0)], x.effect.isStart = true :=
  ⟨⟨_, _, rfl, rfl⟩, _, List.mem_cons_self, rfl⟩

/-- **Shutting down.** Let the engine be shut down at any point of a run, whatever has been done before and whatever goes
on afterwards. Every subscription made before is cancelled and stays so, and no later subscription has its handle. The
cycles that still start are those of single readings and of subscriptions made since, and only the latter can be live.
While the drive loop has not been started, no cycle starts. The drive loop remains told to stop, so it can end whenever
it runs. From when it has ended on, there is no live subscription, nothing waits to be dispatched, no order is taken, and
no cycle starts but for single readings that had been dispatched by then, at most one for each. -/
theorem shutdown_outcome (timeout : Duration) (policy : Reduction) (before after : List Op) :
    let e := ((new timeout policy).run before).shutdown
    let c := e.run after
    (∀ k ∈ (new timeout policy).granted before, c.flags.isCancelled k = true ∧ k ∉ e.granted after) ∧
      (∀ x ∈ e.log after, x.effect.isStart = true →
        x.order.cadence = .once ∨ ∃ k ∈ e.granted after, x.order.isFor k = true) ∧
      ((∀ k ∈ c.subscriptions, k ∈ e.granted after) ∧ c.activeSubscriptions ≤ (e.granted after).length) ∧
      (c.loop = .notStarted → e.log after = []) ∧
      (c.stopping = true ∧ (c.loop = .running → c.endLoop.loop = .ended)) ∧
      (c.loop = .ended → ∀ later,
        let d := c.run later
        d.loop = .ended ∧ d.activeSubscriptions = 0 ∧ d.queue = [] ∧
          (∀ recipient metrics, d.sendOnce recipient metrics = d ∧
            ∀ period, ∃ error, d.subscribe recipient period metrics = .error error) ∧
          (∀ x ∈ c.log later, x.effect.isStart = true → x.order.cadence = .once) ∧
          ∀ o : Order, o.cadence = .once →
            (c.log later).countP (Entry.starts o) + d.waiting o ≤ c.waiting o) := by
  intro e c
  have he : e = (new timeout policy).run (before ++ [.move .shutdown]) := by rw [run_append]; rfl
  have hregular : Regular e := he ▸ run_regular (new_regular timeout policy) _
  have hdriven : Driven e := he ▸ run_driven (new_driven timeout policy) _
  have hcancelled : ∀ k ∈ (new timeout policy).granted before, e.flags.isCancelled k = true := by
    intro k hk
    have h := run_tabled before (Or.inr hk)
    simpa [e, shutdown, cancelAll, CancelFlags.isCancelled_cancelAll] using h
  have hnew : ∀ k ∈ (new timeout policy).granted before, k ∉ e.granted after := by
    intro k hk hagain
    have hissued : e.flags.issued = ((new timeout policy).run before).flags.issued := CancelFlags.issued_cancelAll _ _
    have hlt := (granted_issued before hk).2
    have hle := (granted_issued after hagain).1
    omega
  have htable : ∀ k ∈ c.subscriptions, k ∈ e.granted after := fun k hk =>
    (run_granted (P := fun e => k ∈ e.subscriptions) (fun _ op => step_listed op) after hk).resolve_left
      List.not_mem_nil
  refine ⟨fun k hk => ⟨run_raised after (hcancelled k hk), hnew k hk⟩, ?starts, ⟨htable, ?active⟩, ?idle,
    ⟨?stopping, ?ends⟩, ?ended⟩
  case starts =>
    intro x hx hstart
    cases hc : x.order.cadence with
    | once => exact Or.inl rfl
    | every period k =>
      have hk : x.order.isFor k = true := (x.order.isFor_iff k).2 ⟨period, hc⟩
      rcases log_serves after hx hk with hserves | hgranted
      · -- all that the engine has orders for has been asked for before
        have hgranted := (run_serves before hserves).resolve_left (not_serves_new timeout policy k)
        have hnot := run_no_start after (hcancelled k hgranted) x hx hk
        exact absurd (hnot.symm.trans hstart) Bool.false_ne_true
      · exact Or.inr ⟨k, hgranted, hk⟩
  case active =>
    have hnodup : c.subscriptions.Nodup := (run_regular hregular after).distinct
    refine (List.subperm_of_subset (hnodup.filter _) fun k hk => htable k (List.mem_filter.1 hk).1).length_le
  case idle => exact fun hl => (log_of_notStarted hdriven after hl).2
  case stopping => exact run_stopping after rfl
  case ends =>
    intro hl
    unfold endLoop
    rw [if_pos ⟨hl, run_stopping after rfl⟩]
    rfl
  case ended =>
    intro hl later
    have hc : c = (new timeout policy).run (before ++ [.move .shutdown] ++ after) := by rw [run_append, ← he]
    have hstopped : Stopped c := hc ▸ stopped_of_ended timeout policy _ (hc ▸ hl)
    exact stopped_outcome hstopped (run_regular hregular after) later

/-- The reading that had been dispatched starts after the shutdown. The other does not, and the subscription is
cancelled. -/
theorem shutdown_outcome_busy :
    let e := ((new ⟨500⟩ .mean).run busy).shutdown
    let c := e.run [.move .endLoop]
    let later : List Op := [.move (.advance 0), .move .dispatch, .move (.advance 1)]
    c.flags.isCancelled ⟨0⟩ = true ∧ c.loop = .ended ∧
      (c.log later).map (fun x => (x.job, x.effect.isStart)) = [(0, true)] ∧
      (c.run later).activeSubscriptions = 0 ∧ (c.run later).queue = [] := by
  intro e c later
  obtain ⟨hcancelled, -, -, -, -, hended⟩ := shutdown_outcome ⟨500⟩ .mean busy [.move .endLoop]
  obtain ⟨-, hactive, hqueue, -⟩ := hended rfl later
  exact ⟨(hcancelled ⟨0⟩ (by decide)).1, rfl, rfl, hactive, hqueue⟩

end Engine

end SensorNode
