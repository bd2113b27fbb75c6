/-
The order of a subscription. In any run there is at most one order with its handle, in the queue or as that of a job
(`performAll_single`), and once it is that of a job, no other job ever gets one (`Sole`). Recipients may take any time
over their deliveries: runs here are of operations and of `linger`.
-/
import SensorNode.Proofs.Reading.Jobs

namespace SensorNode

namespace Engine

variable {e : Engine} {k : CancelHandle}

/-! ## Recipients that take their time -/

/-- what goes on in an engine whose recipients take whatever time they like -/
inductive Action
  | base (op : Op)
  /-- the recipient who has the readings of a job will be through with them at this time -/
  | linger (job : Nat) (done : Nat)

def linger (e : Engine) (name done : Nat) : Engine :=
  match e.jobs.find? name with
  | some ⟨_, .delivering _ next⟩ => e.setPhase name (.delivering done next)
  | _ => e

def perform (e : Engine) : Action → Engine × List Entry
  | .base op => e.step op
  | .linger name done => (e.linger name done, [])

def performAll (e : Engine) (actions : List Action) : Engine := actions.foldl (fun e a => (e.perform a).1) e

/-- the recipient of this job takes its time, if it has readings to take -/
def Job.linger (job : Job) (done : Nat) : Job :=
  match job.phase with
  | .delivering _ next => { job with phase := .delivering done next }
  | _ => job

theorem Job.linger_order (job : Job) (done : Nat) : (Job.linger job done).order = job.order := by
  unfold Job.linger
  split <;> rfl

theorem linger_find? (e : Engine) (name name' done : Nat) :
    (e.linger name done).jobs.find? name' =
      if name' = name then (e.jobs.find? name).map (Job.linger · done) else e.jobs.find? name' := by
  unfold linger
  split
  · rename_i order old next hj
    exact (setPhase_find? e name name' _).trans (by rw [hj]; rfl)
  · rename_i hnot
    split_ifs with hname
    · subst hname
      cases hj : e.jobs.find? name' with
      | none => rfl
      | some job =>
        obtain ⟨order, phase⟩ := job
        cases phase with
        | delivering old next => exact absurd hj (hnot order old next)
        | _ => rfl
    · rfl

/-- but for the phase of the job nothing is touched -/
theorem linger_eq (e : Engine) (name done : Nat) :
    e.linger name done = e ∨ ∃ phase, e.linger name done = e.setPhase name phase := by
  unfold linger
  split
  · exact Or.inr ⟨_, rfl⟩
  · exact Or.inl rfl

theorem linger_regular (h : Regular e) (name done : Nat) : Regular (e.linger name done) := by
  rcases linger_eq e name done with hl | ⟨phase, hl⟩ <;> rw [hl]
  · exact h
  · refine h.of_onward (Onward.setPhase e name phase) fun name' job hj => ?_
    rw [setPhase_find?] at hj
    split_ifs at hj with hname
    · obtain ⟨job', hj', -⟩ := Option.map_eq_some_iff.1 hj
      rw [hname]
      exact h.named name job' hj'
    · exact h.named name' job hj

theorem perform_regular (h : Regular e) (a : Action) : Regular (e.perform a).1 := by
  cases a with
  | base op => exact step_regular h op
  | linger name done => exact linger_regular h name done

theorem perform_nextJob_le (e : Engine) (a : Action) : e.nextJob ≤ (e.perform a).1.nextJob := by
  cases a with
  | base op => exact step_nextJob_le e op
  | linger name done =>
    simp only [perform]
    rcases linger_eq e name done with hl | ⟨phase, hl⟩ <;> rw [hl]
    exact le_rfl

/-! ## Where orders come from -/

theorem Outcome.queue {e' : Engine} {name : Nat} {job : Job} (h : Outcome e name job e') : e'.queue = e.queue := by
  cases h with
  | ends => unfold endJob; split <;> rfl
  | _ => rfl

theorem Outcome.loop {e' : Engine} {name : Nat} {job : Job} (h : Outcome e name job e') :
    e'.loop = e.loop ∧ e'.stopping = e.stopping := by
  cases h with
  | ends => unfold endJob; split <;> exact ⟨rfl, rfl⟩
  | _ => exact ⟨rfl, rfl⟩

/-- a job that is still there has its order -/
theorem Outcome.order {e' : Engine} {name : Nat} {job : Job} (h : Outcome e name job e') {name' : Nat} {job' : Job}
    (hj' : e'.jobs.find? name' = some job') :
    ∃ old, e.jobs.find? name' = some old ∧ job'.order = old.order := by
  have kept : e'.jobs = e.jobs.erase name → ∃ old, e.jobs.find? name' = some old ∧ job'.order = old.order := by
    intro hjobs
    rw [hjobs, Keyed.find?_erase] at hj'
    split_ifs at hj'
    exact ⟨job', hj', rfl⟩
  cases h with
  | stays => exact ⟨job', hj', rfl⟩
  | dies => exact kept rfl
  | ends => exact kept (by unfold endJob; split <;> rfl)
  | goesOn phase =>
    rw [setPhase_find?] at hj'
    split_ifs at hj' with hname
    · obtain ⟨old, hold, rfl⟩ := Option.map_eq_some_iff.1 hj'
      exact ⟨old, hname ▸ hold, rfl⟩
    · exact ⟨job', hj', rfl⟩

/-- moves only take orders off the queue -/
theorem move_queue (e : Engine) (m : Move) : (e.move m).1.queue.Sublist e.queue := by
  cases m with
  | process => simp only [move, process]; split_ifs <;> exact List.Sublist.refl _
  | dispatch =>
    simp only [move]
    rcases dispatch_cases e with h | ⟨order, rest, -, hq, ⟨h, -⟩ | ⟨period, handle, -, -, h⟩⟩ <;> rw [h]
    · rw [hq]; exact List.sublist_cons_self _ _
    · rw [hq]; exact List.sublist_cons_self _ _
  | endLoop =>
    simp only [move, endLoop]
    split_ifs
    · exact List.nil_sublist _
    · exact List.Sublist.refl _
  | advance name =>
    simp only [move]
    cases hj : e.jobs.find? name with
    | none => rw [advance_of_none e name hj]
    | some job =>
      obtain ⟨errors, cycles, h⟩ := advance_outcome e name job hj
      rw [show (e.advance name).1.queue = e.queue from h.queue]
  | sense name events players fleet => simp only [move, sense]; split <;> exact List.Sublist.refl _
  | _ => exact List.Sublist.refl _

/-- an action takes orders off the queue, or puts one on it whose handle, if it has one, is issued for it -/
theorem perform_queue (e : Engine) (a : Action) :
    ((e.perform a).1.queue.Sublist e.queue ∧ (e.perform a).1.flags.issued = e.flags.issued) ∨
      ∃ o, (e.perform a).1.queue = e.queue ++ [o] ∧ (e.perform a).1.jobs = e.jobs ∧
        e.flags.issued ≤ (e.perform a).1.flags.issued ∧
        ∀ k, o.isFor k = true → k.flag = e.flags.issued ∧ k.flag < (e.perform a).1.flags.issued := by
  cases a with
  | base op =>
    cases op with
    | sendOnce recipient metrics =>
      simp only [perform, step, sendOnce]
      split_ifs
      · exact Or.inr ⟨_, rfl, rfl, le_rfl, fun k hk => absurd hk (by simp [Order.isFor])⟩
      · exact Or.inl ⟨List.Sublist.refl _, rfl⟩
    | subscribe recipient period metrics =>
      simp only [perform, step]
      rcases subscribe_cases e recipient period metrics with ⟨error, he, -⟩ | ⟨-, -, he⟩ <;> rw [he]
      · exact Or.inl ⟨List.Sublist.refl _, rfl⟩
      · refine Or.inr ⟨_, rfl, rfl, Nat.le_succ _, fun k hk => ?_⟩
        obtain rfl : (⟨e.flags.issued⟩ : CancelHandle) = k := by simpa [Order.isFor] using hk
        exact ⟨rfl, Nat.lt_succ_self _⟩
    | move m => exact Or.inl ⟨move_queue e m, (move_onward e m).issued⟩
  | linger name done =>
    simp only [perform]
    rcases linger_eq e name done with hl | ⟨phase, hl⟩ <;> rw [hl] <;> exact Or.inl ⟨List.Sublist.refl _, rfl⟩

theorem step_issued_le (e : Engine) (op : Op) : e.flags.issued ≤ (e.step op).1.flags.issued := by
  rcases perform_queue e (.base op) with ⟨-, hissued⟩ | ⟨new, -, -, hissued, -⟩
  · exact hissued.ge
  · exact hissued

theorem run_issued_le (e : Engine) (ops : List Op) : e.flags.issued ≤ (e.run ops).flags.issued := by
  induction ops generalizing e with
  | nil => exact le_rfl
  | cons op ops ih => exact (step_issued_le e op).trans (ih _)

/-- a job was there before with its order, or its order was the next in the queue -/
theorem perform_order (e : Engine) (a : Action) {name : Nat} {job : Job}
    (hj : (e.perform a).1.jobs.find? name = some job) :
    (∃ old, e.jobs.find? name = some old ∧ job.order = old.order) ∨
      name = e.nextJob ∧ ∃ rest, e.queue = job.order :: rest ∧ (e.perform a).1.queue = rest := by
  have of_map : ∀ {jobs : Option Job} (change : Job → Job), (∀ old, (change old).order = old.order) →
      jobs.map change = some job → ∃ old, jobs = some old ∧ job.order = old.order := by
    intro jobs change horder h
    obtain ⟨old, hold, rfl⟩ := Option.map_eq_some_iff.1 h
    exact ⟨old, hold, horder old⟩
  cases a with
  | base op =>
    cases op with
    | sendOnce recipient metrics =>
      simp only [perform, step, sendOnce] at hj
      split_ifs at hj <;> exact Or.inl ⟨job, hj, rfl⟩
    | subscribe recipient period metrics =>
      simp only [perform, step] at hj
      rcases subscribe_cases e recipient period metrics with ⟨error, he, -⟩ | ⟨-, -, he⟩ <;> rw [he] at hj <;>
        exact Or.inl ⟨job, hj, rfl⟩
    | move m =>
      simp only [perform, step] at hj ⊢
      by_cases hm : m.sparesJobs = true
      · rw [(move_jobs e m hm).1] at hj
        exact Or.inl ⟨job, hj, rfl⟩
      cases m with
      | dispatch =>
        simp only [move] at hj ⊢
        rcases dispatch_cases e with h | ⟨order, rest, -, hq, ⟨h, -⟩ | ⟨period, handle, -, -, h⟩⟩ <;> rw [h] at hj ⊢
        · exact Or.inl ⟨job, hj, rfl⟩
        · rw [Keyed.find?_insert] at hj
          split_ifs at hj with hname
          · obtain rfl := Option.some.inj hj
            exact Or.inr ⟨hname, rest, hq, rfl⟩
          · exact Or.inl ⟨job, hj, rfl⟩
        · exact Or.inl ⟨job, hj, rfl⟩
      | advance name' =>
        simp only [move] at hj
        cases hj' : e.jobs.find? name' with
        | none =>
          rw [advance_of_none e name' hj'] at hj
          exact Or.inl ⟨job, hj, rfl⟩
        | some job' =>
          obtain ⟨errors, cycles, h⟩ := advance_outcome e name' job' hj'
          exact Or.inl (h.order hj)
      | sense name' events players fleet =>
        simp only [move, sense_find?] at hj
        split_ifs at hj with hname
        · exact Or.inl (hname ▸ of_map _ (fun old => old.sense_order events fun _ => players) hj)
        · exact Or.inl ⟨job, hj, rfl⟩
      | _ => exact absurd rfl hm
  | linger name' done =>
    simp only [perform, linger_find?] at hj
    split_ifs at hj with hname
    · exact Or.inl (hname ▸ of_map _ (fun old => Job.linger_order old done) hj)
    · exact Or.inl ⟨job, hj, rfl⟩

/-! ## One order for each subscription -/

/-- no two of the orders are of one subscription, and their handles have been issued -/
structure Single (e : Engine) : Prop where
  queued : e.queue.Pairwise fun o o' => ∀ k, o.isFor k = true → o'.isFor k = false
  apart : ∀ name job, e.jobs.find? name = some job → ∀ o ∈ e.queue, ∀ k, job.order.isFor k = true → o.isFor k = false
  unique : ∀ name job name' job' k, e.jobs.find? name = some job → job.order.isFor k = true →
    e.jobs.find? name' = some job' → job'.order.isFor k = true → name = name'
  issued : ∀ o, e.Holds o → ∀ k, o.isFor k = true → k.flag < e.flags.issued

theorem new_single (timeout : Duration) (policy : Reduction) : Single (new timeout policy) where
  queued := List.Pairwise.nil
  apart _ _ h := by simp [new] at h
  unique _ _ _ _ _ h := by simp [new] at h
  issued o h := by simp [new, Holds] at h

theorem perform_single (h : Single e) (a : Action) : Single (e.perform a).1 := by
  rcases perform_queue e a with ⟨hqueue, hissued⟩ | ⟨o, hqueue, hjobs, hissued, hnew⟩
  · -- orders only go from the queue to a job, or are lost
    refine ⟨h.queued.sublist hqueue, ?apart, ?unique, ?issued⟩
    case apart =>
      intro name job hj o ho k hk
      rcases perform_order e a hj with ⟨old, hold, horder⟩ | ⟨-, rest, hfront, hrest⟩
      · exact h.apart name old hold o (hqueue.subset ho) k (horder ▸ hk)
      · have hpairs := h.queued
        rw [hfront] at hpairs
        rw [hrest] at ho
        exact (List.pairwise_cons.1 hpairs).1 o ho k hk
    case unique =>
      intro name job name' job' k hj hk hj' hk'
      have front : ∀ {order rest}, e.queue = order :: rest → order ∈ e.queue := fun hfront => by simp [hfront]
      rcases perform_order e a hj with ⟨old, hold, horder⟩ | ⟨hname, rest, hfront, -⟩
      · rcases perform_order e a hj' with ⟨old', hold', horder'⟩ | ⟨hname', rest', hfront', -⟩
        · exact h.unique name old name' old' k hold (horder ▸ hk) hold' (horder' ▸ hk')
        · have := h.apart name old hold _ (front hfront') k (horder ▸ hk)
          exact absurd (hk'.symm.trans this) (by decide)
      · rcases perform_order e a hj' with ⟨old', hold', horder'⟩ | ⟨hname', -, -, -⟩
        · have := h.apart name' old' hold' _ (front hfront) k (horder' ▸ hk')
          exact absurd (hk.symm.trans this) (by decide)
        · exact hname.trans hname'.symm
    case issued =>
      intro o ho k hk
      rw [hissued]
      rcases ho with ho | ⟨name, job, hj, rfl⟩
      · exact h.issued o (Or.inl (hqueue.subset ho)) k hk
      · rcases perform_order e a hj with ⟨old, hold, horder⟩ | ⟨-, rest, hfront, -⟩
        · exact h.issued old.order (Or.inr ⟨name, old, hold, rfl⟩) k (horder ▸ hk)
        · exact h.issued job.order (Or.inl (by simp [hfront])) k hk
  · -- a new order, whose handle no other order can have
    have old : ∀ {o' : Order}, e.Holds o' → ∀ k, o'.isFor k = true → o.isFor k = false := by
      intro o' ho' k hk'
      have hlt := h.issued o' ho' k hk'
      refine Bool.eq_false_iff.2 fun hk => ?_
      have := (hnew k hk).1
      omega
    refine ⟨?queued, ?apart, ?unique, ?issued⟩
    case queued =>
      rw [hqueue]
      refine List.pairwise_append.2 ⟨h.queued, List.pairwise_singleton _ _, fun o' ho' o'' ho'' => ?_⟩
      obtain rfl := List.mem_singleton.1 ho''
      exact old (Or.inl ho')
    case apart =>
      intro name job hj o' ho' k hk
      rw [hjobs] at hj
      rw [hqueue] at ho'
      rcases List.mem_append.1 ho' with ho' | ho'
      · exact h.apart name job hj o' ho' k hk
      · obtain rfl := List.mem_singleton.1 ho'
        exact old (Or.inr ⟨name, job, hj, rfl⟩) k hk
    case unique =>
      intro name job name' job' k hj hk hj' hk'
      rw [hjobs] at hj hj'
      exact h.unique name job name' job' k hj hk hj' hk'
    case issued =>
      intro o' ho' k hk
      rw [Holds, hqueue, hjobs] at ho'
      rcases ho' with ho' | ho'
      · rcases List.mem_append.1 ho' with ho' | ho'
        · exact lt_of_lt_of_le (h.issued o' (Or.inl ho') k hk) hissued
        · obtain rfl := List.mem_singleton.1 ho'
          exact (hnew k hk).2
      · exact lt_of_lt_of_le (h.issued o' (Or.inr ho') k hk) hissued

theorem performAll_single (h : Single e) (actions : List Action) : Single (e.performAll actions) := by
  induction actions generalizing e with
  | nil => exact h
  | cons a actions ih => exact ih (perform_single h a)

theorem performAll_regular (h : Regular e) (actions : List Action) : Regular (e.performAll actions) := by
  induction actions generalizing e with
  | nil => exact h
  | cons a actions ih => exact ih (perform_regular h a)

/-- whatever job there is of the subscription has this name -/
structure Sole (k : CancelHandle) (name : Nat) (e : Engine) : Prop where
  used : name < e.nextJob
  issued : k.flag < e.flags.issued
  unqueued : ∀ o ∈ e.queue, o.isFor k = false
  only : ∀ name' job, e.jobs.find? name' = some job → job.order.isFor k = true → name' = name

theorem Single.sole (h : Single e) (hr : Regular e) {name : Nat} {job : Job} (hj : e.jobs.find? name = some job)
    (hk : job.order.isFor k = true) : Sole k name e where
  used := hr.named name job hj
  issued := h.issued job.order (Or.inr ⟨name, job, hj, rfl⟩) k hk
  unqueued o ho := h.apart name job hj o ho k hk
  only name' job' hj' hk' := h.unique name' job' name job k hj' hk' hj hk

theorem Sole.perform {name : Nat} (h : Sole k name e) (a : Action) : Sole k name (e.perform a).1 := by
  have hused := lt_of_lt_of_le h.used (perform_nextJob_le e a)
  have only : ∀ name' job, (e.perform a).1.jobs.find? name' = some job → job.order.isFor k = true → name' = name := by
    intro name' job hj hk
    rcases perform_order e a hj with ⟨old, hold, horder⟩ | ⟨-, rest, hfront, -⟩
    · exact h.only name' old hold (horder ▸ hk)
    · exact absurd (hk.symm.trans (h.unqueued job.order (by simp [hfront]))) (by decide)
  rcases perform_queue e a with ⟨hqueue, hissued⟩ | ⟨o, hqueue, -, hissued, hnew⟩
  · exact ⟨hused, hissued ▸ h.issued, fun o ho => h.unqueued o (hqueue.subset ho), only⟩
  · refine ⟨hused, lt_of_lt_of_le h.issued hissued, fun o' ho' => ?_, only⟩
    rw [hqueue] at ho'
    rcases List.mem_append.1 ho' with ho' | ho'
    · exact h.unqueued o' ho'
    · obtain rfl := List.mem_singleton.1 ho'
      refine Bool.eq_false_iff.2 fun hk => ?_
      have hlt := h.issued
      have := (hnew k hk).1
      omega

end Engine

end SensorNode
