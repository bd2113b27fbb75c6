/-
Runs of the reading engine. Between the orders that it is given, anything may go on in it in any order: time passes, the
drive loop takes an order or ends, a job goes on, sensors do what they like, handles are cancelled. A run is a list of
such operations; what its jobs do for others to see is its log.

- `play_eq_sense`: what the players of scripted sensors do is one of the things that sensors may do.
- `advance_outcome`: what can become of a job when it goes on.
- `Onward`: what no move of the engine undoes; `move_onward` says that all of them keep to it.
-/
import SensorNode.Proofs.Keyed
import SensorNode.Reading.Step

namespace SensorNode

/-- the job has not run yet -/
def Job.Phase.isFresh : Job.Phase → Bool
  | .fresh => true
  | _ => false

namespace Engine

/-! ## Operations -/

/-- something that a job does for others to see -/
structure Entry where
  time : Nat
  job : Nat
  order : Order
  effect : Effect

/-- what goes on in an engine besides the orders it is given -/
inductive Move
  | process
  | shutdown
  | cancel (handle : CancelHandle)
  /-- The drive loop takes the next order. It may do so even when it has been told to stop, if it looks at the queue
  first. -/
  | dispatch
  | endLoop
  | advance (job : Nat)
  /-- The sensors of a job's cycle do whatever they do, and the instruments are then in whatever state they are. -/
  | sense (job : Nat) (events : List (Nat × Cycle.Event)) (players : List Player) (fleet : Fleet)
  | pool (pool : Register)
  | wait (span : Duration)

inductive Op
  | sendOnce (recipient : Recipient) (metrics : List Metric)
  | subscribe (recipient : Recipient) (period : Duration) (metrics : List Metric)
  | move (m : Move)

/-- the sensors of a job's cycle do these things -/
def sense (e : Engine) (name : Nat) (events : List (Nat × Cycle.Event)) (players : List Player) (fleet : Fleet) :
    Engine :=
  match e.jobs.find? name with
  | some ⟨_, .harvesting h next⟩ =>
    { e.setPhase name (.harvesting { h with cycle := h.cycle.run events, players } next) with fleet }
  | _ => { e with fleet }

/-- what a job would do for others to see if it went on -/
def entries (e : Engine) (name : Nat) : List Entry :=
  match e.jobs.find? name with
  | some job => (e.advance name).2.map fun effect => ⟨e.now, name, job.order, effect⟩
  | none => []

def move (e : Engine) : Move → Engine × List Entry
  | .process => (e.process.getD e, [])
  | .shutdown => (e.shutdown, [])
  | .cancel handle => (e.cancel handle, [])
  | .dispatch => (e.dispatch, [])
  | .endLoop => (e.endLoop, [])
  | .advance name => ((e.advance name).1, e.entries name)
  | .sense name events players fleet => (e.sense name events players fleet, [])
  | .pool pool => ({ e with pool }, [])
  | .wait span => ({ e with now := e.now + span.millis }, [])

def step (e : Engine) : Op → Engine × List Entry
  | .sendOnce recipient metrics => (e.sendOnce recipient metrics, [])
  | .subscribe recipient period metrics =>
    match e.subscribe recipient period metrics with
    | .ok (_, e) => (e, [])
    | .error _ => (e, [])
  | .move m => e.move m

/-- the engine after a run -/
def run (e : Engine) (ops : List Op) : Engine := ops.foldl (fun e op => (e.step op).1) e

/-- what is to be seen of a run -/
def log (e : Engine) : List Op → List Entry
  | [] => []
  | op :: ops => (e.step op).2 ++ log (e.step op).1 ops

theorem run_nil (e : Engine) : e.run [] = e := rfl

theorem run_cons (e : Engine) (op : Op) (ops : List Op) : e.run (op :: ops) = (e.step op).1.run ops := rfl

theorem run_append (e : Engine) (ops ops' : List Op) : e.run (ops ++ ops') = (e.run ops).run ops' := by
  simp [run, List.foldl_append]

theorem log_cons (e : Engine) (op : Op) (ops : List Op) :
    e.log (op :: ops) = (e.step op).2 ++ (e.step op).1.log ops := rfl

/-! ## Players as sensors -/

/-- the events of a harvest up to its next sleep -/
def eventsOf (n : Nat) : List HarvestStep → List (Nat × Cycle.Event)
  | [] => [(n, .returned)]
  | .sleep _ :: _ => []
  | .write m s :: rest => (n, .write m s) :: eventsOf n rest
  | .writeIfWanted m s :: rest => (n, .writeIfWanted m s) :: eventsOf n rest
  | .fail m message :: rest => (n, .fail m message) :: eventsOf n rest
  | .die :: _ => [(n, .died)]

theorem play_cycle (now n : Nat) (steps : List HarvestStep) (c : Cycle) :
    (Player.play now n steps c).1 = c.run (eventsOf n steps) := by
  induction steps generalizing c with
  | nil => rfl
  | cons step rest ih =>
    cases step with
    | write m s => exact ih _
    | writeIfWanted m s => exact ih _
    | fail m message => exact ih _
    | _ => rfl

theorem play_harvesting (h : Harvesting) (now n : Nat) (fleet : Fleet) :
    ∃ events players, (h.play now n fleet).1 = { h with cycle := h.cycle.run events, players } := by
  unfold Harvesting.play
  split
  · exact ⟨[], h.players, rfl⟩
  · split_ifs
    · simp only [play_cycle]
      exact ⟨_, _, rfl⟩
    · exact ⟨[], h.players, rfl⟩

/-- A player that goes on is a case of what sensors may do. -/
theorem play_eq_sense (e : Engine) (name n : Nat) :
    ∃ events players fleet, e.play name n = e.sense name events players fleet := by
  unfold play
  split
  · rename_i order h next hj
    obtain ⟨events, players, hplay⟩ := play_harvesting h e.now n e.fleet
    refine ⟨events, players, (h.play e.now n e.fleet).2, ?_⟩
    simp only [sense, hj, ← hplay]
  · rename_i hj
    refine ⟨[], [], e.fleet, ?_⟩
    unfold sense
    split
    · rename_i order h next hj'
      exact absurd hj' (hj order h next)
    · rfl

/-! ## What can become of a job -/

/-- what an engine may be after one of its jobs has gone on, its counts and errors aside -/
inductive Outcome (e : Engine) (name : Nat) (job : Job) : Engine → Prop
  | stays (begun : job.phase.isFresh = false) : Outcome e name job e
  /-- the first tick lies beyond the clock -/
  | dies (period : Duration) (handle : CancelHandle) (fresh : job.phase = .fresh)
    (cadence : job.order.cadence = .every period handle) (late : horizon ≤ e.now + period.millis) :
    Outcome e name job { e with jobs := e.jobs.erase name }
  /-- the job is done once, or it has been cancelled -/
  | ends (cancelled : ∀ period handle, job.order.cadence = .every period handle → e.flags.isCancelled handle = true) :
    Outcome e name job (e.endJob name job.order)
  | goesOn (phase : Job.Phase) (begun : phase.isFresh = false) : Outcome e name job (e.setPhase name phase)

theorem afterDelivery_outcome (e : Engine) (name : Nat) (job : Job) (next : Nat) :
    Outcome e name job (e.afterDelivery name job.order next) := by
  unfold afterDelivery
  split
  · rename_i hc
    exact .ends fun period handle h => by rw [hc] at h; exact absurd h (by simp)
  · rename_i period handle hc
    split_ifs with hcancelled
    · refine .ends fun period' handle' h => ?_
      rw [hc] at h
      obtain ⟨rfl, rfl⟩ := Cadence.every.inj h
      exact hcancelled
    · exact .goesOn _ rfl

/-- the counts and errors of an engine are others -/
def recount (e : Engine) (errors : List (Nat × HarvestError)) (cycles : Nat) : Engine :=
  { e with errors, completedCycles := cycles }

theorem completeCycle_outcome (e : Engine) (name : Nat) (job : Job) (h : Harvesting) (next : Nat) :
    ∃ errors cycles, Outcome (e.recount errors cycles) name job (e.completeCycle name job.order h next).1 := by
  refine ⟨((h.cycle.outcome e.policy).errors.map fun x => (e.now, x)).reverse ++ e.errors,
    e.completedCycles + 1, ?_⟩
  simp only [completeCycle]
  split_ifs
  · exact afterDelivery_outcome _ name job next
  · exact .goesOn _ rfl

theorem startCycle_outcome (e : Engine) (name : Nat) (job : Job) (next : Nat) :
    ∃ errors cycles, Outcome (e.recount errors cycles) name job (e.startCycle name job.order next).1 := by
  simp only [startCycle]
  split_ifs
  · exact completeCycle_outcome e name job _ next
  · exact ⟨e.errors, e.completedCycles, .goesOn _ rfl⟩

/-- a job that goes on stays, dies, ends or comes to another phase, and no other job does -/
theorem advance_outcome (e : Engine) (name : Nat) (job : Job) (hj : e.jobs.find? name = some job) :
    ∃ errors cycles, Outcome (e.recount errors cycles) name job (e.advance name).1 := by
  obtain ⟨order, phase⟩ := job
  have stays : phase.isFresh = false → ∃ errors cycles, Outcome (e.recount errors cycles) name ⟨order, phase⟩ e :=
    fun begun => ⟨e.errors, e.completedCycles, .stays begun⟩
  have ends : ∀ period handle, order.cadence = .every period handle → e.flags.isCancelled handle = true →
      ∃ errors cycles, Outcome (e.recount errors cycles) name ⟨order, phase⟩ (e.endJob name order) := by
    intro period handle hc hcancelled
    refine ⟨e.errors, e.completedCycles, .ends fun period' handle' h => ?_⟩
    obtain ⟨rfl, rfl⟩ := Cadence.every.inj (hc.symm.trans h)
    exact hcancelled
  unfold advance
  simp only [hj]
  split
  · exact startCycle_outcome e name _ 0
  · rename_i period handle hc
    split_ifs with hlate hcancelled
    · exact ⟨e.errors, e.completedCycles, .dies period handle rfl hc hlate⟩
    · exact ends period handle hc hcancelled
    · exact ⟨e.errors, e.completedCycles, .goesOn _ rfl⟩
  · rename_i period handle due hc
    split_ifs with hcancelled
    · exact ends period handle hc hcancelled
    · exact startCycle_outcome e name _ _
    · exact stays rfl
  · exact stays rfl
  · split_ifs
    · exact completeCycle_outcome e name _ _ _
    · exact stays rfl
  · split_ifs
    · exact ⟨e.errors, e.completedCycles, afterDelivery_outcome e name _ _⟩
    · exact stays rfl

theorem advance_of_none (e : Engine) (name : Nat) (hj : e.jobs.find? name = none) : e.advance name = (e, []) := by
  unfold advance
  rw [hj]

/-! ## What no move undoes -/

/-- the order waits in the queue or is the order of a job -/
def Holds (e : Engine) (o : Order) : Prop := o ∈ e.queue ∨ ∃ name job, e.jobs.find? name = some job ∧ job.order = o

/-- `e'` comes of `e` without a new order: cancelled handles stay cancelled, and a handle leaves the table of
subscriptions only when it is cancelled -/
structure Onward (e e' : Engine) : Prop where
  issued : e'.flags.issued = e.flags.issued
  raised : ∀ h, e.flags.isCancelled h = true → e'.flags.isCancelled h = true
  table : e'.subscriptions.Sublist e.subscriptions
  live : ∀ h ∈ e.subscriptions, h ∈ e'.subscriptions ∨ e'.flags.isCancelled h = true
  orders : ∀ o, e'.Holds o → e.Holds o

theorem Onward.refl (e : Engine) : Onward e e :=
  ⟨rfl, fun _ h => h, List.Sublist.refl _, fun _ h => Or.inl h, fun _ h => h⟩

theorem Onward.trans {e₁ e₂ e₃ : Engine} (h : Onward e₁ e₂) (k : Onward e₂ e₃) : Onward e₁ e₃ where
  issued := k.issued.trans h.issued
  raised handle hc := k.raised handle (h.raised handle hc)
  table := k.table.trans h.table
  live handle hm := (h.live handle hm).elim (k.live handle) fun hc => Or.inr (k.raised handle hc)
  orders o ho := h.orders o (k.orders o ho)

/-- an engine with the flags, the table and the orders of another -/
theorem Onward.of_eq {e e' : Engine} (hf : e'.flags = e.flags) (ht : e'.subscriptions = e.subscriptions)
    (ho : ∀ o, e'.Holds o → e.Holds o) : Onward e e' where
  issued := by rw [hf]
  raised := by rw [hf]; exact fun _ h => h
  table := by rw [ht]
  live := by rw [ht]; exact fun _ h => Or.inl h
  orders := ho

/-- cancelled handles are taken off the table -/
theorem Onward.erase (e : Engine) (handle : CancelHandle) (hc : e.flags.isCancelled handle = true) :
    Onward e { e with subscriptions := e.subscriptions.erase handle } where
  issued := rfl
  raised _ h := h
  table := List.erase_sublist
  live h hm := by
    by_cases hh : h = handle
    · exact Or.inr (hh ▸ hc)
    · exact Or.inl ((List.mem_erase_of_ne hh).2 hm)
  orders _ h := h

theorem Onward.setPhase (e : Engine) (name : Nat) (phase : Job.Phase) : Onward e (e.setPhase name phase) := by
  refine Onward.of_eq rfl rfl fun o ho => ho.imp_right ?_
  rintro ⟨name', job, hj, rfl⟩
  rw [Engine.setPhase, Keyed.find?_modify] at hj
  split_ifs at hj
  · obtain ⟨job', hj', rfl⟩ := Option.map_eq_some_iff.1 hj
    exact ⟨name, job', hj', rfl⟩
  · exact ⟨name', job, hj, rfl⟩

theorem Onward.eraseJob (e : Engine) (name : Nat) : Onward e { e with jobs := e.jobs.erase name } := by
  refine Onward.of_eq rfl rfl fun o ho => ho.imp_right ?_
  rintro ⟨name', job, hj, rfl⟩
  rw [Keyed.find?_erase] at hj
  split_ifs at hj
  exact ⟨name', job, hj, rfl⟩

theorem Onward.endJob (e : Engine) (name : Nat) (order : Order)
    (hc : ∀ period handle, order.cadence = .every period handle → e.flags.isCancelled handle = true) :
    Onward e (e.endJob name order) := by
  simp only [Engine.endJob]
  split
  · exact Onward.eraseJob e name
  · rename_i period handle hcadence
    exact (Onward.eraseJob e name).trans (Onward.erase _ handle (hc period handle hcadence))

theorem Outcome.onward {e e' : Engine} {name : Nat} {job : Job} (h : Outcome e name job e') : Onward e e' := by
  cases h with
  | stays => exact Onward.refl e
  | dies => exact Onward.eraseJob e name
  | ends hc => exact Onward.endJob e name job.order hc
  | goesOn phase => exact Onward.setPhase e name phase

theorem advance_onward (e : Engine) (name : Nat) : Onward e (e.advance name).1 := by
  cases hj : e.jobs.find? name with
  | none => rw [advance_of_none e name hj]; exact Onward.refl e
  | some job =>
    obtain ⟨errors, cycles, h⟩ := advance_outcome e name job hj
    exact (Onward.of_eq rfl rfl fun _ ho => ho : Onward e (e.recount errors cycles)).trans h.onward

theorem Onward.cancel (e : Engine) (handle : CancelHandle) : Onward e (e.cancel handle) where
  issued := CancelFlags.issued_cancel _ _
  raised h hc := by simp only [Engine.cancel, CancelFlags.isCancelled_cancel, hc, Bool.or_true]
  table := List.Sublist.refl _
  live _ hm := Or.inl hm
  orders _ ho := ho

theorem Onward.cancelAll (e : Engine) : Onward e e.cancelAll where
  issued := CancelFlags.issued_cancelAll _ _
  raised h hc := by simp only [Engine.cancelAll, CancelFlags.isCancelled_cancelAll, hc, Bool.or_true]
  table := List.nil_sublist _
  live h hm := Or.inr (by simp [Engine.cancelAll, CancelFlags.isCancelled_cancelAll, hm])
  orders _ ho := ho

/-- what taking an order off the queue comes to -/
theorem dispatch_cases (e : Engine) :
    e.dispatch = e ∨ ∃ order rest, e.loop = .running ∧ e.queue = order :: rest ∧
      ((e.dispatch = { e with
          queue := rest, jobs := e.jobs.insert e.nextJob ⟨order, .fresh⟩, nextJob := e.nextJob + 1 } ∧
        ∀ period handle, order.cadence = .every period handle → e.flags.isCancelled handle = false) ∨
      ∃ period handle, order.cadence = .every period handle ∧ e.flags.isCancelled handle = true ∧
        e.dispatch = { e with
          queue := rest, subscriptions := e.subscriptions.erase handle, nextJob := e.nextJob + 1 }) := by
  unfold dispatch
  split
  · rename_i order rest hl hq
    refine Or.inr ⟨order, rest, hl, hq, ?_⟩
    dsimp only
    split
    · rename_i hc
      exact Or.inl ⟨rfl, fun period handle h => by rw [hc] at h; exact absurd h (by simp)⟩
    · rename_i period handle hc
      split_ifs with hcancelled
      · exact Or.inr ⟨period, handle, hc, hcancelled, rfl⟩
      · refine Or.inl ⟨rfl, fun period' handle' h => ?_⟩
        obtain ⟨rfl, rfl⟩ := Cadence.every.inj (hc.symm.trans h)
        simpa using hcancelled
  · exact Or.inl rfl

theorem Onward.dispatch (e : Engine) : Onward e e.dispatch := by
  rcases dispatch_cases e with h | ⟨order, rest, -, hq, ⟨h, -⟩ | ⟨period, handle, -, hcancelled, h⟩⟩
  · rw [h]
    exact Onward.refl e
  · rw [h]
    refine Onward.of_eq rfl rfl fun o ho => ?_
    rcases ho with ho | ⟨name, job, hj, rfl⟩
    · exact Or.inl (by rw [hq]; exact List.mem_cons_of_mem order ho)
    · rw [Keyed.find?_insert] at hj
      split_ifs at hj
      · obtain rfl := Option.some.inj hj
        exact Or.inl (by rw [hq]; exact List.mem_cons_self)
      · exact Or.inr ⟨name, job, hj, rfl⟩
  · rw [h]
    refine (Onward.erase e handle hcancelled).trans (Onward.of_eq rfl rfl fun o ho => ?_)
    exact ho.imp_left fun ho => by rw [hq]; exact List.mem_cons_of_mem order ho

theorem Onward.endLoop (e : Engine) : Onward e e.endLoop := by
  unfold Engine.endLoop
  split_ifs
  · exact (Onward.of_eq rfl rfl fun o ho => ho.elim (by simp) Or.inr :
      Onward e { e with loop := .ended, queue := [] }).trans (Onward.cancelAll _)
  · exact Onward.refl e

theorem Onward.sense (e : Engine) (name : Nat) (events : List (Nat × Cycle.Event)) (players : List Player)
    (fleet : Fleet) : Onward e (e.sense name events players fleet) := by
  unfold Engine.sense
  split
  · exact (Onward.setPhase e name _).trans (Onward.of_eq rfl rfl fun _ ho => ho)
  · exact Onward.of_eq rfl rfl fun _ ho => ho

theorem move_onward (e : Engine) (m : Move) : Onward e (e.move m).1 := by
  cases m with
  | process =>
    simp only [move, process]
    split_ifs
    · exact Onward.of_eq rfl rfl fun _ ho => ho
    · exact Onward.refl e
  | shutdown => exact (Onward.of_eq rfl rfl fun _ ho => ho : Onward e { e with stopping := true }).trans (.cancelAll _)
  | cancel handle => exact Onward.cancel e handle
  | dispatch => exact Onward.dispatch e
  | endLoop => exact Onward.endLoop e
  | advance name => exact advance_onward e name
  | sense name events players fleet => exact Onward.sense e name events players fleet
  | pool pool => exact Onward.of_eq rfl rfl fun _ ho => ho
  | wait span => exact Onward.of_eq rfl rfl fun _ ho => ho

end Engine

end SensorNode
