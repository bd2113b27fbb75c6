/-
Orders that are carried out once. `waiting` counts how often an order waits in the queue or as a job that has not run
yet. A cycle that starts for the order takes one off, and no other move of the engine changes it (`move_starts`), except
that the queue is dropped when the drive loop ends (`move_starts_le`): each order that waits is carried out at most once,
and none is lost while the drive loop runs.
-/
import SensorNode.Proofs.Reading.Jobs

namespace SensorNode

namespace Engine

variable {e : Engine}

/-- the job is one of this order and has not run yet -/
def isNew (o : Order) (job : Job) : Bool := job.order = o && job.phase.isFresh

/-- how often the order waits to be carried out -/
def waiting (e : Engine) (o : Order) : Nat := e.queue.count o + e.jobs.values.countP (isNew o)

/-- a cycle starts for the order -/
def Entry.starts (o : Order) (x : Entry) : Bool := x.order = o && x.effect.isStart

/-- jobs of the order under names other than this one that have not run yet -/
def waitingBesides (e : Engine) (name : Nat) (o : Order) : Nat := (e.jobs.erase name).values.countP (isNew o)

theorem waiting_of_find? {name : Nat} {job : Job} (hj : e.jobs.find? name = some job) (o : Order) :
    e.waiting o = e.queue.count o + ((if isNew o job then 1 else 0) + e.waitingBesides name o) := by
  have hvalues := (Keyed.values_perm_of_find? _ name job hj).countP_eq (isNew o)
  rw [waiting, hvalues, List.countP_cons, waitingBesides]
  omega

theorem setPhase_waiting {name : Nat} {job : Job} (hj : e.jobs.find? name = some job) {phase : Job.Phase}
    (hphase : phase.isFresh = false) (o : Order) :
    (e.setPhase name phase).waiting o = e.queue.count o + e.waitingBesides name o := by
  have hjobs : (e.setPhase name phase).jobs = e.jobs.insert name { job with phase } := by
    simp only [setPhase, Keyed.modify, hj]
  have hvalues := (Keyed.values_insert_perm e.jobs name { job with phase }).countP_eq (isNew o)
  have hnew : isNew o { job with phase } = false := by simp [isNew, hphase]
  rw [waiting, hjobs, hvalues, List.countP_cons, hnew]
  rfl

/-- a job that has gone on does not wait any more -/
theorem Outcome.waiting {e' : Engine} {name : Nat} {job : Job} (h : Outcome e name job e')
    (hj : e.jobs.find? name = some job) (o : Order) :
    e'.waiting o = e.queue.count o + e.waitingBesides name o := by
  cases h with
  | stays begun =>
    rw [waiting_of_find? hj, if_neg (by simp [isNew, begun]), Nat.zero_add]
  | dies => rfl
  | ends =>
    unfold endJob
    split <;> rfl
  | goesOn phase begun => exact setPhase_waiting hj begun o

theorem startCycle_starts (e : Engine) (name : Nat) (order : Order) (next : Nat) :
    (e.startCycle name order next).2.countP Effect.isStart = 1 := by
  obtain ⟨rest, hrest, hnot⟩ := startCycle_effects e name order next
  have hnone : rest.countP Effect.isStart = 0 := List.countP_eq_zero.2 fun effect hm => by simp [hnot effect hm]
  rw [hrest, List.countP_cons, hnone]
  rfl

/-- an order that is carried out once starts its cycle in its job's first turn, and in no other -/
theorem entries_starts {name : Nat} {job : Job} (hj : e.jobs.find? name = some job) {o : Order}
    (ho : o.cadence = .once) : (e.entries name).countP (Entry.starts o) = if isNew o job then 1 else 0 := by
  rw [entries_of_find? hj, List.countP_map]
  split_ifs with hnew
  · obtain ⟨order, phase⟩ := job
    simp only [isNew, Bool.and_eq_true, decide_eq_true_eq] at hnew
    obtain ⟨rfl, hfresh⟩ := hnew
    obtain rfl : phase = .fresh := by cases phase <;> simp_all [Job.Phase.isFresh]
    have hadvance : e.advance name = e.startCycle name order 0 := by simp only [advance, hj, ho]
    have hstarts : (Entry.starts order ∘ fun effect => ⟨e.now, name, order, effect⟩) = Effect.isStart := by
      funext effect
      simp [Entry.starts]
    rw [hadvance, hstarts, startCycle_starts]
  · refine List.countP_eq_zero.2 fun effect hm hstarts => hnew ?_
    simp only [Function.comp_apply, Entry.starts, Bool.and_eq_true, decide_eq_true_eq] at hstarts
    obtain ⟨rfl, hstart⟩ := hstarts
    obtain ⟨-, ⟨-, hfresh⟩ | ⟨period, handle, due, hevery, -⟩⟩ := started_of_mem_advance hj hm hstart
    · simp [isNew, hfresh, Job.Phase.isFresh]
    · exact absurd (ho.symm.trans hevery) (by simp)

theorem advance_starts (name : Nat) {o : Order} (ho : o.cadence = .once) :
    (e.entries name).countP (Entry.starts o) + (e.advance name).1.waiting o = e.waiting o := by
  cases hj : e.jobs.find? name with
  | none =>
    rw [advance_of_none e name hj]
    simp [entries, hj]
  | some job =>
    obtain ⟨errors, cycles, h⟩ := advance_outcome e name job hj
    have hwaiting : (e.advance name).1.waiting o = e.queue.count o + e.waitingBesides name o := h.waiting hj o
    rw [hwaiting, waiting_of_find? hj, entries_starts hj ho]
    omega

/-- an order leaves the queue for a job that has not run yet; only subscriptions are dropped -/
theorem dispatch_waiting (hr : Regular e) {o : Order} (ho : o.cadence = .once) :
    e.dispatch.waiting o = e.waiting o := by
  rcases dispatch_cases e with hd | ⟨order, rest, -, hq, ⟨hd, -⟩ | ⟨period, handle, hevery, -, hd⟩⟩ <;> rw [hd]
  · have hvalues := (Keyed.values_insert_perm e.jobs e.nextJob ⟨order, .fresh⟩).countP_eq (isNew o)
    rw [List.countP_cons, Keyed.values_erase_of_find? _ _ hr.unused] at hvalues
    have hcount : (order :: rest).count o = rest.count o + if isNew o ⟨order, .fresh⟩ then 1 else 0 := by
      simp [List.count_cons, isNew, Job.Phase.isFresh]
    simp only [waiting, hvalues, hq, hcount]
    omega
  · have hne : order ≠ o := by
      rintro rfl
      exact absurd (ho.symm.trans hevery) (by simp)
    rw [waiting, waiting, hq, List.count_cons_of_ne hne]

theorem sense_waiting (e : Engine) (name : Nat) (events : List (Nat × Cycle.Event)) (players : List Player)
    (fleet : Fleet) (o : Order) : (e.sense name events players fleet).waiting o = e.waiting o := by
  unfold sense
  split
  · rename_i order h next hj
    calc waiting { e.setPhase name _ with fleet } o
        = e.queue.count o + e.waitingBesides name o := setPhase_waiting hj rfl o
      _ = e.waiting o := by
        rw [waiting_of_find? hj, if_neg (by simp [isNew, Job.Phase.isFresh]), Nat.zero_add]
  · rfl

/-- what is queued when the drive loop ends is dropped -/
theorem endLoop_waiting_le (e : Engine) (o : Order) : e.endLoop.waiting o ≤ e.waiting o := by
  unfold endLoop
  split_ifs
  · simp [waiting, cancelAll]
  · exact le_rfl

/-- Each time that an order waits, it is carried out once or goes on waiting, unless the drive loop ends. -/
theorem move_starts (hr : Regular e) {m : Move} (hm : m ≠ .endLoop) {o : Order} (ho : o.cadence = .once) :
    (e.move m).2.countP (Entry.starts o) + (e.move m).1.waiting o = e.waiting o := by
  cases m with
  | process => simp only [move, process]; split_ifs <;> simp [waiting]
  | dispatch => simpa [move] using dispatch_waiting hr ho
  | endLoop => exact absurd rfl hm
  | advance name => exact advance_starts name ho
  | sense name events players fleet => simp [move, sense_waiting]
  | _ => simp [move, waiting, shutdown, cancelAll, cancel]

/-- The cycles that start for an order, and the times that it still waits, are no more than the times that it waited. -/
theorem move_starts_le (hr : Regular e) (m : Move) {o : Order} (ho : o.cadence = .once) :
    (e.move m).2.countP (Entry.starts o) + (e.move m).1.waiting o ≤ e.waiting o := by
  by_cases hm : m = .endLoop
  · subst hm
    simpa [move] using endLoop_waiting_le e o
  · exact (move_starts hr hm ho).le

end Engine

end SensorNode
