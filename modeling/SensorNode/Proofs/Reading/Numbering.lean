/-
The names of jobs. Orders leave the queue in the order in which they were placed, and each uses up one name, whether a job
is made of it or not. So the number of an order among all that have been placed is the name of its job, and what waits in
the queue of an open engine are the orders whose numbers have not been used (`Numbered`).
-/
import SensorNode.Proofs.Reading.Single

namespace SensorNode

namespace Engine

variable {e : Engine} {orders : List Order}

/-- the orders that an operation places; an engine that is closed takes none, and a subscription may be refused -/
def placed (e : Engine) : Op → List Order
  | .sendOnce recipient metrics => if e.isOpen then [⟨metrics, recipient, .once⟩] else []
  | .subscribe recipient period metrics =>
    match e.subscribe recipient period metrics with
    | .ok (handle, _) => [⟨metrics, recipient, .every period handle⟩]
    | .error _ => []
  | .move _ => []

/-- The orders that have been placed are named in their order: those that have a name have left the queue, and a job has
the order of its name. -/
structure Numbered (orders : List Order) (e : Engine) : Prop where
  named : e.nextJob ≤ orders.length
  queue : e.isOpen = true → e.queue = orders.drop e.nextJob
  jobs : ∀ name job, e.jobs.find? name = some job → orders[name]? = some job.order

theorem new_numbered (timeout : Duration) (policy : Reduction) : Numbered [] (new timeout policy) where
  named := le_rfl
  queue _ := rfl
  jobs _ _ hj := by cases hj

/-- the order that has waited longest is that of the next name -/
theorem Numbered.head (h : Numbered orders e) (hopen : e.isOpen = true) {order : Order} {rest : List Order}
    (hq : e.queue = order :: rest) : orders[e.nextJob]? = some order ∧ rest = orders.drop (e.nextJob + 1) := by
  have hdrop : orders.drop e.nextJob = order :: rest := (h.queue hopen).symm.trans hq
  constructor
  · rw [← List.head?_drop, hdrop]
    rfl
  · rw [← List.tail_drop, hdrop]
    rfl

/-- an order that leaves the queue gets the next name, whether a job is made of it or not -/
theorem Numbered.dispatch (h : Numbered orders e) : Numbered orders e.dispatch := by
  rcases dispatch_cases e with hd | ⟨order, rest, hrunning, hq, hd⟩
  · rw [hd]
    exact h
  obtain ⟨hget, hrest⟩ := h.head (by simp [isOpen, hrunning]) hq
  have hnamed : e.nextJob + 1 ≤ orders.length := (List.getElem?_eq_some_iff.1 hget).1
  rcases hd with ⟨hd, -⟩ | ⟨period, handle, -, -, hd⟩ <;> rw [hd]
  · refine ⟨hnamed, fun _ => hrest, fun name job hj => ?_⟩
    rw [Keyed.find?_insert] at hj
    split_ifs at hj with hname
    · rw [hname, hget, ← Option.some.inj hj]
    · exact h.jobs name job hj
  · exact ⟨hnamed, fun _ => hrest, h.jobs⟩

/-- orders are placed behind the others -/
theorem Numbered.place (h : Numbered orders e) {e' : Engine} {new : List Order} (hjobs : e'.jobs = e.jobs)
    (hnext : e'.nextJob = e.nextJob) (hopen : e'.isOpen = e.isOpen) (hqueue : e'.queue = e.queue ++ new) :
    Numbered (orders ++ new) e' := by
  refine ⟨hnext ▸ h.named.trans (by simp), fun ho => ?_, fun name job hj => ?_⟩
  · rw [hqueue, hnext, h.queue (hopen.symm.trans ho), List.drop_append_of_le_length h.named]
  · have hold := h.jobs name job (hjobs ▸ hj)
    rw [List.getElem?_append_left (List.getElem?_eq_some_iff.1 hold).1]
    exact hold

/-- no job gets another order -/
theorem Numbered.of_jobs (h : Numbered orders e) {e' : Engine} (hnext : e'.nextJob = e.nextJob)
    (hqueue : e'.isOpen = true → e.isOpen = true ∧ e'.queue = e.queue)
    (hjobs : ∀ name job, e'.jobs.find? name = some job → ∃ old, e.jobs.find? name = some old ∧ job.order = old.order) :
    Numbered orders e' := by
  refine ⟨hnext ▸ h.named, fun ho => ?_, fun name job hj => ?_⟩
  · obtain ⟨hopen, hsame⟩ := hqueue ho
    rw [hsame, hnext]
    exact h.queue hopen
  · obtain ⟨old, hold, horder⟩ := hjobs name job hj
    rw [horder]
    exact h.jobs name old hold

theorem Numbered.move (h : Numbered orders e) (m : Move) : Numbered orders (e.move m).1 := by
  cases m with
  | dispatch => exact h.dispatch
  | process =>
    refine h.of_jobs (move_jobs e .process rfl).2.1 (fun ho => ?_) fun name job hj => ⟨job, ?_, rfl⟩
    · simp only [Engine.move, process] at ho ⊢
      split_ifs with hl
      · exact ⟨by simp [isOpen, hl], rfl⟩
      · rw [if_neg hl] at ho
        exact ⟨ho, rfl⟩
    · rwa [(move_jobs e .process rfl).1] at hj
  | endLoop =>
    simp only [Engine.move, endLoop]
    split_ifs
    · exact ⟨h.named, fun ho => absurd ho (by simp [isOpen, cancelAll]), h.jobs⟩
    · exact h
  | advance name =>
    simp only [Engine.move]
    cases hj : e.jobs.find? name with
    | none =>
      rw [advance_of_none e name hj]
      exact h
    | some job =>
      obtain ⟨errors, cycles, ho⟩ := advance_outcome e name job hj
      refine h.of_jobs ho.nextJob (fun hopen => ⟨?_, ho.queue⟩) fun name' job' hj' => ho.order hj'
      rw [isOpen, ho.loop.1] at hopen
      exact hopen
  | sense name events players fleet =>
    refine h.of_jobs (sense_nextJob ..) (fun hopen => ?_) fun name' job hj => ?_
    · simp only [Engine.move, sense] at hopen ⊢
      split at hopen <;> exact ⟨hopen, rfl⟩
    · simp only [Engine.move, sense_find?] at hj
      split_ifs at hj with hname
      · obtain ⟨old, hold, rfl⟩ := Option.map_eq_some_iff.1 hj
        exact ⟨old, hname ▸ hold, old.sense_order _ _⟩
      · exact ⟨job, hj, rfl⟩
  | _ => exact ⟨h.named, h.queue, h.jobs⟩

theorem step_numbered (h : Numbered orders e) (op : Op) : Numbered (orders ++ e.placed op) (e.step op).1 := by
  cases op with
  | sendOnce recipient metrics =>
    simp only [step, sendOnce, placed]
    split_ifs
    · exact h.place rfl rfl rfl rfl
    · exact h.place rfl rfl rfl (List.append_nil _).symm
  | subscribe recipient period metrics =>
    simp only [step, placed]
    rcases subscribe_cases e recipient period metrics with ⟨error, he, -⟩ | ⟨-, -, he⟩ <;> rw [he]
    · exact h.place rfl rfl rfl (List.append_nil _).symm
    · exact h.place rfl rfl rfl rfl
  | move m => exact (List.append_nil orders).symm ▸ h.move m

/-- an order that is to be carried out once gets no name before it has a job, which has not run yet -/
theorem Numbered.step_unborn (h : Numbered orders e) (op : Op) {n : Nat} {order : Order}
    (hplaced : orders[n]? = some order) (hc : order.cadence = .once) (hle : e.nextJob ≤ n) :
    (e.step op).1.nextJob ≤ n ∨ (e.step op).1.jobs.find? n = some ⟨order, .fresh⟩ := by
  by_cases hop : op = .move .dispatch
  · subst hop
    simp only [step, Engine.move]
    rcases dispatch_cases e with hd | ⟨first, rest, hrunning, hq, hd⟩
    · exact Or.inl (by rw [hd]; exact hle)
    rcases Nat.lt_or_eq_of_le hle with hlt | rfl
    · exact Or.inl (by rcases hd with ⟨hd, -⟩ | ⟨period, handle, -, -, hd⟩ <;> rw [hd] <;> exact hlt)
    · obtain ⟨hfirst, -⟩ := h.head (by simp [isOpen, hrunning]) hq
      obtain rfl := Option.some.inj (hfirst.symm.trans hplaced)
      rcases hd with ⟨hd, -⟩ | ⟨period, handle, hevery, -, -⟩
      · rw [hd, Keyed.find?_insert, if_pos rfl]
        exact Or.inr rfl
      · exact absurd (hc.symm.trans hevery) (by simp)
  · exact Or.inl ((step_nextJob e hop).le.trans hle)

end Engine

end SensorNode
