/-
After a request is withdrawn. Its subscription, if it had one, starts no cycle any more. A reading that was ordered once
has no handle to be cancelled by, so a withdrawal does not reach it: what had been ordered and not begun is carried out
or goes on waiting, each order once, unless the drive loop ends and drops the queue. Nothing else is carried out for the
id until it comes in again (`withdrawn_starts`).
-/
import SensorNode.Proofs.Planning.Subscriptions
import SensorNode.Proofs.Reading.Once

namespace SensorNode

/-- the readings are for the ledger and for the requirements with this id -/
def Order.serves (o : Order) (id : String) : Bool :=
  match o.recipient with
  | .ledger id' _ => id' = id
  | .listener .. => false

namespace Planner

variable {p : Planner}

/-- requirements with this id may be taken -/
def Op.brings (id : String) : Op → Bool
  | .submit q => q.id = id
  | .storePending q => q.id = id
  | _ => false

/-! ## The id stays away -/

theorem enlistAll_find?_of_ne (rs : List ReadingsRequest) (id : String) (hne : ∀ r ∈ rs, r.id ≠ id) :
    (rs.foldl (fun p r => (p.enlist r).2) p).requests.find? id = p.requests.find? id := by
  induction rs generalizing p with
  | nil => rfl
  | cons r rs ih =>
    rw [List.foldl_cons, ih fun r' hm => hne r' (List.mem_cons_of_mem r hm), enlist_find?,
      if_neg (hne r List.mem_cons_self).symm]

theorem pending_ne (hs : Sound p) {id : String} (hnone : p.requests.find? id = none) :
    ∀ r ∈ p.requests.pending, r.id ≠ id := by
  rintro r hm rfl
  obtain ⟨id', hf⟩ := (Keyed.mem_values_iff _ r).1 (List.mem_filter.1 hm).1
  rw [← hs.keyed id' r hf, hnone] at hf
  exact absurd hf (by simp)

theorem step_absent (hs : Sound p) (op : Op) {id : String} (hop : op.brings id = false)
    (hnone : p.requests.find? id = none) : (p.step op).1.requests.find? id = none := by
  cases op with
  | submit q =>
    have hne : id ≠ q.id := fun h => by simp [Op.brings, h] at hop
    simp only [step, submit]
    split_ifs
    · rw [enlist_find?, if_neg (by exact hne), withdraw_find?, if_neg hne]
      exact hnone
    · rw [withdraw_find?, if_neg hne]
      exact hnone
  | withdraw id' =>
    simp only [step, withdraw_find?]
    split_ifs
    · rfl
    · exact hnone
  | storePending q =>
    have hne : id ≠ q.id := fun h => by simp [Op.brings, h] at hop
    simp only [step, storePending]
    split_ifs
    · exact (put_find? ..).trans ((if_neg (by exact hne)).trans hnone)
    · exact hnone
  | replayPending => exact (enlistAll_find?_of_ne _ id (pending_ne hs hnone)).trans hnone
  | cancelAll => exact (congrArg (·.find? id) (cancelRequests hs p.requests.values).2.1).trans hnone
  | clear =>
    simp only [step, clear, foldl_cancelRequest_with]
    rfl
  | assets assets => exact hnone
  | link link => exact hnone
  | sendOnce label hold metrics => exact hnone
  | reader m =>
    obtain ⟨posted, postings, h⟩ := step_reader p m
    rw [h]
    exact hnone

/-! ## Subscriptions -/

/-- no cycle of a subscription starts for an id that there is no request for -/
theorem step_starts_once (hs : Sound p) (op : Op) {id : String} (hnone : p.requests.find? id = none) :
    ∀ x ∈ (p.step op).2, x.order.serves id = true → x.effect.isStart = true → x.order.cadence = .once := by
  intro x hx hid hstart
  cases op with
  | reader m =>
    obtain ⟨-, hx⟩ := (Engine.mem_step_log hx : Engine.Op.move m = _ ∧ x ∈ p.engine.entries x.job)
    obtain ⟨job, hj, -, -, horder, heffect⟩ := Engine.mem_entries hx
    rw [horder] at hid ⊢
    obtain ⟨-, ⟨honce, -⟩ | ⟨period, handle, due, hevery, -, -, hlive⟩⟩ :=
      Engine.started_of_mem_advance hj heffect hstart
    · exact honce
    · -- a live subscription would be held by a request with this id
      have hfor : job.order.isFor handle = true := (job.order.isFor_iff handle).2 ⟨period, hevery⟩
      rcases hs.orders job.order (Or.inr ⟨x.job, job, hj, rfl⟩) handle hfor with ⟨r, hf, -, ho⟩ | hcancelled
      · rw [ho] at hid
        have hr : r.id = id := by simpa [Order.serves, ReadingsRequest.order] using hid
        rw [hr, hnone] at hf
        exact absurd hf (by simp)
      · exact absurd (hcancelled.symm.trans hlive) (by decide)
  | _ => exact absurd hx (by simp [step])

/-! ## Readings ordered once -/

/-- flags and table aside, the engine waits for the same -/
theorem waiting_eq {e e' : Engine} (hq : e'.queue = e.queue) (hj : e'.jobs = e.jobs) (o : Order) :
    e'.waiting o = e.waiting o := by
  rw [Engine.waiting, hq, hj, Engine.waiting]

theorem cancelRequests_waiting (rs : List ReadingsRequest) (o : Order) :
    (rs.foldl cancelRequest p).engine.waiting o = p.engine.waiting o := by
  induction rs generalizing p with
  | nil => rfl
  | cons r rs ih => exact ih.trans (waiting_eq rfl rfl o)

theorem withdraw_waiting (p : Planner) (id : String) (o : Order) :
    (p.withdraw id).2.engine.waiting o = p.engine.waiting o := by
  unfold withdraw
  split
  · exact waiting_eq rfl rfl o
  · rfl

/-- another order in the queue -/
theorem waiting_push {e e' : Engine} {o order : Order} (hne : order ≠ o) (hq : e'.queue = e.queue ++ [order])
    (hj : e'.jobs = e.jobs) : e'.waiting o = e.waiting o := by
  rw [Engine.waiting, hq, hj, Engine.waiting, List.count_append, List.count_singleton,
    if_neg (by simpa using hne), Nat.add_zero]

theorem sendOnce_waiting {recipient : Recipient} {metrics : List Metric} {o : Order}
    (hne : (⟨metrics, recipient, .once⟩ : Order) ≠ o) (e : Engine) :
    (e.sendOnce recipient metrics).waiting o = e.waiting o := by
  unfold Engine.sendOnce
  split_ifs
  · exact waiting_push hne rfl rfl
  · rfl

theorem enlist_waiting (p : Planner) {r : ReadingsRequest} {o : Order} (ho : o.cadence = .once)
    (hid : o.serves r.id = false) : (p.enlist r).2.engine.waiting o = p.engine.waiting o := by
  unfold enlist
  rcases activate_cases p r with h | h | ⟨handle, engine, he, h⟩ <;> rw [h]
  · refine sendOnce_waiting ?_ p.engine
    rintro rfl
    simp [Order.serves] at hid
  · obtain ⟨-, rfl⟩ := Engine.subscribe_ok he
    refine waiting_push ?_ rfl rfl
    rintro rfl
    exact absurd ho (by simp)

theorem enlistAll_waiting (rs : List ReadingsRequest) {o : Order} (ho : o.cadence = .once)
    (hid : ∀ r ∈ rs, o.serves r.id = false) :
    (rs.foldl (fun p r => (p.enlist r).2) p).engine.waiting o = p.engine.waiting o := by
  induction rs generalizing p with
  | nil => rfl
  | cons r rs ih =>
    rw [List.foldl_cons, ih fun r' hm => hid r' (List.mem_cons_of_mem r hm),
      enlist_waiting p ho (hid r List.mem_cons_self)]

theorem serves_iff (o : Order) (id : String) : o.serves id = true ↔ ∃ asset, o.recipient = .ledger id asset := by
  unfold Order.serves
  split
  · rename_i id' asset h
    simp [h]
  · rename_i h
    simp [h]

/-- an order serves one id -/
theorem serves_of_ne {o : Order} {id id' : String} (h : o.serves id = true) (hne : id' ≠ id) :
    o.serves id' = false := by
  obtain ⟨asset, ho⟩ := (serves_iff o id).1 h
  simp [Order.serves, ho, hne.symm]

/-- An operation that does not bring the id in orders nothing for it, and drops nothing unless it ends the drive loop. -/
theorem step_starts (hs : Sound p) (op : Op) {id : String} (hop : op.brings id = false)
    (hnone : p.requests.find? id = none) {o : Order} (hid : o.serves id = true) (ho : o.cadence = .once) :
    (p.step op).2.countP (Engine.Entry.starts o) + (p.step op).1.engine.waiting o ≤ p.engine.waiting o ∧
      (op ≠ .reader .endLoop →
        (p.step op).2.countP (Engine.Entry.starts o) + (p.step op).1.engine.waiting o = p.engine.waiting o) := by
  have quiet : ∀ {p' : Planner}, p'.engine.waiting o = p.engine.waiting o →
      ([] : List Engine.Entry).countP (Engine.Entry.starts o) + p'.engine.waiting o ≤ p.engine.waiting o ∧
        (op ≠ .reader .endLoop →
          ([] : List Engine.Entry).countP (Engine.Entry.starts o) + p'.engine.waiting o = p.engine.waiting o) := by
    intro p' h
    rw [List.countP_nil, Nat.zero_add, h]
    exact ⟨le_rfl, fun _ => rfl⟩
  cases op with
  | submit q =>
    have hne : q.id ≠ id := fun h => by simp [Op.brings, h] at hop
    refine quiet ?_
    simp only [step, submit]
    split_ifs
    · exact (enlist_waiting _ ho (serves_of_ne hid (by exact hne))).trans (withdraw_waiting p q.id o)
    · exact withdraw_waiting p q.id o
  | withdraw id' => exact quiet (withdraw_waiting p id' o)
  | storePending q =>
    refine quiet ?_
    simp only [step, storePending]
    split_ifs <;> rfl
  | replayPending =>
    exact quiet (enlistAll_waiting _ ho fun r hm => serves_of_ne hid (pending_ne hs hnone r hm))
  | cancelAll => exact quiet (cancelRequests_waiting _ o)
  | clear => exact quiet (cancelRequests_waiting _ o)
  | assets assets => exact quiet rfl
  | link link => exact quiet rfl
  | sendOnce label hold metrics =>
    refine quiet (sendOnce_waiting ?_ p.engine)
    rintro rfl
    simp [Order.serves] at hid
  | reader m =>
    obtain ⟨posted, postings, h⟩ := step_reader p m
    rw [h]
    exact ⟨Engine.move_starts_le hs.regular m ho, fun hm => Engine.move_starts hs.regular (by simpa using hm) ho⟩

/-! ## Runs -/

/-- nothing is ordered for an id that does not come in, and what waits for it is lost only when the drive loop ends -/
theorem run_starts (hs : Sound p) (ops : List Op) {id : String} (hops : ∀ op ∈ ops, op.brings id = false)
    (hnone : p.requests.find? id = none) {o : Order} (hid : o.serves id = true) (ho : o.cadence = .once) :
    (p.log ops).countP (Engine.Entry.starts o) + (p.run ops).engine.waiting o ≤ p.engine.waiting o ∧
      (.reader .endLoop ∉ ops →
        (p.log ops).countP (Engine.Entry.starts o) + (p.run ops).engine.waiting o = p.engine.waiting o) := by
  induction ops generalizing p with
  | nil => simp [log, run]
  | cons op ops ih =>
    have hop := hops op List.mem_cons_self
    obtain ⟨hle, heq⟩ := step_starts hs op hop hnone hid ho
    obtain ⟨hrestle, hrest⟩ := ih (step_sound hs op) (fun op' hm => hops op' (List.mem_cons_of_mem op hm))
      (step_absent hs op hop hnone)
    rw [log_cons, List.countP_append, run_cons]
    refine ⟨by omega, fun hgoes => ?_⟩
    have heq := heq fun h => hgoes (h ▸ List.mem_cons_self)
    have hrest := hrest fun h => hgoes (List.mem_cons_of_mem op h)
    omega

theorem run_starts_once (hs : Sound p) (ops : List Op) {id : String} (hops : ∀ op ∈ ops, op.brings id = false)
    (hnone : p.requests.find? id = none) :
    ∀ x ∈ p.log ops, x.order.serves id = true → x.effect.isStart = true → x.order.cadence = .once := by
  induction ops generalizing p with
  | nil => exact fun x hx => absurd hx (by simp [log])
  | cons op ops ih =>
    intro x hx
    rw [log_cons] at hx
    rcases List.mem_append.1 hx with hx | hx
    · exact step_starts_once hs op hnone x hx
    · exact ih (step_sound hs op) (fun op' hm => hops op' (List.mem_cons_of_mem op hm))
        (step_absent hs op (hops op List.mem_cons_self) hnone) x hx

/-- **After a withdrawal.** Until the id comes in again, no cycle of a subscription starts for it. The cycles that do
start are those of readings that had been ordered once, before the withdrawal, and not begun: together with those that
still wait, they are no more than waited then. As long as the drive loop does not end they are as many, so that none of
those orders is lost either. -/
theorem withdrawn_starts (deviceId : String) (timeout : Duration) (policy : Reduction) (before after : List Op)
    (id : String) (hafter : ∀ op ∈ after, op.brings id = false) :
    let p := (new deviceId timeout policy).run before
    let w := (p.withdraw id).2
    (∀ x ∈ w.log after, x.order.serves id = true → x.effect.isStart = true → x.order.cadence = .once) ∧
      ∀ o : Order, o.serves id = true → o.cadence = .once →
        (w.log after).countP (Engine.Entry.starts o) + (w.run after).engine.waiting o ≤ p.engine.waiting o ∧
          (.reader .endLoop ∉ after →
            (w.log after).countP (Engine.Entry.starts o) + (w.run after).engine.waiting o = p.engine.waiting o) := by
  intro p w
  have hs : Sound w := withdraw_sound (run_sound (new_sound deviceId timeout policy) before) id
  have hnone : w.requests.find? id = none := by rw [withdraw_find?, if_pos rfl]
  refine ⟨run_starts_once hs after hafter hnone, fun o hid ho => ?_⟩
  rw [← withdraw_waiting p id o]
  exact run_starts hs after hafter hnone hid ho

/-- there is a sensor, and one reading is asked for before the engine is started -/
def orderedOnce : List Op :=
  let probe : Sensor := ⟨0, "probe", [.humidity]⟩
  [.reader (.sense 0 [] [] [.scripted probe [] false false true]), .reader (.pool (.ofSensors [probe])),
    .assets (Keyed.empty.insert "dock" ⟨"dock", "Dock", none, ⟨0, 0⟩⟩), .submit ⟨"air", "dock", [.humidity], 0⟩]

/-- the engine is started and takes the order -/
def carriedOut : List Op := [.reader .process, .reader .dispatch, .reader (.advance 0)]

/-- A cycle starts for requirements that have been withdrawn. -/
theorem withdrawn_once_starts :
    let w := (((new "node" ⟨500⟩ .mean).run orderedOnce).withdraw "air").2
    (((new "node" ⟨500⟩ .mean).run orderedOnce).withdraw "air").1 = true ∧
      (∀ op ∈ carriedOut, op.brings "air" = false) ∧
      ∃ x ∈ w.log carriedOut, x.order.serves "air" = true ∧
        x.effect = .started x.order [⟨0, "probe", [.humidity]⟩] := by
  intro w
  refine ⟨rfl, by decide, ?_⟩
  exact ⟨_, List.mem_cons_self, rfl, rfl⟩

theorem withdrawn_starts_carried_out :
    let p := (new "node" ⟨500⟩ .mean).run orderedOnce
    let w := (p.withdraw "air").2
    let o : Order := ⟨[.humidity], .ledger "air" "dock", .once⟩
    ((∀ op ∈ carriedOut, op.brings "air" = false) ∧ .reader .endLoop ∉ carriedOut) ∧ p.engine.waiting o = 1 ∧
      (w.run carriedOut).engine.waiting o = 0 ∧ (w.log carriedOut).countP (Engine.Entry.starts o) = 1 := by
  intro p w o
  have hafter : ∀ op ∈ carriedOut, op.brings "air" = false := by decide
  have hgoes : .reader .endLoop ∉ carriedOut := by simp [carriedOut]
  have hwaiting : p.engine.waiting o = 1 := by decide
  have hleft : (w.run carriedOut).engine.waiting o = 0 := by decide
  have heq : (w.log carriedOut).countP (Engine.Entry.starts o) + (w.run carriedOut).engine.waiting o =
      p.engine.waiting o := ((withdrawn_starts "node" ⟨500⟩ .mean orderedOnce carriedOut "air" hafter).2 o rfl rfl).2 hgoes
  exact ⟨⟨hafter, hgoes⟩, hwaiting, hleft, by omega⟩

end Planner

end SensorNode
