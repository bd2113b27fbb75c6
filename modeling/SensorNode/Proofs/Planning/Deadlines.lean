/-
First deadlines. The first turn of a subscription's job reckons its first tick, and where that lies beyond the clock the
job dies and leaves its handle on the table. A handle on the table is that of a waiting order or of a job exactly if no
first tick of it lay beyond the clock (`run_backed_iff`); the planner, whose doings are runs of its engine
(`run_engine`), gets its live subscriptions carried out under the same condition, which holds as long as the clock
has a period left (`live_subscription_carried_out`).
-/
import SensorNode.Proofs.Planning.Placement
import SensorNode.Proofs.Reading.Cancellation
import SensorNode.Proofs.Reading.Single

namespace SensorNode

namespace Engine

variable {e e' e'' : Engine} {k : CancelHandle}

/-! ## Handles without an order -/

theorem ticksInTime_append (e : Engine) (k : CancelHandle) (ops ops' : List Op) :
    e.ticksInTime k (ops ++ ops') = (e.ticksInTime k ops && (e.run ops).ticksInTime k ops') := by
  induction ops generalizing e with
  | nil => rfl
  | cons op ops ih =>
    rw [List.cons_append, ticksInTime, ticksInTime, ih, Bool.and_assoc]
    rfl

/-- the handle has been issued, and no order has it any more -/
structure Forgotten (k : CancelHandle) (e : Engine) : Prop where
  issued : k.flag < e.flags.issued
  unheld : ∀ o, e.Holds o → o.isFor k = false

/-- orders that come up get handles of their own -/
theorem Forgotten.step (h : Forgotten k e) (op : Op) : Forgotten k (e.step op).1 := by
  have of_job : ∀ {name job}, (e.step op).1.jobs.find? name = some job → job.order.isFor k = false := by
    intro name job hj
    rcases perform_order e (.base op) hj with ⟨old, hold, horder⟩ | ⟨-, rest, hfront, -⟩
    · rw [horder]
      exact h.unheld old.order (Or.inr ⟨name, old, hold, rfl⟩)
    · exact h.unheld job.order (Or.inl (by simp [hfront]))
  rcases perform_queue e (.base op) with ⟨hqueue, hissued⟩ | ⟨new, hqueue, -, hissued, hnew⟩
  · refine ⟨hissued.symm ▸ h.issued, fun o ho => ?_⟩
    rcases ho with ho | ⟨name, job, hj, rfl⟩
    · exact h.unheld o (Or.inl (hqueue.subset ho))
    · exact of_job hj
  · refine ⟨lt_of_lt_of_le h.issued hissued, fun o ho => ?_⟩
    rcases ho with ho | ⟨name, job, hj, rfl⟩
    · rw [show (e.step op).1.queue = e.queue ++ [new] from hqueue] at ho
      rcases List.mem_append.1 ho with ho | ho
      · exact h.unheld o (Or.inl ho)
      · obtain rfl := List.mem_singleton.1 ho
        refine Bool.eq_false_iff.2 fun hk => ?_
        exact absurd h.issued (hnew k hk).1.not_lt
    · exact of_job hj

theorem Forgotten.run (h : Forgotten k e) (ops : List Op) : Forgotten k (e.run ops) := by
  induction ops generalizing e with
  | nil => exact h
  | cons op ops ih => exact ih (h.step op)

/-! ## Jobs that die -/

/-- the first turn of a job of the subscription whose first tick lies beyond the clock -/
structure Late (e : Engine) (k : CancelHandle) (op : Op) (name : Nat) (order : Order) (period : Duration) : Prop where
  turn : op = .move (.advance name)
  fresh : e.jobs.find? name = some ⟨order, .fresh⟩
  cadence : order.cadence = .every period k
  beyond : horizon ≤ e.now + period.millis

theorem late_iff (e : Engine) (k : CancelHandle) (op : Op) :
    e.firstTickInTime k op = false ↔ ∃ name order period, e.Late k op name order period := by
  constructor
  · intro h
    unfold firstTickInTime at h
    split at h
    · rename_i name
      split at h
      · rename_i metrics recipient period handle hj
        obtain ⟨hhandle, hbeyond⟩ : handle = k ∧ horizon ≤ e.now + period.millis := by simpa using h
        exact ⟨name, _, period, rfl, hj, by rw [hhandle], hbeyond⟩
      · cases h
    · cases h
  · rintro ⟨name, ⟨metrics, recipient, cadence⟩, period, rfl, hj, hc, hbeyond⟩
    obtain rfl : cadence = .every period k := hc
    simp only [firstTickInTime, hj]
    simpa using hbeyond

/-- such a turn is the last of its job; its handle stays where it is -/
theorem Late.step {op : Op} {name : Nat} {order : Order} {period : Duration} (h : e.Late k op name order period) :
    (e.step op).1 = { e with jobs := e.jobs.erase name } := by
  obtain ⟨rfl, hj, hc, hbeyond⟩ := h
  simp only [Engine.step, move, advance, hj, hc, if_pos hbeyond]

/-- it was the only order with its handle -/
theorem Late.forgotten (hr : Regular e) (hs : Single e) {op : Op} {name : Nat} {order : Order} {period : Duration}
    (h : e.Late k op name order period) : Forgotten k (e.step op).1 := by
  have hk : order.isFor k = true := (order.isFor_iff k).2 ⟨period, h.cadence⟩
  have hsole : Sole k name e := hs.sole hr h.fresh hk
  rw [h.step]
  refine ⟨hsole.issued, fun o ho => ?_⟩
  rcases ho with ho | ⟨name', job, hj, rfl⟩
  · exact hsole.unqueued o ho
  · rw [Keyed.find?_erase] at hj
    split_ifs at hj with hname
    refine Bool.eq_false_iff.2 fun hk' => ?_
    exact hname (hsole.only name' job hj hk')

theorem step_single (hs : Single e) (op : Op) : Single (e.step op).1 := perform_single hs (.base op)

theorem run_single (hs : Single e) (ops : List Op) : Single (e.run ops) := by
  induction ops generalizing e with
  | nil => exact hs
  | cons op ops ih => exact ih (step_single hs op)

theorem forgotten_of_late (hr : Regular e) (hs : Single e) (ops : List Op) (h : e.ticksInTime k ops = false) :
    Forgotten k (e.run ops) := by
  induction ops generalizing e with
  | nil => cases h
  | cons op ops ih =>
    cases hop : e.firstTickInTime k op with
    | false =>
      obtain ⟨name, order, period, hlate⟩ := (late_iff e k op).1 hop
      exact (hlate.forgotten hr hs).run ops
    | true =>
      rw [ticksInTime, hop, Bool.true_and] at h
      exact ih (step_regular hr op) (step_single hs op) h

/-- A handle on the table is that of a waiting order or of a job exactly if its first tick, should it have come to that,
lay on the clock. -/
theorem run_backed_iff (hr : Regular e) (hs : Single e) (hb : Backed k e) (ops : List Op)
    (hk : k ∈ (e.run ops).subscriptions) :
    (∃ o, (e.run ops).Holds o ∧ o.isFor k = true) ↔ e.ticksInTime k ops = true := by
  constructor
  · rintro ⟨o, ho, hfor⟩
    by_contra hlate
    have hunheld := (forgotten_of_late hr hs ops (by simpa using hlate)).unheld o ho
    exact absurd (hfor.symm.trans hunheld) (by decide)
  · intro hin
    exact run_backed hr ops hin hb hk

/-! ## Placing and cancelling orders -/

/-- the operation places orders or cancels a subscription, and no time passes over it -/
def Op.books : Op → Bool
  | .move (.cancel _) => true
  | .move _ => false
  | _ => true

/-- one state comes of the other by placing and cancelling orders -/
def Booked (e e' : Engine) : Prop := ∃ ops : List Op, (∀ op ∈ ops, op.books = true) ∧ e' = e.run ops

theorem Booked.refl (e : Engine) : Booked e e := ⟨[], by simp, rfl⟩

theorem Booked.trans (h : Booked e e') (h' : Booked e' e'') : Booked e e'' := by
  obtain ⟨ops, hbooks, rfl⟩ := h
  obtain ⟨ops', hbooks', rfl⟩ := h'
  refine ⟨ops ++ ops', fun op hop => ?_, (run_append e ops ops').symm⟩
  rcases List.mem_append.1 hop with hop | hop
  · exact hbooks op hop
  · exact hbooks' op hop

theorem Booked.of_step (e : Engine) (op : Op) (h : op.books = true) : Booked e (e.step op).1 :=
  ⟨[op], by simpa using h, rfl⟩

/-- no job takes a turn meanwhile -/
theorem ticksInTime_of_books {ops : List Op} (h : ∀ op ∈ ops, op.books = true) : e.ticksInTime k ops = true := by
  induction ops generalizing e with
  | nil => rfl
  | cons op ops ih =>
    have hop : e.firstTickInTime k op = true := by
      have hbooks := h op List.mem_cons_self
      unfold firstTickInTime
      split
      · cases hbooks
      · rfl
    rw [ticksInTime, hop, Bool.true_and]
    exact ih fun op' hop' => h op' (List.mem_cons_of_mem op hop')

theorem step_now_le (e : Engine) (op : Op) : e.now ≤ (e.step op).1.now := by
  rcases (step_settings e op).2.2.1 with hsame | ⟨span, rfl⟩
  · exact hsame.ge
  · exact Nat.le_add_right e.now span.millis

theorem run_now_le (e : Engine) (ops : List Op) : e.now ≤ (e.run ops).now := by
  induction ops generalizing e with
  | nil => exact le_rfl
  | cons op ops ih => exact (step_now_le e op).trans (ih (e.step op).1)

theorem Booked.issued_le (h : Booked e e') : e.flags.issued ≤ e'.flags.issued := by
  obtain ⟨ops, -, rfl⟩ := h
  exact run_issued_le e ops

end Engine

namespace Planner

variable {p : Planner} {r : ReadingsRequest} {id : String} {k : CancelHandle}

/-! ## What the planner does is a run of its engine -/

theorem activate_booked (p : Planner) (r : ReadingsRequest) : p.engine.Booked (p.activate r).2.engine := by
  rcases activate_cases p r with h | h | ⟨handle, engine, he, h⟩ <;> rw [h]
  · exact .of_step p.engine (.sendOnce (.ledger r.id r.assetId) r.metrics) rfl
  · exact .refl p.engine
  · have hstep := Engine.Booked.of_step p.engine
      (.subscribe (.ledger r.id r.assetId) (.ofSeconds r.period.toNat) r.metrics) rfl
    rw [Engine.step, he] at hstep
    exact hstep

theorem enlistAll_booked (p : Planner) (rs : List ReadingsRequest) :
    p.engine.Booked (rs.foldl (fun p r => (p.enlist r).2) p).engine := by
  induction rs generalizing p with
  | nil => exact .refl p.engine
  | cons r rs ih => exact (activate_booked p r).trans (ih (p.enlist r).2)

theorem cancelRequest_booked (p : Planner) (r : ReadingsRequest) : p.engine.Booked (p.cancelRequest r).engine := by
  rcases cancelRequest_cases p r with ⟨-, h⟩ | ⟨handle, -, h⟩ <;> rw [h]
  · exact .refl p.engine
  · exact .of_step p.engine (.move (.cancel handle)) rfl

theorem cancelRequests_booked (p : Planner) (rs : List ReadingsRequest) :
    p.engine.Booked (rs.foldl cancelRequest p).engine := by
  induction rs generalizing p with
  | nil => exact .refl p.engine
  | cons r rs ih => exact (cancelRequest_booked p r).trans (ih (p.cancelRequest r))

theorem withdraw_booked (p : Planner) (id : String) : p.engine.Booked (p.withdraw id).2.engine := by
  unfold withdraw
  split
  · rename_i r hfind
    exact cancelRequest_booked { p with requests := p.requests.erase id } r
  · exact .refl p.engine

theorem submit_booked (p : Planner) (q : Requirements) : p.engine.Booked (p.submit q).2.engine := by
  apply (withdraw_booked p q.id).trans
  unfold submit
  dsimp only
  split_ifs
  · exact activate_booked (p.withdraw q.id).2 (.ofRequirements q)
  · exact .refl _

theorem step_booked {op : Op} (hop : ∀ m, op ≠ .reader m) : p.engine.Booked (p.step op).1.engine := by
  cases op with
  | submit q => exact submit_booked p q
  | withdraw id => exact withdraw_booked p id
  | storePending q => simp only [step, storePending]; split_ifs <;> exact .refl p.engine
  | replayPending => exact enlistAll_booked p _
  | cancelAll => exact cancelRequests_booked p _
  | clear => exact cancelRequests_booked { p with requests := ∅ } _
  | sendOnce label hold metrics => exact .of_step p.engine (.sendOnce (.listener label hold) metrics) rfl
  | reader m => exact absurd rfl (hop m)
  | _ => exact .refl p.engine

/-- the first tick of a job of the subscription lies on the clock, if the operation is the job's first turn -/
def firstTickInTime (p : Planner) (k : CancelHandle) : Op → Bool
  | .reader m => p.engine.firstTickInTime k (.move m)
  | _ => true

/-- the first ticks of the subscription lie on the clock in a run -/
def ticksInTime (p : Planner) (k : CancelHandle) : List Op → Bool
  | [] => true
  | op :: ops => p.firstTickInTime k op && (p.step op).1.ticksInTime k ops

theorem step_engine (p : Planner) (op : Op) :
    ∃ eops, (p.step op).1.engine = p.engine.run eops ∧ ∀ k, p.engine.ticksInTime k eops = p.firstTickInTime k op := by
  by_cases hop : ∀ m, op ≠ .reader m
  · obtain ⟨eops, hbooks, hrun⟩ := step_booked (p := p) hop
    refine ⟨eops, hrun, fun k => ?_⟩
    rw [Engine.ticksInTime_of_books hbooks]
    unfold firstTickInTime
    split
    · exact absurd rfl (hop _)
    · rfl
  · obtain ⟨m, rfl⟩ : ∃ m, op = .reader m := by simpa using hop
    obtain ⟨posted, postings, hstep⟩ := step_reader p m
    refine ⟨[.move m], by rw [hstep]; rfl, fun k => ?_⟩
    exact Bool.and_true _

theorem run_engine (p : Planner) (ops : List Op) :
    ∃ eops, (p.run ops).engine = p.engine.run eops ∧ ∀ k, p.engine.ticksInTime k eops = p.ticksInTime k ops := by
  induction ops generalizing p with
  | nil => exact ⟨[], rfl, fun k => rfl⟩
  | cons op ops ih =>
    obtain ⟨first, hfirst, hin⟩ := step_engine p op
    obtain ⟨rest, hrest, hin'⟩ := ih (p.step op).1
    refine ⟨first ++ rest, ?_, fun k => ?_⟩
    · rw [run_cons, hrest, hfirst, Engine.run_append]
    · rw [Engine.ticksInTime_append, hin, ← hfirst, hin', ticksInTime]

theorem run_single (hsingle : p.engine.Single) (ops : List Op) : (p.run ops).engine.Single := by
  obtain ⟨eops, hrun, -⟩ := run_engine p ops
  rw [hrun]
  exact Engine.run_single hsingle eops

/-! ## Requests keep their handles -/

/-- a request that is ordered gets the next handle, if it gets one -/
theorem activate_handle (h : (p.activate r).1.subscription = .periodic k) : k.flag = p.engine.flags.issued := by
  rcases activate_cases p r with hr | hr | ⟨handle, engine, he, hr⟩ <;> rw [hr] at h
  · cases h
  · cases h
  · obtain rfl := Subscription.periodic.inj h
    rw [(Engine.subscribe_ok he).1]

theorem enlistAll_held (rs : List ReadingsRequest) (hk : k.flag < p.engine.flags.issued)
    (hfind : (rs.foldl (fun p r => (p.enlist r).2) p).requests.find? id = some r) (hr : r.subscription = .periodic k) :
    p.requests.find? id = some r := by
  induction rs generalizing p with
  | nil => exact hfind
  | cons r₀ rs ih =>
    have hissued : p.engine.flags.issued ≤ (p.enlist r₀).2.engine.flags.issued := (activate_booked p r₀).issued_le
    have hfirst := ih (p := (p.enlist r₀).2) (hk.trans_le hissued) hfind
    rw [enlist_find?] at hfirst
    split_ifs at hfirst
    · obtain rfl := Option.some.inj hfirst
      exact absurd hk (activate_handle hr).not_lt
    · exact hfirst

/-- a request with a handle that had been issued had it before -/
theorem step_held (op : Op) (hk : k.flag < p.engine.flags.issued)
    (hfind : (p.step op).1.requests.find? id = some r) (hr : r.subscription = .periodic k) :
    p.requests.find? id = some r := by
  cases op with
  | submit q =>
    rw [show (p.step (.submit q)).1 = (p.submit q).2 from rfl, submit_find?] at hfind
    split_ifs at hfind with hid hnear
    · obtain rfl := Option.some.inj hfind
      have hissued : p.engine.flags.issued ≤ (p.withdraw q.id).2.engine.flags.issued := (withdraw_booked p q.id).issued_le
      exact absurd (hk.trans_le hissued) (activate_handle hr).not_lt
    · exact hfind
  | withdraw id' =>
    rw [show (p.step (.withdraw id')).1 = (p.withdraw id').2 from rfl, withdraw_find?] at hfind
    split_ifs at hfind
    exact hfind
  | storePending q =>
    simp only [step, storePending] at hfind
    split_ifs at hfind
    · rw [put_find?] at hfind
      split_ifs at hfind
      · obtain rfl := Option.some.inj hfind
        cases hr
      · exact hfind
    · exact hfind
  | replayPending => exact enlistAll_held _ hk hfind hr
  | cancelAll =>
    obtain ⟨flags, hcancelled⟩ := cancelRequests_eq p p.requests.values
    rw [show (p.step .cancelAll).1 = { p with engine := { p.engine with flags } } from hcancelled] at hfind
    exact hfind
  | clear =>
    obtain ⟨flags, hcancelled⟩ := cancelRequests_eq { p with requests := ∅ } p.requests.values
    rw [show (p.step .clear).1 = { p with requests := ∅, engine := { p.engine with flags } } from hcancelled] at hfind
    simp at hfind
  | reader m =>
    obtain ⟨posted, postings, hstep⟩ := step_reader p m
    rw [hstep] at hfind
    exact hfind
  | _ => exact hfind

/-! ## Subscriptions whose job has died -/

/-- no order has the handle any more, and whoever still holds it has asked for a period that the clock has not left -/
structure Overdue (k : CancelHandle) (p : Planner) : Prop where
  forgotten : p.engine.Forgotten k
  beyond : ∀ id r, p.requests.find? id = some r → r.subscription = .periodic k →
    p.engine.flags.isCancelled k = true ∨
      Engine.horizon ≤ p.engine.now + (Duration.ofSeconds r.period.toNat).millis

/-- an order with the handle of a request is the order of that request -/
theorem Sound.order_eq (hs : Sound p) (hfind : p.requests.find? id = some r) (hr : r.subscription = .periodic k)
    {o : Order} (ho : p.engine.Holds o) (hfor : o.isFor k = true) :
    o = r.order k ∨ p.engine.flags.isCancelled k = true := by
  rcases hs.orders o ho k hfor with ⟨r', hfind', hr', rfl⟩ | hcancelled
  · have hid : id = r'.id := hs.single id r r'.id r' k hfind hr hfind' hr'
    obtain rfl := Option.some.inj ((hid ▸ hfind).symm.trans hfind')
    exact Or.inl rfl
  · exact Or.inr hcancelled

theorem overdue_of_late (hs : Sound p) (hsingle : p.engine.Single) {op : Op} (h : p.firstTickInTime k op = false) :
    Overdue k (p.step op).1 := by
  obtain ⟨m, rfl⟩ : ∃ m, op = .reader m := by
    cases op with
    | reader m => exact ⟨m, rfl⟩
    | _ => cases h
  obtain ⟨name, order, period, hlate⟩ := (Engine.late_iff p.engine k (.move m)).1 h
  have hengine : (p.engine.move m).1 = { p.engine with jobs := p.engine.jobs.erase name } := hlate.step
  obtain ⟨posted, postings, hstep⟩ := step_reader p m
  rw [hstep]
  refine ⟨hlate.forgotten hs.regular hsingle, fun id r hfind hr => ?_⟩
  simp only [hengine]
  -- the order that is lost is that of the request
  have hfor : order.isFor k = true := (order.isFor_iff k).2 ⟨period, hlate.cadence⟩
  rcases hs.order_eq hfind hr (Or.inr ⟨name, _, hlate.fresh, rfl⟩) hfor with rfl | hcancelled
  · right
    have hperiod : Duration.ofSeconds r.period.toNat = period := (Cadence.every.inj hlate.cadence).1
    rw [hperiod]
    exact hlate.beyond
  · exact Or.inl hcancelled

theorem Overdue.step (h : Overdue k p) (op : Op) : Overdue k (p.step op).1 := by
  obtain ⟨eops, hrun, -⟩ := step_engine p op
  refine ⟨by rw [hrun]; exact h.forgotten.run eops, fun id r hfind hr => ?_⟩
  rw [hrun]
  rcases h.beyond id r (step_held op h.forgotten.issued hfind hr) hr with hcancelled | hbeyond
  · exact Or.inl (Engine.run_raised eops hcancelled)
  · exact Or.inr (hbeyond.trans (Nat.add_le_add_right (Engine.run_now_le p.engine eops) _))

theorem Overdue.run (h : Overdue k p) (ops : List Op) : Overdue k (p.run ops) := by
  induction ops generalizing p with
  | nil => exact h
  | cons op ops ih => exact ih (h.step op)

theorem run_overdue (hs : Sound p) (hsingle : p.engine.Single) (ops : List Op) (h : p.ticksInTime k ops = false) :
    Overdue k (p.run ops) := by
  induction ops generalizing p with
  | nil => cases h
  | cons op ops ih =>
    cases hop : p.firstTickInTime k op with
    | false => exact (overdue_of_late hs hsingle hop).run ops
    | true =>
      rw [ticksInTime, hop, Bool.true_and] at h
      exact ih (step_sound hs op) (run_single hsingle [op]) h

/-- **First deadlines.** After any run of the planner and its engine, each subscription that counts as active is that of
a request. Its order is queued or is that of a job exactly if no first turn of its job found the end of the period beyond
the clock, and none can have found it there while the clock has a period left. If one did, the job has died of it: no
order has the handle any more, and the subscription goes on being counted. -/
theorem live_subscription_carried_out (deviceId : String) (timeout : Duration) (policy : Reduction) (ops : List Op)
    (k : CancelHandle) :
    let p₀ := new deviceId timeout policy
    let p := p₀.run ops
    p.IsLive k → ∃ id r, p.requests.find? id = some r ∧ r.subscription = .periodic k ∧
      (p.engine.Holds (r.order k) ↔ p₀.ticksInTime k ops = true) ∧
      (p.engine.now + (Duration.ofSeconds r.period.toNat).millis < Engine.horizon → p₀.ticksInTime k ops = true) ∧
      (p₀.ticksInTime k ops = false → ∀ o, p.engine.Holds o → o.isFor k = false) := by
  intro p₀ p hlive
  have hs₀ : Sound p₀ := new_sound deviceId timeout policy
  have hs : Sound p := run_sound hs₀ ops
  have hsingle₀ : p₀.engine.Single := Engine.new_single timeout policy
  have hcalled : ¬p.engine.flags.isCancelled k = true := by simp [hlive.2]
  obtain ⟨id, r, hfind, hr⟩ := (hs.tabled k hlive.1).resolve_right hcalled
  obtain ⟨eops, hrun, hticks⟩ := run_engine p₀ ops
  have hbacked : (∃ o, p.engine.Holds o ∧ o.isFor k = true) ↔ p₀.ticksInTime k ops = true := by
    rw [← hticks, show p.engine = p₀.engine.run eops from hrun]
    apply Engine.run_backed_iff hs₀.regular hsingle₀ (Engine.new_backed timeout policy)
    rw [← hrun]
    exact hlive.1
  refine ⟨id, r, hfind, hr, ⟨fun hheld => ?_, fun hin => ?_⟩, fun hleft => ?_, fun hlate o ho => ?_⟩
  · exact hbacked.1 ⟨r.order k, hheld, by simp [Order.isFor, ReadingsRequest.order]⟩
  · obtain ⟨o, ho, hfor⟩ := hbacked.2 hin
    obtain rfl := (hs.order_eq hfind hr ho hfor).resolve_right hcalled
    exact ho
  · by_contra hlate
    have hover : Overdue k p := run_overdue hs₀ hsingle₀ ops (by simpa using hlate)
    have := (hover.beyond id r hfind hr).resolve_left hcalled
    omega
  · exact (run_overdue hs₀ hsingle₀ ops hlate).forgotten.unheld o ho

/-- a subscription with this period is ordered, and its job takes its first turn at once -/
def firstTurn (period : UInt64) : List Op :=
  [.assets (Keyed.empty.insert "dock" ⟨"dock", "Dock", none, ⟨0, 0⟩⟩), .submit ⟨"air", "dock", [.humidity], period⟩,
    .reader .process, .reader .dispatch, .reader (.advance 0)]

theorem live_subscription_carried_out_five_seconds :
    let p := (new "node" ⟨500⟩ .mean).run (firstTurn 5)
    p.IsLive ⟨0⟩ ∧ (new "node" ⟨500⟩ .mean).ticksInTime ⟨0⟩ (firstTurn 5) = true ∧
      ∃ id r, p.requests.find? id = some r ∧ p.engine.Holds (r.order ⟨0⟩) := by
  intro p
  have hlive : p.IsLive ⟨0⟩ := ⟨by decide, rfl⟩
  have hin : (new "node" ⟨500⟩ .mean).ticksInTime ⟨0⟩ (firstTurn 5) = true := by decide
  obtain ⟨id, r, hfind, -, hheld, -⟩ := live_subscription_carried_out "node" ⟨500⟩ .mean (firstTurn 5) ⟨0⟩ hlive
  exact ⟨hlive, hin, id, r, hfind, hheld.2 hin⟩

/-- The greatest period there is takes the first tick beyond the clock. The job dies on its first turn; nothing is queued
and there is no job, and still the request counts as subscribed and the subscription as active. -/
theorem greatest_period_dies :
    let p := (new "node" ⟨500⟩ .mean).run (firstTurn 18446744073709551615)
    p.engine.queue = [] ∧ p.engine.jobs.entries.length = 0 ∧ p.engine.activeSubscriptions = 1 ∧
      (p.requests.find? "air").map (·.isSubscribed p.engine.flags) = some true := by
  decide

end Planner

end SensorNode
