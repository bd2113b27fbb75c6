/-
What requests come to when they are ordered. An engine that takes orders refuses none of the planner's, so a request that
is ordered becomes exactly one order (`activate_of_open`), and a replay leaves nothing pending, orders each pending
request once and nothing else (`replay_not_pending`, `Carries.replay`, `replay_of_absent`).
-/
import SensorNode.Proofs.Planning.Withdrawal
import SensorNode.Proofs.Site.Changes

namespace SensorNode

/-- the order that a request has become, if it has -/
def ReadingsRequest.order? (r : ReadingsRequest) : Option Order :=
  match r.subscription with
  | .pending => none
  | .oneShot => some ⟨r.metrics, .ledger r.id r.assetId, .once⟩
  | .periodic h => some (r.order h)

theorem ReadingsRequest.serves_of_order? {r : ReadingsRequest} {o : Order} (h : r.order? = some o) (id : String) :
    o.serves id = decide (r.id = id) := by
  unfold order? at h
  split at h
  · cases h
  · obtain rfl := Option.some.inj h
    rfl
  · obtain rfl := Option.some.inj h
    rfl

theorem ReadingsRequest.order?_eq_none {r : ReadingsRequest} : r.order? = none ↔ r.isPending = true := by
  unfold order? isPending
  split <;> rename_i h <;> simp [h]

theorem ReadingsRequest.once_iff {r : ReadingsRequest} {o : Order} (h : r.order? = some o) :
    o.cadence = .once ↔ r.subscription = .oneShot := by
  unfold order? at h
  split at h <;> rename_i hs
  · cases h
  · obtain rfl := Option.some.inj h
    exact iff_of_true rfl hs
  · obtain rfl := Option.some.inj h
    exact iff_of_false (fun hc => by cases hc) fun hs' => by cases hs.symm.trans hs'

/-- an order has the metrics of its request, and its readings go to the ledger under the ids of the request -/
theorem ReadingsRequest.of_order? {r : ReadingsRequest} {o : Order} (h : r.order? = some o) :
    o.metrics = r.metrics ∧ o.recipient = .ledger r.id r.assetId := by
  unfold order? at h
  split at h
  · cases h
  · obtain rfl := Option.some.inj h
    exact ⟨rfl, rfl⟩
  · obtain rfl := Option.some.inj h
    exact ⟨rfl, rfl⟩

/-- the orders of a request that serve an id are those of the request if it has that id -/
theorem ReadingsRequest.filter_order? (r : ReadingsRequest) (id : String) :
    r.order?.toList.filter (·.serves id) = if r.id = id then r.order?.toList else [] := by
  cases h : r.order? with
  | none => simp
  | some o => simp [List.filter_cons, serves_of_order? h id]

namespace Engine

/-- the orders that one state of an engine has queued behind those of another -/
def newOrders (e e' : Engine) : List Order := e'.queue.drop e.queue.length

theorem newOrders_of_append {e e' : Engine} {orders : List Order} (h : e'.queue = e.queue ++ orders) :
    e.newOrders e' = orders := by
  rw [newOrders, h, List.drop_left]

theorem newOrders_of_le {e e' : Engine} (h : e'.queue.length ≤ e.queue.length) : e.newOrders e' = [] :=
  List.drop_eq_nil_of_le h

end Engine

/-- orders are taken, and the drive loop has not been told to stop -/
structure Engine.TakesOrders (e : Engine) : Prop where
  isOpen : e.isOpen = true
  stopping : e.stopping = false

theorem Engine.TakesOrders.of_eq {e e' : Engine} (h : e.TakesOrders) (hloop : e'.loop = e.loop)
    (hstopping : e'.stopping = e.stopping) : e'.TakesOrders := by
  refine ⟨?_, hstopping.trans h.stopping⟩
  have hopen := h.isOpen
  unfold Engine.isOpen at hopen ⊢
  rwa [hloop]

theorem Engine.Rebooked.takesOrders {e e' : Engine} (h : e.Rebooked e') (ht : e.TakesOrders) : e'.TakesOrders :=
  ht.of_eq h.loop.1 h.loop.2

/-- an engine that takes orders refuses no subscription of a whole number of seconds but zero -/
theorem Engine.subscribe_of_open {e : Engine} (hopen : e.isOpen = true) {period : UInt64} (hperiod : period ≠ 0)
    (recipient : Recipient) (metrics : List Metric) :
    e.subscribe recipient (.ofSeconds period.toNat) metrics =
      .ok (⟨e.flags.issued⟩, { e with
        flags := e.flags.issue.2
        subscriptions := e.subscriptions ++ [⟨e.flags.issued⟩]
        queue := e.queue ++ [⟨metrics, recipient, .every (.ofSeconds period.toNat) ⟨e.flags.issued⟩⟩] }) := by
  have hmillis : (Duration.ofSeconds period.toNat).millis ≠ 0 := by
    have : period.toNat ≠ 0 := fun h => hperiod (UInt64.toNat_inj.1 h)
    simp only [Duration.ofSeconds]
    omega
  unfold Engine.subscribe
  rw [if_neg hmillis, if_pos hopen]
  rfl

namespace Planner

variable {p : Planner}

/-- an ordered request is a single reading exactly if its period is zero -/
def Fitting (r : ReadingsRequest) : Prop := r.subscription = .oneShot ↔ r.period = 0

theorem activate_declared (p : Planner) (r : ReadingsRequest) : (p.activate r).1.declared = r.declared := by
  rcases activate_cases p r with h | h | ⟨handle, engine, -, h⟩ <;> rw [h] <;> rfl

/-- a request without a period orders one reading -/
theorem activate_once (p : Planner) {r : ReadingsRequest} (hperiod : r.period = 0) :
    p.activate r = ({ r with subscription := .oneShot },
      { p with engine := p.engine.sendOnce (.ledger r.id r.assetId) r.metrics }) := if_pos hperiod

/-- any other holds the next handle, as long as orders are taken -/
theorem activate_periodic (hopen : p.engine.isOpen = true) {r : ReadingsRequest} (hperiod : r.period ≠ 0) :
    p.activate r = ({ r with subscription := .periodic ⟨p.engine.flags.issued⟩ }, { p with engine := { p.engine with
      flags := p.engine.flags.issue.2
      subscriptions := p.engine.subscriptions ++ [⟨p.engine.flags.issued⟩]
      queue := p.engine.queue ++ [r.order ⟨p.engine.flags.issued⟩] } }) := by
  unfold activate
  rw [if_neg hperiod, Engine.subscribe_of_open hopen hperiod]
  rfl

/-- what ordering a request comes to as long as orders are taken -/
theorem activate_of_open (hopen : p.engine.isOpen = true) (r : ReadingsRequest) :
    (p.activate r).1.isPending = false ∧ Fitting (p.activate r).1 ∧
      (p.activate r).2.engine.queue = p.engine.queue ++ (p.activate r).1.order?.toList := by
  by_cases hperiod : r.period = 0
  · rw [activate_once p hperiod]
    refine ⟨rfl, by simp [Fitting, hperiod], ?_⟩
    simp [Engine.sendOnce, hopen, ReadingsRequest.order?]
  · rw [activate_periodic hopen hperiod]
    exact ⟨rfl, by simp [Fitting, hperiod], rfl⟩

/-- an engine that takes no orders queues nothing -/
theorem activate_queue_of_closed (hclosed : p.engine.isOpen = false) (r : ReadingsRequest) :
    (p.activate r).2.engine.queue = p.engine.queue := by
  unfold activate Engine.sendOnce Engine.subscribe
  simp only [hclosed, Bool.false_eq_true, if_false]
  split_ifs <;> rfl

/-- ordering a request puts nothing but an order for it into the queue -/
theorem activate_orders (p : Planner) (r : ReadingsRequest) :
    ∃ orders, (p.activate r).2.engine.queue = p.engine.queue ++ orders ∧
      ∀ id, r.id ≠ id → orders.filter (·.serves id) = [] := by
  cases hopen : p.engine.isOpen with
  | true =>
    refine ⟨_, (activate_of_open hopen r).2.2, fun id hne => ?_⟩
    rw [ReadingsRequest.filter_order?, activate_id, if_neg hne]
  | false => exact ⟨[], by rw [List.append_nil, activate_queue_of_closed hopen], fun _ _ => rfl⟩

theorem enlistAll_orders (p : Planner) (rs : List ReadingsRequest) :
    ∃ orders, (rs.foldl (fun p r => (p.enlist r).2) p).engine.queue = p.engine.queue ++ orders ∧
      ∀ id, (∀ r ∈ rs, r.id ≠ id) → orders.filter (·.serves id) = [] := by
  induction rs generalizing p with
  | nil => exact ⟨[], (List.append_nil _).symm, fun _ _ => rfl⟩
  | cons r rs ih =>
    obtain ⟨first, hqueue, hfirst⟩ := activate_orders p r
    obtain ⟨orders, horders, hserve⟩ := ih (p.enlist r).2
    refine ⟨first ++ orders, ?_, fun id hne => ?_⟩
    · rw [List.foldl_cons, horders, ← List.append_assoc]
      exact congrArg (· ++ orders) hqueue
    · rw [List.filter_append, hserve id fun r' hr' => hne r' (List.mem_cons_of_mem r hr'),
        hfirst id (hne r List.mem_cons_self)]
      rfl

/-- each of them becomes one order -/
theorem enlistAll_orders_of_mem (hopen : p.engine.isOpen = true) {rs : List ReadingsRequest}
    (hnodup : (rs.map ReadingsRequest.id).Nodup) {r : ReadingsRequest} (hr : r ∈ rs) :
    ∃ orders r', (rs.foldl (fun p r => (p.enlist r).2) p).engine.queue = p.engine.queue ++ orders ∧
      (rs.foldl (fun p r => (p.enlist r).2) p).requests.find? r.id = some r' ∧ r'.declared = r.declared ∧
      r'.isPending = false ∧ Fitting r' ∧ orders.filter (·.serves r.id) = r'.order?.toList := by
  induction rs generalizing p with
  | nil => cases hr
  | cons r₀ rs ih =>
    obtain ⟨hfirst, hnodup⟩ := List.nodup_cons.1 hnodup
    have hopen' : (p.enlist r₀).2.engine.isOpen = true := (activate_rebooked p r₀).isOpen.trans hopen
    obtain ⟨hpending, hfitting, hqueue⟩ := activate_of_open hopen r₀
    have hid : (p.activate r₀).1.id = r₀.id := activate_id p r₀
    rcases List.mem_cons.1 hr with rfl | hr
    · have hne : ∀ r' ∈ rs, r'.id ≠ r.id := fun r' hr' he => hfirst (he ▸ List.mem_map_of_mem hr')
      obtain ⟨orders, horders, hserve⟩ := enlistAll_orders (p.enlist r).2 rs
      refine ⟨(p.activate r).1.order?.toList ++ orders, (p.activate r).1, ?_, ?_, activate_declared p r, hpending,
        hfitting, ?_⟩
      · rw [List.foldl_cons, horders, ← List.append_assoc]
        exact congrArg (· ++ orders) hqueue
      · rw [List.foldl_cons, enlistAll_find?_of_ne rs r.id hne, enlist_find?, if_pos rfl]
      · rw [List.filter_append, hserve r.id hne, ReadingsRequest.filter_order?, if_pos hid, List.append_nil]
    · have hne : r₀.id ≠ r.id := fun he => hfirst (he ▸ List.mem_map_of_mem hr)
      obtain ⟨orders, r', horders, hfind, hdeclared, hpending', hfitting', hfilter⟩ := ih hopen' hnodup hr
      refine ⟨(p.activate r₀).1.order?.toList ++ orders, r', ?_, hfind, hdeclared, hpending', hfitting', ?_⟩
      · rw [List.foldl_cons, horders, ← List.append_assoc]
        exact congrArg (· ++ orders) hqueue
      · rw [List.filter_append, ReadingsRequest.filter_order?, if_neg (hid ▸ hne), hfilter]
        rfl

/-! ## Replays -/

theorem mem_pending {id : String} {r : ReadingsRequest} (hfind : p.requests.find? id = some r) :
    r ∈ p.requests.pending ↔ r.isPending = true := by
  unfold Requests.pending
  rw [List.mem_filter]
  exact and_iff_right ((Keyed.mem_values_iff _ r).2 ⟨id, hfind⟩)

/-- a request that is pending, or none with that id is -/
theorem pending_cases (p : Planner) (id : String) :
    (∃ r ∈ p.requests.pending, r.id = id) ∨ ∀ r ∈ p.requests.pending, r.id ≠ id := by
  by_cases h : ∃ r ∈ p.requests.pending, r.id = id
  · exact Or.inl h
  · exact Or.inr fun r hr he => h ⟨r, hr, he⟩

theorem replay_find?_of_not_pending (hs : Sound p) {id : String} {r : ReadingsRequest}
    (hfind : p.requests.find? id = some r) (hpending : r.isPending = false) :
    p.replayPending.2.requests.find? id = some r ∧ ∀ r' ∈ p.requests.pending, r'.id ≠ id := by
  have hne : ∀ r' ∈ p.requests.pending, r'.id ≠ id := by
    rintro r' hr' rfl
    obtain ⟨hmem, hp⟩ := List.mem_filter.1 hr'
    obtain ⟨id', hfind'⟩ := (Keyed.mem_values_iff _ r').1 hmem
    rw [← hs.keyed id' r' hfind', hfind] at hfind'
    rw [Option.some.inj hfind', hp] at hpending
    cases hpending
  exact ⟨(enlistAll_find?_of_ne _ id hne).trans hfind, hne⟩

/-- after a replay nothing is pending -/
theorem replay_not_pending (hs : Sound p) (hopen : p.engine.isOpen = true) {id : String} {r : ReadingsRequest}
    (hfind : p.replayPending.2.requests.find? id = some r) : r.isPending = false := by
  rcases pending_cases p id with ⟨r₀, hr₀, rfl⟩ | hne
  · obtain ⟨-, r', -, hfind', -, hpending, -⟩ := enlistAll_orders_of_mem hopen (pending_nodup hs) hr₀
    rw [Option.some.inj (hfind.symm.trans hfind')]
    exact hpending
  · have hfind : p.requests.find? id = some r := (enlistAll_find?_of_ne _ id hne).symm.trans hfind
    refine Bool.eq_false_iff.2 fun hpending => ?_
    exact hne r ((mem_pending hfind).2 hpending) (hs.keyed id r hfind)

/-- a replay drops nothing -/
theorem replay_contains (hs : Sound p) (hopen : p.engine.isOpen = true) {id : String}
    (h : p.requests.contains id = true) : p.replayPending.2.requests.contains id = true := by
  rcases pending_cases p id with ⟨r, hr, rfl⟩ | hne
  · obtain ⟨-, r', -, hfind, -⟩ := enlistAll_orders_of_mem hopen (pending_nodup hs) hr
    exact Option.isSome_iff_exists.2 ⟨r', hfind⟩
  · have hsame : p.replayPending.2.requests.find? id = p.requests.find? id := enlistAll_find?_of_ne _ id hne
    exact (congrArg Option.isSome hsame).trans h

/-- nothing is left for another replay -/
theorem replay_pending_eq_nil (hs : Sound p) (hopen : p.engine.isOpen = true) :
    p.replayPending.2.requests.pending = [] := by
  refine List.filter_eq_nil_iff.2 fun r hr => ?_
  obtain ⟨id, hfind⟩ := (Keyed.mem_values_iff _ r).1 hr
  simp [replay_not_pending hs hopen hfind]

/-- what is not kept is not ordered -/
theorem replay_of_absent (hs : Sound p) {id : String} (hfind : p.requests.find? id = none) :
    p.replayPending.2.requests.find? id = none ∧
      (p.engine.newOrders p.replayPending.2.engine).filter (·.serves id) = [] := by
  have hne : ∀ r ∈ p.requests.pending, r.id ≠ id := by
    rintro r hr rfl
    obtain ⟨id', hfind'⟩ := (Keyed.mem_values_iff _ r).1 (List.mem_filter.1 hr).1
    rw [← hs.keyed id' r hfind', hfind] at hfind'
    cases hfind'
  obtain ⟨orders, horders, hserve⟩ := enlistAll_orders p p.requests.pending
  refine ⟨(enlistAll_find?_of_ne _ id hne).trans hfind, ?_⟩
  have hnew : p.engine.newOrders p.replayPending.2.engine = orders := Engine.newOrders_of_append horders
  rw [hnew]
  exact hserve id hne

/-! ## The orders for accepted requirements -/

/-- What was accepted of these requirements is kept, and the orders that were sent for them are what it has become: none
while it is pending, and one from then on. -/
def Carries (p : Planner) (q : Requirements) (sent : List Order) : Prop :=
  ∃ r, p.requests.find? q.id = some r ∧ r.declared = q ∧ (r.isPending = false → Fitting r) ∧ sent = r.order?.toList

variable {p' : Planner} {q : Requirements} {sent : List Order}

theorem storePending_carries (h : (p.storePending q).1 = true) : (p.storePending q).2.Carries q [] := by
  unfold storePending at h ⊢
  split_ifs at h ⊢
  exact ⟨.ofRequirements q, (put_find? ..).trans (if_pos rfl), rfl, (fun hp => by cases hp), rfl⟩

/-- nothing becomes of them, and nothing is sent for them -/
theorem Carries.of_eq (h : p.Carries q sent) (hfind : p'.requests.find? q.id = p.requests.find? q.id)
    (horders : (p.engine.newOrders p'.engine).filter (·.serves q.id) = []) :
    p'.Carries q (sent ++ (p.engine.newOrders p'.engine).filter (·.serves q.id)) := by
  rw [horders, List.append_nil]
  obtain ⟨r, hr, hrest⟩ := h
  exact ⟨r, hfind.trans hr, hrest⟩

theorem Carries.replay (h : p.Carries q sent) (hs : Sound p) (hopen : p.engine.isOpen = true) :
    p.replayPending.2.Carries q
      (sent ++ (p.engine.newOrders p.replayPending.2.engine).filter (·.serves q.id)) := by
  obtain ⟨r, hfind, hdeclared, hfitting, rfl⟩ := h
  have hid : r.id = q.id := hs.keyed q.id r hfind
  cases hpending : r.isPending with
  | true =>
    -- it is ordered now
    have hmem := (mem_pending hfind).2 hpending
    obtain ⟨orders, r', horders, hfind', hdeclared', -, hfitting', hfilter⟩ :=
      enlistAll_orders_of_mem hopen (pending_nodup hs) hmem
    rw [hid] at hfind' hfilter
    refine ⟨r', hfind', hdeclared'.trans hdeclared, fun _ => hfitting', ?_⟩
    have hnew : p.engine.newOrders p.replayPending.2.engine = orders := Engine.newOrders_of_append horders
    rw [hnew, hfilter,
      ReadingsRequest.order?_eq_none.2 hpending]
    rfl
  | false =>
    obtain ⟨hstays, hne⟩ := replay_find?_of_not_pending hs hfind hpending
    obtain ⟨orders, horders, hserve⟩ := enlistAll_orders p p.requests.pending
    refine ⟨r, hstays, hdeclared, hfitting, ?_⟩
    have hnew : p.engine.newOrders p.replayPending.2.engine = orders := Engine.newOrders_of_append horders
    rw [hnew, hserve q.id hne, List.append_nil]

theorem withdraw_queue (p : Planner) (id : String) : (p.withdraw id).2.engine.queue = p.engine.queue := by
  unfold withdraw
  split <;> rfl

/-- others are withdrawn -/
theorem Carries.withdraw (h : p.Carries q sent) {id : String} (hne : q.id ≠ id) :
    (p.withdraw id).2.Carries q (sent ++ (p.engine.newOrders (p.withdraw id).2.engine).filter (·.serves q.id)) := by
  refine h.of_eq (by rw [withdraw_find?, if_neg hne]) ?_
  rw [Engine.newOrders_of_le (by rw [withdraw_queue])]
  rfl

/-- requirements whose id is taken are not stored -/
theorem Carries.storePending (h : p.Carries q sent) (q' : Requirements) :
    (p.storePending q').2.Carries q
      (sent ++ (p.engine.newOrders (p.storePending q').2.engine).filter (·.serves q.id)) := by
  obtain ⟨r, hfind, -⟩ := id h
  have hsame : (p.storePending q').2.engine = p.engine ∧
      (p.storePending q').2.requests.find? q.id = p.requests.find? q.id := by
    unfold Planner.storePending
    split_ifs with hnew
    · refine ⟨rfl, (put_find? ..).trans (if_neg ?_)⟩
      intro hid
      have hid : q.id = q'.id := hid
      exact hnew.2 (Option.isSome_iff_exists.2 ⟨r, hid ▸ hfind⟩)
    · exact ⟨rfl, rfl⟩
  refine h.of_eq hsame.2 ?_
  rw [Engine.newOrders_of_le (by rw [hsame.1])]
  rfl

/-- submitting orders nothing but the requirements that are submitted -/
theorem submit_orders (hopen : p.engine.isOpen = true) (q : Requirements) :
    ∃ orders, (p.submit q).2.engine.queue = p.engine.queue ++ orders ∧
      ∀ id, id ≠ q.id → orders.filter (·.serves id) = [] := by
  unfold submit
  dsimp only
  split_ifs
  · have hopen' : (p.withdraw q.id).2.engine.isOpen = true := (withdraw_rebooked p q.id).isOpen.trans hopen
    obtain ⟨-, -, horders⟩ := activate_of_open hopen' (.ofRequirements q)
    rw [withdraw_queue] at horders
    refine ⟨_, horders, fun id hne => ?_⟩
    rw [ReadingsRequest.filter_order?, activate_id, if_neg]
    exact hne.symm
  · exact ⟨[], by rw [withdraw_queue, List.append_nil], fun _ _ => rfl⟩

/-- other requirements are submitted -/
theorem Carries.submit (h : p.Carries q sent) (hopen : p.engine.isOpen = true) {q' : Requirements} (hne : q.id ≠ q'.id) :
    (p.submit q').2.Carries q (sent ++ (p.engine.newOrders (p.submit q').2.engine).filter (·.serves q.id)) := by
  obtain ⟨orders, horders, hserve⟩ := submit_orders hopen q'
  refine h.of_eq (by rw [submit_find?, if_neg hne]) ?_
  rw [Engine.newOrders_of_append horders, hserve q.id hne]

/-- what is pending after requirements have been submitted was pending before -/
theorem find?_of_submit_pending (hopen : p.engine.isOpen = true) {q : Requirements} {id : String} {r : ReadingsRequest}
    (hfind : (p.submit q).2.requests.find? id = some r) (hpending : r.isPending = true) :
    p.requests.find? id = some r := by
  rw [submit_find?] at hfind
  split_ifs at hfind with hid hnear
  · have hopen' : (p.withdraw q.id).2.engine.isOpen = true := (withdraw_rebooked p q.id).isOpen.trans hopen
    have hordered := (activate_of_open hopen' (.ofRequirements q)).1
    rw [Option.some.inj hfind, hpending] at hordered
    cases hordered
  · exact hfind

/-! ## What leaves the requests alone -/

/-- nothing becomes of the requests, and nothing is ordered; an engine that takes orders goes on to do so -/
structure Quiet (p p' : Planner) : Prop where
  requests : p'.requests = p.requests
  orders : p'.engine.queue.length ≤ p.engine.queue.length
  onward : Engine.Onward p.engine p'.engine
  regular : p.engine.Regular → p'.engine.Regular
  takesOrders : p.engine.TakesOrders → p'.engine.TakesOrders

theorem Quiet.refl (p : Planner) : Quiet p p := ⟨rfl, le_rfl, Engine.Onward.refl _, fun h => h, fun h => h⟩

theorem Quiet.trans {p'' : Planner} (h : Quiet p p') (h' : Quiet p' p'') : Quiet p p'' where
  requests := h'.requests.trans h.requests
  orders := h'.orders.trans h.orders
  onward := h.onward.trans h'.onward
  regular hr := h'.regular (h.regular hr)
  takesOrders ht := h'.takesOrders (h.takesOrders ht)

theorem Quiet.of_eq (hrequests : p'.requests = p.requests) (hengine : p'.engine = p.engine) : Quiet p p' := by
  refine ⟨hrequests, ?_, ?_, ?_, ?_⟩ <;> rw [hengine]
  · exact Engine.Onward.refl _
  · exact fun h => h
  · exact fun h => h

/-- the engine has other sensors, or its drive loop has been started -/
theorem Quiet.refit (p : Planner) (fleet : Fleet) (pool : Register) {loop : DriveLoop}
    (hloop : p.engine.isOpen = true → loop ≠ .ended) : Quiet p { p with engine := { p.engine with fleet, pool, loop } } :=
  ⟨rfl, le_rfl, Engine.Onward.of_eq rfl rfl fun _ ho => ho, fun hr => { hr with }, fun ht =>
    ⟨decide_eq_true (hloop ht.isOpen), ht.stopping⟩⟩

theorem Quiet.refit_sensors (p : Planner) (fleet : Fleet) (pool : Register) :
    Quiet p { p with engine := { p.engine with fleet, pool } } :=
  Quiet.refit p fleet pool fun hopen => of_decide_eq_true hopen

theorem Quiet.cancelRequest (p : Planner) (r : ReadingsRequest) : Quiet p (p.cancelRequest r) := by
  rcases cancelRequest_cases p r with ⟨-, h⟩ | ⟨handle, -, h⟩ <;> rw [h]
  · exact Quiet.refl p
  · exact ⟨rfl, le_rfl, Engine.Onward.cancel _ _, fun hr => cancel_regular hr handle, fun ht => ⟨ht.isOpen, ht.stopping⟩⟩

theorem Quiet.cancelRequests (p : Planner) (rs : List ReadingsRequest) : Quiet p (rs.foldl Planner.cancelRequest p) := by
  induction rs generalizing p with
  | nil => exact Quiet.refl p
  | cons r rs ih => exact (Quiet.cancelRequest p r).trans (ih _)

theorem Sound.quiet (hs : Sound p) (h : Quiet p p') : Sound p' := hs.of_onward h.requests h.onward (h.regular hs.regular)

theorem Carries.quiet (hc : p.Carries q sent) (h : Quiet p p') :
    p'.Carries q (sent ++ (p.engine.newOrders p'.engine).filter (·.serves q.id)) := by
  refine hc.of_eq (by rw [h.requests]) ?_
  rw [Engine.newOrders_of_le h.orders]
  rfl

end Planner

end SensorNode
