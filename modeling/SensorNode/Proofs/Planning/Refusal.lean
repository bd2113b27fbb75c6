/-
Requests and refusals. Each time the planner hands a request to the engine, the engine takes its order or, once its drive
loop has ended, refuses it (`Tried`). A subscription that is refused stays pending and is handed over again by the next
replay. A single reading counts as ordered whatever the engine makes of it, so one that is refused is lost; that is the
one way in which a request can be out of step with what the engine was handed (`Fate`, `refusal_outcome`).
-/
import SensorNode.Proofs.Planning.Placement

namespace SensorNode.Planner

variable {p : Planner} {q : Requirements} {r : ReadingsRequest} {sent : List Order} {tried : List Bool}

/-! ## What is tried and what is queued -/

/-- Whether the engine takes orders when an operation hands it the request with this id, if it does. -/
def tries (id : String) (p : Planner) : Op → List Bool
  | .submit q => if q.id = id ∧ p.assets.contains q.assetId then [p.engine.isOpen] else []
  | .replayPending => if (p.requests.find? id).any ReadingsRequest.isPending then [p.engine.isOpen] else []
  | _ => []

/-- the answers of the engine in a run, oldest first -/
def triesAll (id : String) (p : Planner) : List Op → List Bool
  | [] => []
  | op :: ops => p.tries id op ++ (p.step op).1.triesAll id ops

/-- the orders for requirements with this id that an operation queues -/
def sends (id : String) (p : Planner) (op : Op) : List Order :=
  (p.engine.newOrders (p.step op).1.engine).filter (·.serves id)

/-- the orders that are queued for them in a run, oldest first -/
def sendsAll (id : String) (p : Planner) : List Op → List Order
  | [] => []
  | op :: ops => p.sends id op ++ (p.step op).1.sendsAll id ops

/-- the operation accepts these requirements, to be ordered at once or later -/
def Accepts (p : Planner) (q : Requirements) (op : Op) : Prop :=
  (op = .submit q ∧ p.assets.contains q.assetId = true) ∨ (op = .storePending q ∧ (p.storePending q).1 = true)

/-- the operation does not withdraw, replace or clear what is kept under this id -/
def Op.spares (id : String) : Op → Bool
  | .submit q => q.id ≠ id
  | .withdraw id' => id' ≠ id
  | .clear => false
  | _ => true

/-! ## One request handed over -/

/-- an engine that refuses leaves a request without a period ordered in name, and any other pending -/
theorem activate_of_closed (hclosed : p.engine.isOpen = false) (r : ReadingsRequest) :
    (p.activate r).1 = { r with subscription := if r.period = 0 then .oneShot else .pending } := by
  unfold activate Engine.subscribe
  simp only [hclosed, Bool.false_eq_true, if_false]
  split_ifs <;> rfl

/-- the request is handed to the engine, which takes its order or does not -/
structure Tried (p : Planner) (op : Op) (q : Requirements) (r : ReadingsRequest) : Prop where
  kept : (p.step op).1.requests.find? q.id = some r
  declared : r.declared = q
  answer : p.tries q.id op = [p.engine.isOpen]
  taken : p.engine.isOpen = true → r.isPending = false ∧ p.sends q.id op = r.order?.toList
  refused : p.engine.isOpen = false →
    r.subscription = (if r.period = 0 then .oneShot else .pending) ∧ p.sends q.id op = []

/-- what is queued behind the orders that there were -/
theorem sends_of_append (p : Planner) (op : Op) {orders : List Order}
    (h : (p.step op).1.engine.queue = p.engine.queue ++ orders) (id : String) : p.sends id op = orders.filter (·.serves id) := by
  rw [sends, Engine.newOrders_of_append h]

theorem sends_of_le (p : Planner) (op : Op) (h : (p.step op).1.engine.queue.length ≤ p.engine.queue.length)
    (id : String) : p.sends id op = [] := by
  rw [sends, Engine.newOrders_of_le h]
  rfl

theorem submit_sends_of_closed (hclosed : p.engine.isOpen = false) (q : Requirements) (id : String) :
    p.sends id (.submit q) = [] := by
  have hqueue := submit_queue p q
  rw [if_neg (by simp [hclosed]), List.append_nil] at hqueue
  exact p.sends_of_le (.submit q) (le_of_eq (congrArg List.length hqueue)) id

theorem submit_tried (hnear : p.assets.contains q.assetId = true) :
    ∃ r, (p.submit q).1 = some r ∧ Tried p (.submit q) q r := by
  have hsame : (p.withdraw q.id).2.engine.isOpen = p.engine.isOpen := (withdraw_rebooked p q.id).isOpen
  have hassets : (p.withdraw q.id).2.assets = p.assets := by
    obtain ⟨engine, requests, hwithdraw⟩ := withdraw_eq p q.id
    rw [hwithdraw]
  have haccepted : (p.submit q).1 = some ((p.withdraw q.id).2.activate (.ofRequirements q)).1 := by
    unfold submit
    dsimp only
    rw [hassets, if_pos hnear]
    rfl
  refine ⟨_, haccepted, ?_, ?_, ?_, ?_, ?_⟩
  · exact (submit_find? p q q.id).trans (by rw [if_pos rfl, if_pos hnear])
  · exact activate_declared _ _
  · exact if_pos ⟨rfl, hnear⟩
  · intro hopen
    have hqueue := submit_queue p q
    rw [if_pos hopen, haccepted] at hqueue
    obtain ⟨hpending, -, -⟩ := activate_of_open (hsame.trans hopen) (.ofRequirements q)
    refine ⟨hpending, (p.sends_of_append (.submit q) hqueue q.id).trans ?_⟩
    have hid : ((p.withdraw q.id).2.activate (.ofRequirements q)).1.id = q.id := activate_id _ _
    generalize ((p.withdraw q.id).2.activate (.ofRequirements q)).1 = r at hid
    calc ((some r).toList.filterMap ReadingsRequest.order?).filter (·.serves q.id)
        = r.order?.toList.filter (·.serves q.id) := by cases h : r.order? <;> simp [h]
      _ = r.order?.toList := by rw [r.filter_order?, if_pos hid]
  · intro hclosed
    refine ⟨?_, submit_sends_of_closed hclosed q q.id⟩
    rw [activate_of_closed (hsame.trans hclosed)]

/-- each of the requests is handed over in its turn, in an engine that takes orders or not as at first -/
theorem enlistAll_turn {rs : List ReadingsRequest} (hnodup : (rs.map ReadingsRequest.id).Nodup) (hr : r ∈ rs) :
    ∃ w : Planner, w.engine.isOpen = p.engine.isOpen ∧
      (rs.foldl (fun p r => (p.enlist r).2) p).requests.find? r.id = some (w.activate r).1 := by
  induction rs generalizing p with
  | nil => cases hr
  | cons r₀ rs ih =>
    obtain ⟨hfirst, hnodup⟩ := List.nodup_cons.1 hnodup
    rcases List.mem_cons.1 hr with rfl | hr
    · refine ⟨p, rfl, ?_⟩
      rw [List.foldl_cons, enlistAll_find?_of_ne rs r.id fun r' hr' he => hfirst (he ▸ List.mem_map_of_mem hr'),
        enlist_find?, if_pos rfl]
    · obtain ⟨w, hopen, hfind⟩ := ih (p := (p.enlist r₀).2) hnodup hr
      exact ⟨w, hopen.trans (activate_rebooked p r₀).isOpen, hfind⟩

theorem replay_tried (hs : Sound p) (hfind : p.requests.find? q.id = some r) (hdeclared : r.declared = q)
    (hpending : r.isPending = true) : ∃ r', Tried p .replayPending q r' := by
  have hid : r.id = q.id := hs.keyed q.id r hfind
  have hmem : r ∈ p.requests.pending := (mem_pending hfind).2 hpending
  have hanswer : p.tries q.id .replayPending = [p.engine.isOpen] := if_pos (by rw [hfind]; exact hpending)
  cases hopen : p.engine.isOpen with
  | true =>
    obtain ⟨orders, r', horders, hfind', hdeclared', hpending', -, hfilter⟩ :=
      enlistAll_orders_of_mem hopen (pending_nodup hs) hmem
    rw [hid] at hfind' hfilter
    refine ⟨r', hfind', hdeclared'.trans hdeclared, hanswer, fun _ => ⟨hpending', ?_⟩, fun hclosed => ?_⟩
    · exact (p.sends_of_append .replayPending horders q.id).trans hfilter
    · exact absurd (hopen.symm.trans hclosed) (by decide)
  | false =>
    obtain ⟨w, hw, hfind'⟩ := enlistAll_turn (pending_nodup hs) hmem
    have hqueue : p.replayPending.2.engine.queue = p.engine.queue := by
      have hall := enlistAll_queue p p.requests.pending
      rwa [if_neg (by simp [hopen]), List.append_nil] at hall
    have hdeclared' := (activate_declared w r).trans hdeclared
    rw [hid] at hfind'
    rw [activate_of_closed (hw.trans hopen)] at hfind' hdeclared'
    refine ⟨_, hfind', hdeclared', hanswer, fun htaken => ?_, fun _ => ⟨rfl, ?_⟩⟩
    · exact absurd (hopen.symm.trans htaken) (by decide)
    · exact p.sends_of_le .replayPending (le_of_eq (congrArg List.length hqueue)) q.id

/-! ## Operations that do not hand it over -/

theorem submit_sends_of_ne {id : String} (hne : id ≠ q.id) : p.sends id (.submit q) = [] := by
  cases hopen : p.engine.isOpen with
  | true =>
    obtain ⟨orders, horders, hserve⟩ := submit_orders hopen q
    exact (p.sends_of_append (.submit q) horders id).trans (hserve id hne)
  | false => exact submit_sends_of_closed hopen q id

/-- what is kept and not handed over stays as it is, and nothing is queued for it -/
theorem step_idle (hs : Sound p) {id : String} (hfind : p.requests.find? id = some r) {op : Op}
    (hspares : op.spares id = true) (hidle : p.tries id op = []) :
    (p.step op).1.requests.find? id = some r ∧ p.sends id op = [] := by
  have quiet : (p.step op).1.requests = p.requests → (p.step op).1.engine.queue.length ≤ p.engine.queue.length →
      (p.step op).1.requests.find? id = some r ∧ p.sends id op = [] :=
    fun hrequests hqueue => ⟨by rw [hrequests]; exact hfind, p.sends_of_le op hqueue id⟩
  cases op with
  | submit q =>
    have hne : id ≠ q.id := Ne.symm (of_decide_eq_true hspares)
    exact ⟨(submit_find? p q id).trans ((if_neg hne).trans hfind), submit_sends_of_ne hne⟩
  | withdraw id' =>
    have hne : id ≠ id' := Ne.symm (of_decide_eq_true hspares)
    refine ⟨(withdraw_find? p id' id).trans ((if_neg hne).trans hfind), p.sends_of_le (.withdraw id') ?_ id⟩
    exact le_of_eq (congrArg List.length (withdraw_queue p id'))
  | storePending q =>
    simp only [step, sends, storePending]
    split_ifs with hnew
    · have hne : id ≠ q.id := by
        rintro rfl
        exact hnew.2 (Option.isSome_iff_exists.2 ⟨r, hfind⟩)
      exact ⟨(put_find? ..).trans ((if_neg hne).trans hfind), by rw [Engine.newOrders_of_le le_rfl]; rfl⟩
    · exact ⟨hfind, by rw [Engine.newOrders_of_le le_rfl]; rfl⟩
  | replayPending =>
    have hpending : r.isPending = false := by
      by_contra hpending
      rw [tries, hfind, Option.any_some, if_pos (by simpa using hpending)] at hidle
      cases hidle
    obtain ⟨hstays, hne⟩ := replay_find?_of_not_pending hs hfind hpending
    obtain ⟨orders, horders, hserve⟩ := enlistAll_orders p p.requests.pending
    exact ⟨hstays, (p.sends_of_append .replayPending horders id).trans (hserve id hne)⟩
  | cancelAll =>
    obtain ⟨flags, hcancelled⟩ := cancelRequests_eq p p.requests.values
    have hstep : (p.step .cancelAll).1 = { p with engine := { p.engine with flags } } := hcancelled
    exact quiet (by rw [hstep]) (by rw [hstep])
  | clear => cases hspares
  | assets assets => exact quiet rfl le_rfl
  | link link => exact quiet rfl le_rfl
  | sendOnce label hold metrics =>
    refine ⟨hfind, ?_⟩
    simp only [sends, step, Engine.sendOnce]
    split_ifs
    · rw [Engine.newOrders_of_append rfl]
      rfl
    · rw [Engine.newOrders_of_le le_rfl]
      rfl
  | reader m =>
    obtain ⟨posted, postings, hstep⟩ := step_reader p m
    refine quiet (by rw [hstep]) ?_
    rw [hstep]
    exact (Engine.move_queue p.engine m).length_le

/-! ## What becomes of accepted requirements -/

/-- What has become of a request since it was accepted: the orders that were queued for it, and what the engine answered
each time that it was handed over. -/
inductive Fate (r : ReadingsRequest) : List Order → List Bool → Prop
  /-- it was refused whenever it was tried, if it was -/
  | waits {tried : List Bool} (pending : r.isPending = true) (refused : true ∉ tried)
      (untried : r.period = 0 → tried = []) : Fate r [] tried
  /-- it was taken once, and not tried again -/
  | ordered {o : Order} {tried : List Bool} (order : r.order? = some o) (taken : tried.count true = 1)
      (once : r.period = 0 → false ∉ tried) : Fate r [o] tried
  /-- it counts as ordered, and was not -/
  | lost {tried : List Bool} (single : r.subscription = .oneShot) (period : r.period = 0) (refused : true ∉ tried)
      (tries : tried ≠ []) : Fate r [] tried

/-- what becomes of a request that is handed over, having been refused before or not tried -/
theorem Tried.fate {op : Op} (h : Tried p op q r) (hrefused : true ∉ tried) (huntried : q.period = 0 → tried = []) :
    Fate r (p.sends q.id op) (tried ++ p.tries q.id op) := by
  have hperiod : r.period = q.period := congrArg Requirements.period h.declared
  rw [h.answer]
  cases hopen : p.engine.isOpen with
  | true =>
    obtain ⟨hpending, hsends⟩ := h.taken hopen
    obtain ⟨o, ho⟩ : ∃ o, r.order? = some o := by
      apply Option.ne_none_iff_exists'.1
      intro hnone
      rw [ReadingsRequest.order?_eq_none.1 hnone] at hpending
      cases hpending
    rw [hsends, ho]
    refine .ordered ho ?_ fun hzero => ?_
    · rw [List.count_append, List.count_eq_zero.2 hrefused]
      rfl
    · rw [huntried (hperiod.symm.trans hzero)]
      simp
  | false =>
    obtain ⟨hsubscription, hsends⟩ := h.refused hopen
    rw [hsends]
    have hrefused' : true ∉ tried ++ [false] := by simp [hrefused]
    by_cases hperiod : r.period = 0
    · rw [if_pos hperiod] at hsubscription
      exact .lost hsubscription hperiod hrefused' (by simp)
    · rw [if_neg hperiod] at hsubscription
      exact .waits (by simp [ReadingsRequest.isPending, hsubscription]) hrefused' fun h => absurd h hperiod

/-- the requirements are kept, and this is what has become of them -/
def Kept (p : Planner) (q : Requirements) (sent : List Order) (tried : List Bool) : Prop :=
  ∃ r, p.requests.find? q.id = some r ∧ r.declared = q ∧ Fate r sent tried

theorem kept_of_accepts {op : Op} (h : p.Accepts q op) :
    (p.step op).1.Kept q (p.sends q.id op) (p.tries q.id op) := by
  rcases h with ⟨rfl, hnear⟩ | ⟨rfl, hstored⟩
  · obtain ⟨r, -, htried⟩ := submit_tried hnear
    exact ⟨r, htried.kept, htried.declared, htried.fate List.not_mem_nil fun _ => rfl⟩
  · obtain ⟨r, hfind, hdeclared, -, hsent⟩ := storePending_carries hstored
    have hengine : (p.storePending q).2.engine = p.engine := by
      unfold storePending
      split_ifs <;> rfl
    have hsends : p.sends q.id (.storePending q) = [] :=
      p.sends_of_le (.storePending q) (by rw [step, hengine]) q.id
    rw [hsends]
    refine ⟨r, hfind, hdeclared, .waits ?_ List.not_mem_nil fun _ => rfl⟩
    apply ReadingsRequest.order?_eq_none.1
    cases ho : r.order? with
    | none => rfl
    | some o => rw [ho] at hsent; cases hsent

/-- an operation that spares them hands them over once if they are pending and it is a replay, and else not at all -/
theorem Kept.step (h : p.Kept q sent tried) (hs : Sound p) {op : Op} (hspares : op.spares q.id = true) :
    (p.step op).1.Kept q (sent ++ p.sends q.id op) (tried ++ p.tries q.id op) := by
  obtain ⟨r, hfind, hdeclared, hfate⟩ := h
  by_cases hidle : p.tries q.id op = []
  · obtain ⟨hstays, hsends⟩ := step_idle hs hfind hspares hidle
    rw [hidle, hsends, List.append_nil, List.append_nil]
    exact ⟨r, hstays, hdeclared, hfate⟩
  · have hreplay : op = .replayPending ∧ r.isPending = true := by
      unfold tries at hidle
      split at hidle
      · rename_i q'
        have hne : q'.id ≠ q.id := of_decide_eq_true hspares
        exact absurd (if_neg fun h => hne h.1) hidle
      · refine ⟨rfl, ?_⟩
        by_contra hpending
        exact hidle (if_neg (by rw [hfind]; exact hpending))
      · exact absurd rfl hidle
    obtain ⟨rfl, hpending⟩ := hreplay
    obtain ⟨r', htried⟩ := replay_tried hs hfind hdeclared hpending
    refine ⟨r', htried.kept, htried.declared, ?_⟩
    cases hfate with
    | waits pending refused untried =>
      exact htried.fate refused fun hzero => untried ((congrArg Requirements.period hdeclared).trans hzero)
    | ordered order taken once => rw [ReadingsRequest.order?_eq_none.2 hpending] at order; cases order
    | lost single period refused tries => simp [ReadingsRequest.isPending, single] at hpending

theorem Kept.run (h : p.Kept q sent tried) (hs : Sound p) {ops : List Op}
    (hspares : ∀ op ∈ ops, op.spares q.id = true) :
    (p.run ops).Kept q (sent ++ p.sendsAll q.id ops) (tried ++ p.triesAll q.id ops) := by
  induction ops generalizing p sent tried with
  | nil => rwa [sendsAll, triesAll, List.append_nil, List.append_nil]
  | cons op ops ih =>
    have hfirst := h.step hs (hspares op List.mem_cons_self)
    rw [sendsAll, triesAll, ← List.append_assoc, ← List.append_assoc, run_cons]
    exact ih hfirst (step_sound hs op) fun op' hop' => hspares op' (List.mem_cons_of_mem op hop')

/-- **Refusals.** Take requirements that are accepted in any run of the planner and its engine, to be ordered at once or
by a replay, and any further run that does not withdraw, replace or clear them. They are kept; as many orders were queued
for them as the engine took, which is one at most; and while they are pending nothing was, and a replay hands them over
again, with the answer that the engine gives then. If they ask for a subscription, or were never refused, they are pending
exactly as long as no order was taken, and the order that was is theirs. A single reading that was refused is lost: it
counts as ordered, no order was queued for it, and no replay hands it over again. -/
theorem refusal_outcome (deviceId : String) (timeout : Duration) (policy : Reduction) (before : List Op) (accept : Op)
    (after : List Op) (q : Requirements) (haccept : ((new deviceId timeout policy).run before).Accepts q accept)
    (hspares : ∀ op ∈ after, op.spares q.id = true) :
    let p := (new deviceId timeout policy).run before
    let p' := p.run (accept :: after)
    let sent := p.sendsAll q.id (accept :: after)
    let tried := p.triesAll q.id (accept :: after)
    ∃ r, p'.requests.find? q.id = some r ∧ r.declared = q ∧ sent.length = tried.count true ∧ sent.length ≤ 1 ∧
      (r.isPending = true → sent = [] ∧ p'.tries q.id .replayPending = [p'.engine.isOpen]) ∧
      (q.period ≠ 0 ∨ false ∉ tried → (r.isPending = true ↔ true ∉ tried) ∧ sent = r.order?.toList) ∧
      (q.period = 0 → false ∈ tried → r.subscription = .oneShot ∧ sent = [] ∧ p'.tries q.id .replayPending = []) := by
  intro p p' sent tried
  have hs : Sound p := run_sound (new_sound deviceId timeout policy) before
  obtain ⟨r, hfind, hdeclared, hfate⟩ : p'.Kept q sent tried := (kept_of_accepts haccept).run (step_sound hs accept) hspares
  have hperiod : r.period = q.period := congrArg Requirements.period hdeclared
  have hreplay : p'.tries q.id .replayPending = if r.isPending then [p'.engine.isOpen] else [] := by
    rw [tries, hfind, Option.any_some]
  refine ⟨r, hfind, hdeclared, ?_⟩
  generalize sent = sent at hfate
  generalize tried = tried at hfate
  cases hfate with
  | waits pending refused untried =>
    have hcount : tried.count true = 0 := List.count_eq_zero.2 refused
    refine ⟨hcount.symm, Nat.zero_le 1, fun _ => ⟨rfl, by rw [hreplay, if_pos pending]⟩, fun _ => ⟨?_, ?_⟩, ?_⟩
    · exact iff_of_true pending refused
    · rw [ReadingsRequest.order?_eq_none.2 pending]
      rfl
    · intro hzero hmem
      rw [untried (hperiod.trans hzero)] at hmem
      cases hmem
  | ordered order taken once =>
    have hnot : ¬r.isPending = true := fun hpending => by
      rw [ReadingsRequest.order?_eq_none.2 hpending] at order
      cases order
    have hmem : true ∈ tried := List.count_pos_iff.1 (by omega)
    refine ⟨taken.symm, le_rfl, fun hpending => absurd hpending hnot, fun _ => ⟨?_, ?_⟩, ?_⟩
    · exact iff_of_false hnot fun h => h hmem
    · rw [order]
      rfl
    · exact fun hzero hmem => absurd hmem (once (hperiod.trans hzero))
  | lost single period refused tries =>
    have hnot : ¬r.isPending = true := by simp [ReadingsRequest.isPending, single]
    refine ⟨(List.count_eq_zero.2 refused).symm, Nat.zero_le 1, fun hpending => absurd hpending hnot, ?_, ?_⟩
    · rintro (hsub | hnever)
      · exact absurd (hperiod.symm.trans period) hsub
      · obtain ⟨b, hb⟩ := List.exists_mem_of_ne_nil _ tries
        cases b with
        | true => exact absurd hb refused
        | false => exact absurd hb hnever
    · exact fun _ _ => ⟨single, rfl, by rw [hreplay, if_neg hnot]⟩

/-- an asset is near, and the drive loop has ended -/
def closedDock : List Op :=
  [.assets (Keyed.empty.insert "dock" ⟨"dock", "Dock", none, ⟨0, 0⟩⟩), .reader .process, .reader .shutdown,
    .reader .endLoop]

/-- a subscription is stored and refused by two replays; it waits for a third -/
theorem refusal_outcome_refused_twice :
    let p := (new "node" ⟨500⟩ .mean).run closedDock
    let q : Requirements := ⟨"air", "dock", [.humidity], 5⟩
    let p' := p.run [.storePending q, .replayPending, .replayPending]
    p.triesAll "air" [.storePending q, .replayPending, .replayPending] = [false, false] ∧
      ∃ r, p'.requests.find? "air" = some r ∧ r.isPending = true ∧
        p.sendsAll "air" [.storePending q, .replayPending, .replayPending] = [] ∧
        p'.tries "air" .replayPending = [false] := by
  intro p q p'
  have htries : p.triesAll "air" [.storePending q, .replayPending, .replayPending] = [false, false] := by decide
  obtain ⟨r, hfind, -, -, -, hwaits, hpending, -⟩ :=
    refusal_outcome "node" ⟨500⟩ .mean closedDock (.storePending q) [.replayPending, .replayPending] q
      (Or.inr ⟨rfl, by decide⟩) (by decide)
  have hpending : r.isPending = true := (hpending (Or.inl (by decide))).1.2 (by rw [htries]; decide)
  exact ⟨htries, r, hfind, hpending, (hwaits hpending).1, (hwaits hpending).2⟩

/-- A single reading that is submitted when the drive loop has ended counts as ordered. Nothing was queued for it, and no
replay finds it pending; a subscription stays pending at the same point. -/
theorem refused_once_not_pending :
    let p := (new "node" ⟨500⟩ .mean).run closedDock
    let once : Requirements := ⟨"air", "dock", [.humidity], 0⟩
    let every : Requirements := ⟨"air", "dock", [.humidity], 5⟩
    p.engine.isOpen = false ∧
      ((p.submit once).2.requests.find? "air").map ReadingsRequest.subscription = some .oneShot ∧
      (p.submit once).2.engine.queue = [] ∧ p.sendsAll "air" [.submit once] = [] ∧
      (p.submit once).2.replayPending.1 = 0 ∧
      ((p.submit every).2.requests.find? "air").map ReadingsRequest.subscription = some .pending ∧
      (p.submit every).2.replayPending.1 = 1 := by
  decide

end SensorNode.Planner
