/-
Whose readings are posted. Every delivery ends one cycle: the cycle has started in a turn of the same job, and what has
become of it since is what the sensors of the job have done (`run_underWay`). The job has the order that was placed under
its number, for a request as it was then (`Numbered`). So whatever has become of the request since, a posted record is
about the request that the cycle was started for, and there is one for each delivery that brings readings
(`posted_attributed`).
-/
import SensorNode.Proofs.Planning.Placement
import SensorNode.Proofs.Reading.Harvests

namespace SensorNode

/-- readings are delivered, and there are some -/
def Effect.hasReadings : Effect → Bool
  | .delivered d => !d.readings.isEmpty
  | .started .. => false

/-- readings are delivered to the ledger, and there are some -/
def Effect.posts : Effect → Bool
  | .delivered ⟨_, .ledger .., readings⟩ => !readings.isEmpty
  | _ => false

/-- the record is that of a delivery to the ledger -/
def ReadingsRecord.IsOf (deviceId : String) (record : ReadingsRecord) (effect : Effect) : Prop :=
  record.deviceId = deviceId ∧
    ∃ time, effect = .delivered ⟨time, .ledger record.requirementsId record.assetId, record.values⟩

namespace Planner

variable {p : Planner}

/-! ## Runs and their parts -/

theorem run_append (p : Planner) (ops ops' : List Op) : p.run (ops ++ ops') = (p.run ops).run ops' :=
  List.foldl_append

theorem run_concat (p : Planner) (ops : List Op) (op : Op) : p.run (ops ++ [op]) = ((p.run ops).step op).1 :=
  run_append p ops [op]

theorem log_concat (p : Planner) (ops : List Op) (op : Op) :
    p.log (ops ++ [op]) = p.log ops ++ ((p.run ops).step op).2 := by
  induction ops generalizing p with
  | nil => exact List.append_nil _
  | cons op' ops ih => rw [List.cons_append, log_cons, log_cons, ih, List.append_assoc, run_cons]

/-- a job goes on -/
def Op.turn (name : Nat) : Op := .reader (.advance name)

/-- what the sensors of a job do in an operation -/
def Op.sensed (name : Nat) : Op → List (Nat × Cycle.Event)
  | .reader m => (Engine.Op.move m).sensed name
  | _ => []

/-- what they do in a run -/
def sensed (name : Nat) (ops : List Op) : List (Nat × Cycle.Event) := ops.flatMap (Op.sensed name)

/-- only the engine shows anything -/
theorem step_silent (p : Planner) {op : Op} (hop : ∀ m, op ≠ .reader m) : (p.step op).2 = [] := by
  cases op with
  | reader m => exact absurd rfl (hop m)
  | _ => rfl

/-- what is to be seen has been done by a job in a turn -/
theorem mem_log (p : Planner) {ops : List Op} {x : Engine.Entry} (hx : x ∈ p.log ops) :
    ∃ pre post, ops = pre ++ .turn x.job :: post ∧ x ∈ (p.run pre).engine.entries x.job := by
  induction ops generalizing p with
  | nil => cases hx
  | cons op ops ih =>
    rw [log_cons] at hx
    rcases List.mem_append.1 hx with hx | hx
    · cases op with
      | reader m =>
        obtain ⟨hm, hx⟩ := (Engine.mem_step_log hx : Engine.Op.move m = _ ∧ _)
        exact ⟨[], ops, by rw [Engine.Op.move.inj hm]; rfl, hx⟩
      | _ => cases hx
    · obtain ⟨pre, post, hops, hx⟩ := ih _ hx
      exact ⟨op :: pre, post, congrArg _ hops, hx⟩

theorem step_policy (p : Planner) (op : Op) : (p.step op).1.engine.policy = p.engine.policy := by
  by_cases hop : ∀ m, op ≠ .reader m
  · obtain ⟨flags, subscriptions, queue, h⟩ := step_rebooked hop
    rw [h]
  · obtain ⟨m, rfl⟩ : ∃ m, op = .reader m := by simpa using hop
    obtain ⟨posted, postings, h⟩ := step_reader p m
    rw [h]
    exact Engine.step_policy p.engine (.move m)

theorem run_policy (p : Planner) (ops : List Op) : (p.run ops).engine.policy = p.engine.policy := by
  induction ops generalizing p with
  | nil => rfl
  | cons op ops ih => exact (ih _).trans (step_policy p op)

/-! ## The cycles of deliveries -/

/-- A cycle for this order starts in the turn of the job that comes after `pre`, and in `mid`, which follows, nothing is
to be seen of the job. -/
structure Begins (p : Planner) (name : Nat) (order : Order) (pre mid : List Op) : Prop where
  start : (p.run pre).engine.entries name = [⟨(p.run pre).engine.now, name, order,
    .started order ((p.run pre).engine.eligible order.metrics)⟩]
  silent : ((p.run (pre ++ [.turn name])).log mid).filter (·.job = name) = []

/-- the cycle for this order that starts after `pre`, once the sensors of the job have done what they do in `mid` -/
def cycleAfter (p : Planner) (name : Nat) (order : Order) (pre mid : List Op) : Cycle :=
  ((p.run pre).engine.fresh order.metrics).run (sensed name mid)

/-- what `x` delivers are the readings of this cycle -/
inductive Concludes (p : Planner) (ops : List Op) (x : Engine.Entry) : Cycle → Prop
  /-- the cycle has started in an earlier turn of the job, and nothing else has been seen of the job since -/
  | later (pre mid post : List Op) (split : ops = pre ++ .turn x.job :: mid ++ .turn x.job :: post)
    (begins : p.Begins x.job x.order pre mid)
    (turn : (p.run (pre ++ .turn x.job :: mid)).engine.entries x.job = [x]) :
    Concludes p ops x (p.cycleAfter x.job x.order pre mid)
  /-- the cycle ends in the turn in which it starts -/
  | atOnce (pre post : List Op) (split : ops = pre ++ .turn x.job :: post)
    (turn : (p.run pre).engine.entries x.job = [⟨(p.run pre).engine.now, x.job, x.order,
      .started x.order ((p.run pre).engine.eligible x.order.metrics)⟩, x]) :
    Concludes p ops x (p.cycleAfter x.job x.order pre [])

theorem step_turn (p : Planner) (name : Nat) :
    (p.step (.turn name)).1.engine = (p.engine.advance name).1 ∧ (p.step (.turn name)).2 = p.engine.entries name := by
  obtain ⟨posted, postings, h⟩ := step_reader p (.advance name)
  exact ⟨congrArg Planner.engine h, rfl⟩

/-- an operation that is not a turn of the job shows nothing of it and leaves its cycle to the sensors -/
theorem step_underWay?_of_ne (hr : p.engine.Regular) {op : Op} {name : Nat} (hop : op ≠ .turn name) :
    (p.step op).1.engine.underWay? name =
        (p.engine.underWay? name).map (fun x => (x.1, x.2.run (op.sensed name))) ∧
      (p.step op).2.filter (·.job = name) = [] := by
  by_cases hreader : ∀ m, op ≠ .reader m
  · have hsensed : op.sensed name = [] := by
      cases op with
      | reader m => exact absurd rfl (hreader m)
      | _ => rfl
    obtain ⟨flags, subscriptions, queue, h⟩ := step_rebooked hreader
    rw [h, hsensed, step_silent p hreader]
    exact ⟨(Option.map_id' (x := p.engine.underWay? name)).symm, rfl⟩
  · obtain ⟨m, rfl⟩ : ∃ m, op = .reader m := by simpa using hreader
    have hm : m ≠ .advance name := fun h => hop (congrArg Op.reader h)
    obtain ⟨posted, postings, h⟩ := step_reader p m
    refine ⟨?_, Engine.filter_step_log_of_ne p.engine (.move m) name fun h => hm (Engine.Op.move.inj h)⟩
    rw [h]
    exact Engine.move_underWay? hr m hm

/-- the cycle has started in the last turn of the job of which anything was seen -/
def Begun (p : Planner) (ops : List Op) (name : Nat) (order : Order) (c : Cycle) : Prop :=
  ∃ pre mid, ops = pre ++ .turn name :: mid ∧ p.Begins name order pre mid ∧ c = p.cycleAfter name order pre mid

/-- an operation that shows nothing of the job leaves its cycle to the sensors -/
theorem Begun.concat {ops : List Op} {name : Nat} {order : Order} {c : Cycle} (h : p.Begun ops name order c) {op : Op}
    (hnone : ((p.run ops).step op).2.filter (·.job = name) = []) :
    p.Begun (ops ++ [op]) name order (c.run (op.sensed name)) := by
  obtain ⟨pre, mid, hops, ⟨hstart, hsilent⟩, rfl⟩ := h
  have hrun : (p.run (pre ++ [.turn name])).run mid = p.run ops := by rw [← run_append, hops]; simp
  have hlog : ((p.run (pre ++ [.turn name])).log (mid ++ [op])).filter (·.job = name) = [] := by
    rw [log_concat, List.filter_append, hsilent, hrun, hnone, List.append_nil]
  have hsensed : sensed name (mid ++ [op]) = sensed name mid ++ op.sensed name := by
    rw [sensed, List.flatMap_append, List.flatMap_singleton]
    rfl
  refine ⟨pre, mid ++ [op], by rw [hops]; simp, ⟨hstart, hlog⟩, ?_⟩
  calc (p.cycleAfter name order pre mid).run (op.sensed name)
      = ((p.run pre).engine.fresh order.metrics).run (sensed name mid ++ op.sensed name) := List.foldl_append.symm
    _ = p.cycleAfter name order pre (mid ++ [op]) := by rw [cycleAfter, hsensed]

/-- a cycle that is under way after a turn was so before, or starts in the turn -/
theorem turn_underWay? {name : Nat} {order : Order} {c : Cycle}
    (h : (p.step (.turn name)).1.engine.underWay? name = some (order, c)) :
    (p.engine.underWay? name = some (order, c) ∧ (p.step (.turn name)).2 = []) ∨
      p.engine.entries name = [⟨p.engine.now, name, order, .started order (p.engine.eligible order.metrics)⟩] ∧
        c = p.engine.fresh order.metrics := by
  obtain ⟨hengine, hlog⟩ := step_turn p name
  rw [hengine] at h
  rw [hlog]
  cases hj : p.engine.jobs.find? name with
  | none =>
    rw [Engine.advance_of_none _ name hj, Engine.underWay?_of_none hj] at h
    cases h
  | some job =>
    have hharvest := Engine.advance_harvest hj
    rw [Engine.entries_of_find? hj]
    rw [h] at hharvest
    generalize (p.engine.advance name).2 = effects at hharvest
    generalize hcycle : some (order, c) = cycle at hharvest
    cases hharvest with
    | rests same =>
      subst hcycle
      exact Or.inl ⟨(same.resolve_left (by simp)).symm, rfl⟩
    | starts =>
      obtain ⟨rfl, rfl⟩ := Prod.mk.inj (Option.some.inj hcycle)
      exact Or.inr ⟨rfl, rfl⟩
    | ends => cases hcycle
    | passes => cases hcycle

/-- whatever cycle is under way has begun in the run -/
theorem run_underWay (hs : Sound p) (hidle : ∀ name, p.engine.underWay? name = none) (ops : List Op) {name : Nat}
    {order : Order} {c : Cycle} (h : (p.run ops).engine.underWay? name = some (order, c)) :
    p.Begun ops name order c := by
  induction ops using List.reverseRecOn generalizing order c with
  | nil => exact absurd (h.symm.trans (hidle name)) (by simp)
  | append_singleton ops op ih =>
    rw [run_concat] at h
    by_cases hop : op = .turn name
    · subst hop
      rcases turn_underWay? h with ⟨hbefore, hnone⟩ | ⟨hstart, rfl⟩
      · exact (ih hbefore).concat (by rw [hnone]; rfl)
      · exact ⟨ops, [], rfl, ⟨hstart, rfl⟩, rfl⟩
    · obtain ⟨hstep, hnone⟩ := step_underWay?_of_ne (run_sound hs ops).regular hop
      rw [hstep] at h
      obtain ⟨⟨order', c₀⟩, hbefore, he⟩ := Option.map_eq_some_iff.1 h
      obtain ⟨rfl, rfl⟩ := Prod.mk.inj he
      exact (ih hbefore).concat hnone

/-- every delivery is of the readings of one cycle, and goes to the recipient of the order -/
theorem delivered_concludes (hs : Sound p) (hidle : ∀ name, p.engine.underWay? name = none) {ops : List Op}
    {x : Engine.Entry} (hx : x ∈ p.log ops) {d : Delivery} (hd : x.effect = .delivered d) :
    ∃ c, p.Concludes ops x c ∧ d.recipient = x.order.recipient ∧ d.readings = c.readings p.engine.policy := by
  obtain ⟨pre, post, hops, hturn⟩ := p.mem_log hx
  rcases Engine.delivered_of_mem_entries hturn hd with ⟨c, hunder, hentries, rfl⟩ | ⟨hentries, rfl⟩
  · obtain ⟨pre', mid, rfl, hbegins, rfl⟩ := run_underWay hs hidle pre hunder
    exact ⟨_, .later pre' mid post hops hbegins hentries, rfl, by rw [run_policy]⟩
  · exact ⟨_, .atOnce pre post hops hentries, rfl, by rw [run_policy]; rfl⟩

/-- a cycle has readings only of the metrics of its order -/
theorem Concludes.mem_of_readings {ops : List Op} {x : Engine.Entry} {c : Cycle} (h : p.Concludes ops x c)
    {policy : Reduction} {m : Metric} (hm : m ∈ (c.readings policy).keys) : m ∈ x.order.metrics := by
  cases h <;> exact Cycle.mem_of_readings hm

/-- what is seen of a job is for the order that was placed under its number -/
theorem log_placed (hn : Numbered [] p.engine) {ops : List Op} {x : Engine.Entry} (hx : x ∈ p.log ops) :
    ∃ y, (p.placements ops)[x.job]? = some y ∧ y.order = x.order ∧ y.Fits := by
  obtain ⟨pre, post, rfl, hturn⟩ := p.mem_log hx
  obtain ⟨job, hj, -, -, horder, -⟩ := Engine.mem_entries hturn
  have hplaced : ((p.placements pre)[x.job]?).map Placement.order = some job.order :=
    (run_numbered hn pre).jobs x.job job hj
  obtain ⟨y, hy, hyorder⟩ := Option.map_eq_some_iff.1 hplaced
  refine ⟨y, ?_, hyorder.trans horder.symm, placements_fit p pre y (List.mem_of_getElem? hy)⟩
  rw [placements_append, List.getElem?_append_left (List.getElem?_eq_some_iff.1 hy).1]
  exact hy

/-! ## What is posted -/

/-- only the engine and a new link concern what is posted, and nothing concerns who posts it -/
theorem step_link {op : Op} (hreader : ∀ m, op ≠ .reader m) (hlink : ∀ link, op ≠ .link link) :
    (p.step op).1.link = p.link ∧ (p.step op).1.deviceId = p.deviceId := by
  cases op with
  | submit q =>
    obtain ⟨engine, requests, h⟩ := submit_eq p q
    simp only [step, h, and_self]
  | withdraw id =>
    obtain ⟨engine, requests, h⟩ := withdraw_eq p id
    simp only [step, h, and_self]
  | storePending q => simp only [step, storePending]; split_ifs <;> exact ⟨rfl, rfl⟩
  | replayPending =>
    obtain ⟨engine, requests, h⟩ := enlistAll_eq p p.requests.pending
    simp only [step, replayPending, h, and_self]
  | cancelAll =>
    obtain ⟨flags, h⟩ := cancelRequests_eq p p.requests.values
    simp only [step, cancelAll, h, and_self]
  | clear =>
    obtain ⟨flags, h⟩ := cancelRequests_eq { p with requests := ∅ } p.requests.values
    simp only [step, clear, h, and_self]
  | link link => exact absurd rfl (hlink link)
  | reader m => exact absurd rfl (hreader m)
  | _ => exact ⟨rfl, rfl⟩

/-- these records have been posted, those of the deliveries to the ledger that have readings -/
def Posts (p p' : Planner) (entries : List Engine.Entry) : Prop :=
  ∃ records, p'.link.ledger.posted = p.link.ledger.posted ++ records ∧
    List.Forall₂ (fun record x => record.IsOf p.deviceId x.effect) records (entries.filter fun x => x.effect.posts)

theorem Posts.trans {p p' p'' : Planner} {entries entries' : List Engine.Entry} (h : p.Posts p' entries)
    (hdevice : p'.deviceId = p.deviceId) (h' : p'.Posts p'' entries') : p.Posts p'' (entries ++ entries') := by
  obtain ⟨records, hposted, hof⟩ := h
  obtain ⟨records', hposted', hof'⟩ := h'
  rw [hdevice] at hof'
  refine ⟨records ++ records', by rw [hposted', hposted, List.append_assoc], ?_⟩
  rw [List.filter_append]
  exact List.rel_append hof hof'

/-- one delivery is posted if it is for the ledger and has readings -/
theorem receiveAll_posts_one (hup : p.link.outages.find? .post = none) (x : Engine.Entry) :
    p.Posts (p.receiveAll [x.effect]) [x] := by
  obtain ⟨time, job, order, effect⟩ := x
  have nothing : effect.posts = false → p.receiveAll [effect] = p →
      p.Posts (p.receiveAll [effect]) [⟨time, job, order, effect⟩] := by
    intro hposts hsame
    refine ⟨[], by rw [hsame, List.append_nil], ?_⟩
    rw [List.filter_cons_of_neg (by simp [hposts])]
    exact .nil
  cases effect with
  | started order' sensors => exact nothing rfl rfl
  | delivered d =>
    obtain ⟨time', recipient, readings⟩ := d
    cases recipient with
    | listener label hold => exact nothing rfl rfl
    | ledger requirementsId assetId =>
      cases hempty : readings.isEmpty with
      | true =>
        refine nothing (by simp [Effect.posts, hempty]) ?_
        simp [receiveAll, receive, hempty]
      | false =>
        refine ⟨[p.record requirementsId assetId ⟨time', .ledger requirementsId assetId, readings⟩], ?_, ?_⟩
        · simp [receiveAll, receive, hempty, LedgerLink.post, LedgerLink.attempt, hup, Ledger.post]
        · rw [List.filter_cons_of_pos (by simp [Effect.posts, hempty])]
          exact .cons ⟨rfl, time', rfl⟩ .nil

theorem receiveAll_posts (hup : p.link.outages.find? .post = none) (entries : List Engine.Entry) :
    p.Posts (p.receiveAll (entries.map Engine.Entry.effect)) entries := by
  induction entries generalizing p with
  | nil => exact ⟨[], (List.append_nil _).symm, .nil⟩
  | cons x entries ih =>
    have hone := receiveAll_posts_one hup x
    obtain ⟨posted, postings, h⟩ := receiveAll_eq p [x.effect]
    exact hone.trans (by rw [h]) (ih (by rw [h]; exact hup))

/-- a link that changes goes on taking records and has those that it had -/
def KeepsPosts (p : Planner) : Op → Prop
  | .link link => link.outages.find? .post = none ∧ link.ledger.posted = p.link.ledger.posted
  | _ => True

/-- the ledger takes what is posted, and nobody but the planner posts to it -/
def TakesPosts (p : Planner) : List Op → Prop
  | [] => True
  | op :: ops => p.KeepsPosts op ∧ (p.step op).1.TakesPosts ops

theorem step_posts (hup : p.link.outages.find? .post = none) {op : Op} (hop : p.KeepsPosts op) :
    (p.step op).1.link.outages.find? .post = none ∧ (p.step op).1.deviceId = p.deviceId ∧
      p.Posts (p.step op).1 (p.step op).2 := by
  by_cases hreader : ∃ m, op = .reader m
  · obtain ⟨m, rfl⟩ := hreader
    obtain ⟨posted, postings, h⟩ := step_reader p m
    refine ⟨by rw [h]; exact hup, by rw [h], ?_⟩
    exact receiveAll_posts (p := { p with engine := (p.engine.move m).1 }) hup (p.engine.move m).2
  have hreader : ∀ m, op ≠ .reader m := fun m h => hreader ⟨m, h⟩
  have nothing : (p.step op).1.link.ledger.posted = p.link.ledger.posted → p.Posts (p.step op).1 (p.step op).2 := by
    intro hposted
    rw [step_silent p hreader]
    exact ⟨[], by rw [hposted, List.append_nil], .nil⟩
  by_cases hnew : ∃ link, op = .link link
  · obtain ⟨link, rfl⟩ := hnew
    exact ⟨hop.1, rfl, nothing hop.2⟩
  · obtain ⟨hsame, hdevice⟩ := step_link (p := p) hreader fun link h => hnew ⟨link, h⟩
    exact ⟨by rw [hsame]; exact hup, hdevice, nothing (by rw [hsame])⟩

/-- the records of a run are those of its deliveries to the ledger that have readings, one of each -/
theorem run_posts (hup : p.link.outages.find? .post = none) {ops : List Op} (h : p.TakesPosts ops) :
    p.Posts (p.run ops) (p.log ops) := by
  induction ops generalizing p with
  | nil => exact ⟨[], (List.append_nil _).symm, .nil⟩
  | cons op ops ih =>
    obtain ⟨hup', hdevice, hposts⟩ := step_posts hup h.1
    exact hposts.trans hdevice (ih hup' h.2)

/-! ## Whose readings they are -/

/-- the completed deliveries of a run that are for activated requests and have readings -/
def fruitful (p : Planner) (ops : List Op) : List Engine.Entry :=
  (p.log ops).filter fun x =>
    x.effect.hasReadings && ((p.placements ops)[x.job]?.bind Placement.request).isSome

/-- The record is of a delivery for this request, as it was when the order of the job was placed for it: it is about the
request, and its values are the readings of the cycle that the delivery concludes. -/
structure Attributes (p : Planner) (ops : List Op) (record : ReadingsRecord) (x : Engine.Entry)
    (r : ReadingsRequest) (c : Cycle) : Prop where
  placed : (p.placements ops)[x.job]? = some ⟨x.order, some r⟩
  concluded : p.Concludes ops x c
  device : record.deviceId = p.deviceId
  requirements : record.requirementsId = r.id
  asset : record.assetId = r.assetId
  values : record.values = c.readings p.engine.policy
  metrics : ∀ m ∈ record.values.keys, m ∈ r.metrics

/-- a delivery is posted just if it is for an activated request and has readings -/
theorem posts_iff (hs : Sound p) (hidle : ∀ name, p.engine.underWay? name = none) (hn : Numbered [] p.engine)
    {ops : List Op} {x : Engine.Entry} (hx : x ∈ p.log ops) :
    x.effect.posts = (x.effect.hasReadings && ((p.placements ops)[x.job]?.bind Placement.request).isSome) := by
  obtain ⟨⟨order, request⟩, hy, rfl, hfits⟩ := log_placed hn hx
  rw [hy]
  cases heffect : x.effect with
  | started order sensors => rfl
  | delivered d =>
    obtain ⟨c, -, hrecipient, -⟩ := delivered_concludes hs hidle hx heffect
    obtain ⟨time, recipient, readings⟩ := d
    obtain rfl : recipient = x.order.recipient := hrecipient
    cases request with
    | none =>
      obtain ⟨label, hold, hlistener⟩ := hfits
      rw [hlistener]
      exact (Bool.and_false _).symm
    | some r =>
      rw [(ReadingsRequest.of_order? hfits).2]
      exact (Bool.and_true _).symm

/-- the record of a delivery is attributed to the request that the order of the job was placed for -/
theorem attributed_of_isOf (hs : Sound p) (hidle : ∀ name, p.engine.underWay? name = none) (hn : Numbered [] p.engine)
    {ops : List Op} {x : Engine.Entry} (hx : x ∈ p.fruitful ops) {record : ReadingsRecord}
    (hrecord : record.IsOf p.deviceId x.effect) : ∃ r c, p.Attributes ops record x r c := by
  obtain ⟨hlog, hfruitful⟩ := List.mem_filter.1 hx
  obtain ⟨hdevice, time, heffect⟩ := hrecord
  obtain ⟨⟨order, request⟩, hy, rfl, hfits⟩ := log_placed hn hlog
  obtain ⟨c, hconcluded, hrecipient, hvalues⟩ := delivered_concludes hs hidle hlog heffect
  cases request with
  | none => simp [hy] at hfruitful
  | some r =>
    obtain ⟨hmetrics, hledger⟩ := ReadingsRequest.of_order? hfits
    obtain ⟨hid, hasset⟩ := Recipient.ledger.inj (hrecipient.trans hledger)
    refine ⟨r, c, hy, hconcluded, hdevice, hid, hasset, hvalues, fun m hm => ?_⟩
    have hvalues : record.values = c.readings p.engine.policy := hvalues
    rw [hvalues] at hm
    rw [← hmetrics]
    exact hconcluded.mem_of_readings hm

/-- The records of a ledger that takes them are, one of each, those of the completed deliveries that are for activated
requests and have readings. Each is attributed to the request that the cycle was started for, as it was when it was
activated, whatever has become of the request since. -/
theorem posted_attributed (deviceId : String) (timeout : Duration) (policy : Reduction) (ops : List Op)
    (h : (new deviceId timeout policy).TakesPosts ops) :
    let p := new deviceId timeout policy
    List.Forall₂ (fun record x => ∃ r c, p.Attributes ops record x r c) (p.run ops).link.ledger.posted
      (p.fruitful ops) := by
  intro p
  have hs : Sound p := new_sound deviceId timeout policy
  have hidle : ∀ name, p.engine.underWay? name = none := fun name => rfl
  have hn : Numbered [] p.engine := new_numbered timeout policy
  obtain ⟨records, hposted, hof⟩ := run_posts (p := p) rfl h
  have hfruitful : (p.log ops).filter (fun x => x.effect.posts) = p.fruitful ops :=
    List.filter_congr fun x hx => posts_iff hs hidle hn hx
  obtain rfl : (p.run ops).link.ledger.posted = records := hposted
  rw [hfruitful] at hof
  obtain ⟨hlength, hzip⟩ := List.forall₂_iff_zip.1 hof
  exact List.forall₂_iff_zip.2 ⟨hlength, fun hmem =>
    attributed_of_isOf hs hidle hn (List.of_mem_zip hmem).2 (hzip hmem)⟩

/-- requirements are changed while a cycle for them is under way -/
def changedInFlight : List Op :=
  let probe : Sensor := ⟨0, "probe", [.humidity]⟩
  let dock : Asset := ⟨"dock", "Dock", none, ⟨0, 0⟩⟩
  let yard : Asset := ⟨"yard", "Yard", none, ⟨0, 0⟩⟩
  [.link ⟨.new, Keyed.empty.insert .queryDevice "down"⟩,
    .reader (.sense 0 [] [] [.scripted probe [] false false true]), .reader (.pool (.ofSensors [probe])),
    .assets ((Keyed.empty.insert dock.id dock).insert yard.id yard), .submit ⟨"air", "dock", [.humidity], 5⟩, .reader .process, .reader .dispatch, .turn 0,
    .reader (.wait ⟨5000⟩), .turn 0, .submit ⟨"air", "yard", [.humidity], 5⟩,
    .reader (.sense 0 [(0, .write .humidity ⟨0x4044000000000000⟩), (0, .returned)] [] []), .turn 0]

theorem posted_attributed_changed_in_flight :
    (new "node" ⟨500⟩ .mean).TakesPosts changedInFlight ∧
      (((new "node" ⟨500⟩ .mean).run changedInFlight).requests.find? "air").map ReadingsRequest.assetId = some "yard" ∧
      ((new "node" ⟨500⟩ .mean).run changedInFlight).link.ledger.posted.map ReadingsRecord.assetId = ["dock"] ∧
      List.Forall₂ (fun record x => ∃ r c, (new "node" ⟨500⟩ .mean).Attributes changedInFlight record x r c)
        ((new "node" ⟨500⟩ .mean).run changedInFlight).link.ledger.posted
        ((new "node" ⟨500⟩ .mean).fruitful changedInFlight) := by
  have htakes : (new "node" ⟨500⟩ .mean).TakesPosts changedInFlight := by
    simp only [changedInFlight, TakesPosts, KeepsPosts, Op.turn, and_true]
    exact ⟨rfl, rfl⟩
  exact ⟨htakes, by decide, by decide, posted_attributed "node" ⟨500⟩ .mean changedInFlight htakes⟩

end Planner

end SensorNode
