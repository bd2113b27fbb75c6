/-
What submitting and withdrawing do to the requests of the planner. Both give up what is under an id and cancel what it
held (`Drops`); submitting then orders what is accepted, with a handle that nobody has had (`Adds`, `submit_replaces`). As
long as all handles that are held or cancelled have been issued (`Accounted`), what a request holds is live and its own
until the request is replaced in its turn (`Replaces.owns_new`, `Replaces.owns`).
-/
import SensorNode.Proofs.Planning.Activation

namespace SensorNode

/-- the request that requirements become when an engine takes their order -/
def Requirements.ordered (q : Requirements) (e : Engine) : ReadingsRequest :=
  ⟨q.id, q.assetId, q.metrics, q.period, if q.period = 0 then .oneShot else .periodic ⟨e.flags.issued⟩⟩

/-- the handle that a request holds -/
def ReadingsRequest.handle? (r : ReadingsRequest) : Option CancelHandle :=
  match r.subscription with
  | .periodic h => some h
  | _ => none

theorem ReadingsRequest.handle?_eq_some {r : ReadingsRequest} {h : CancelHandle} :
    r.handle? = some h ↔ r.subscription = .periodic h := by
  unfold handle?
  split
  · rename_i h' hh
    rw [hh, Option.some.injEq, Subscription.periodic.injEq]
  · rename_i hnot
    constructor
    · exact fun hnone => by cases hnone
    · exact fun hh => absurd hh (hnot h)

namespace Planner

variable {p w p' : Planner} {id : String} {q : Requirements}

/-- the handle is held by the request under this id -/
def Has (p : Planner) (id : String) (h : CancelHandle) : Prop :=
  ∃ r, p.requests.find? id = some r ∧ r.subscription = .periodic h

/-- the requests with this id are given up: what they held is cancelled, and nothing is ordered -/
structure Drops (id : String) (p w : Planner) : Prop where
  requests : ∀ id', w.requests.find? id' = if id' = id then none else p.requests.find? id'
  cancelled : ∀ h, w.engine.flags.isCancelled h = true ↔ p.engine.flags.isCancelled h = true ∨ p.Has id h
  issued : w.engine.flags.issued = p.engine.flags.issued
  table : w.engine.subscriptions = p.engine.subscriptions
  queue : w.engine.queue = p.engine.queue

/-- a request is kept and becomes one order, with a new handle if it holds one, and nothing is cancelled -/
structure Adds (r : ReadingsRequest) (w p' : Planner) : Prop where
  fresh : ∀ h, r.handle? = some h → h.flag = w.engine.flags.issued
  requests : ∀ id', p'.requests.find? id' = if id' = r.id then some r else w.requests.find? id'
  cancelled : ∀ h, p'.engine.flags.isCancelled h = w.engine.flags.isCancelled h
  issued : p'.engine.flags.issued = w.engine.flags.issued + r.handle?.toList.length
  table : p'.engine.subscriptions = w.engine.subscriptions ++ r.handle?.toList
  queue : p'.engine.queue = w.engine.queue ++ r.order?.toList

/-- the requests with this id are given up, and after that the request that was accepted is ordered, if one was -/
def Replaces (id : String) (accepted : Option ReadingsRequest) (p p' : Planner) : Prop :=
  match accepted with
  | none => Drops id p p'
  | some r => ∃ w, Drops id p w ∧ Adds r w p'

/-- what is cancelled when the requests with this id are given up -/
theorem withdraw_isCancelled (p : Planner) (id : String) (h : CancelHandle) :
    (p.withdraw id).2.engine.flags.isCancelled h = true ↔ p.engine.flags.isCancelled h = true ∨ p.Has id h := by
  unfold withdraw Has
  cases hfind : p.requests.find? id with
  | none => simp
  | some r =>
    dsimp only
    rcases cancelRequest_cases { p with requests := p.requests.erase id } r with ⟨hnot, hp⟩ | ⟨h', hh', hp⟩ <;> rw [hp]
    · exact ⟨Or.inl, fun hc => hc.resolve_right fun ⟨r', hr', hh⟩ => hnot h (Option.some.inj hr' ▸ hh)⟩
    · simp only [Engine.cancel, CancelFlags.isCancelled_cancel, Bool.or_eq_true, beq_iff_eq, Option.some.injEq,
        exists_eq_left', hh', Subscription.periodic.injEq]
      exact or_comm.trans (or_congr_right eq_comm)

theorem withdraw_drops (p : Planner) (id : String) : Drops id p (p.withdraw id).2 := by
  refine ⟨withdraw_find? p id, withdraw_isCancelled p id, ?_, ?_, withdraw_queue p id⟩
  · unfold withdraw cancelRequest ReadingsRequest.cancel
    repeat' split
    · exact CancelFlags.issued_cancel ..
    · rfl
    · rfl
  · unfold withdraw
    split <;> rfl

/-- ordering a request comes to one order, as long as orders are taken -/
theorem enlist_adds (hopen : p.engine.isOpen = true) (r : ReadingsRequest) :
    Adds (p.activate r).1 p (p.enlist r).2 := by
  have hrequests := enlist_find? p r
  rw [← activate_id p r] at hrequests
  have hqueue := (activate_of_open hopen r).2.2
  by_cases hperiod : r.period = 0
  · have hflags : (p.enlist r).2.engine.flags = p.engine.flags ∧
        (p.enlist r).2.engine.subscriptions = p.engine.subscriptions := by
      unfold enlist
      rw [activate_once p hperiod, Engine.sendOnce, if_pos hopen]
      exact ⟨rfl, rfl⟩
    have hnone : (p.activate r).1.handle? = none := by rw [activate_once p hperiod]; rfl
    refine ⟨?_, hrequests, ?_, ?_, ?_, hqueue⟩
    · exact fun h hh => by rw [hnone] at hh; cases hh
    · exact fun h => by rw [hflags.1]
    · rw [hflags.1, hnone]
      rfl
    · rw [hflags.2, hnone]
      exact (List.append_nil _).symm
  · have hactivate := activate_periodic hopen hperiod
    refine ⟨?_, hrequests, ?_, ?_, ?_, hqueue⟩
    · intro h hh
      rw [hactivate] at hh
      rw [← Option.some.inj hh]
    · intro h
      unfold enlist
      rw [hactivate]
      rfl
    · unfold enlist
      rw [hactivate]
      rfl
    · unfold enlist
      rw [hactivate]
      rfl

theorem activate_ofRequirements (hopen : p.engine.isOpen = true) (q : Requirements) :
    (p.activate (.ofRequirements q)).1 = q.ordered p.engine := by
  unfold Requirements.ordered
  by_cases hperiod : q.period = 0
  · rw [activate_once p hperiod, if_pos hperiod]
    rfl
  · rw [activate_periodic hopen hperiod, if_neg hperiod]
    rfl

/-- Submitting gives up what is under the id, whether the asset is kept or not, and orders what is accepted. -/
theorem submit_replaces (hopen : p.engine.isOpen = true) (q : Requirements) :
    (p.submit q).1 = (if p.assets.contains q.assetId then some (q.ordered p.engine) else none) ∧
      Replaces q.id (p.submit q).1 p (p.submit q).2 := by
  have hdrops := withdraw_drops p q.id
  have hopen' : (p.withdraw q.id).2.engine.isOpen = true := (withdraw_rebooked p q.id).isOpen.trans hopen
  have hassets : (p.withdraw q.id).2.assets = p.assets := by
    obtain ⟨engine, requests, hwithdraw⟩ := withdraw_eq p q.id
    rw [hwithdraw]
  have hrequest : ((p.withdraw q.id).2.activate (.ofRequirements q)).1 = q.ordered p.engine := by
    rw [activate_ofRequirements hopen', Requirements.ordered, hdrops.issued]
    rfl
  unfold submit
  dsimp only
  rw [hassets]
  split_ifs
  · exact ⟨congrArg some hrequest, _, hdrops, enlist_adds hopen' (.ofRequirements q)⟩
  · exact ⟨rfl, hdrops⟩

/-! ## Handles -/

/-- every handle that is held or cancelled has been issued -/
structure Accounted (p : Planner) : Prop where
  held : ∀ id h, p.Has id h → h.flag < p.engine.flags.issued
  cancelled : ∀ h, p.engine.flags.isCancelled h = true → h.flag < p.engine.flags.issued

/-- the handle is live, and nothing but the request under this id has it -/
structure Owns (p : Planner) (id : String) (h : CancelHandle) : Prop where
  issued : h.flag < p.engine.flags.issued
  live : p.IsLive h
  alone : ∀ id', p.Has id' h → id' = id

theorem Drops.of_eq (hd : Drops id p w) {p₀ : Planner} (hrequests : p₀.requests = p.requests)
    (hengine : p₀.engine = p.engine) : Drops id p₀ w := by
  obtain ⟨hfind, hcancelled, hissued, htable, hqueue⟩ := hd
  unfold Has at hcancelled
  rw [← hrequests] at hfind hcancelled
  rw [← hengine] at hcancelled hissued htable hqueue
  exact ⟨hfind, hcancelled, hissued, htable, hqueue⟩

theorem Drops.has (hd : Drops id p w) {id' : String} {h : CancelHandle} (hhas : w.Has id' h) :
    id' ≠ id ∧ p.Has id' h := by
  obtain ⟨r, hr, hh⟩ := hhas
  rw [hd.requests] at hr
  split_ifs at hr with hid
  exact ⟨hid, r, hr, hh⟩

theorem Adds.has {r : ReadingsRequest} (ha : Adds r w p') {id' : String} {h : CancelHandle} (hhas : p'.Has id' h) :
    id' = r.id ∧ r.handle? = some h ∨ w.Has id' h := by
  obtain ⟨r', hr', hh⟩ := hhas
  rw [ha.requests] at hr'
  split_ifs at hr' with hid
  · obtain rfl := Option.some.inj hr'
    exact Or.inl ⟨hid, ReadingsRequest.handle?_eq_some.2 hh⟩
  · exact Or.inr ⟨r', hr', hh⟩

theorem Drops.accounted (hd : Drops id p w) (hp : p.Accounted) : w.Accounted where
  held id' h hhas := hd.issued ▸ hp.held id' h (hd.has hhas).2
  cancelled h hc := hd.issued ▸ ((hd.cancelled h).1 hc).elim (hp.cancelled h) (hp.held id h)

theorem Drops.owns (hd : Drops id p w) {id' : String} (hne : id' ≠ id) {h : CancelHandle} (ho : p.Owns id' h) :
    w.Owns id' h where
  issued := hd.issued ▸ ho.issued
  live := by
    refine ⟨hd.table ▸ ho.live.1, Bool.eq_false_iff.2 fun hc => ?_⟩
    rcases (hd.cancelled h).1 hc with hc | hhas
    · exact absurd (hc.symm.trans ho.live.2) (by decide)
    · exact hne (ho.alone id hhas).symm
  alone id'' hhas := ho.alone id'' (hd.has hhas).2

theorem Adds.issued_le {r : ReadingsRequest} (ha : Adds r w p') : w.engine.flags.issued ≤ p'.engine.flags.issued :=
  ha.issued ▸ Nat.le_add_right ..

theorem Adds.issued_new {r : ReadingsRequest} (ha : Adds r w p') {h : CancelHandle} (hh : r.handle? = some h) :
    h.flag < p'.engine.flags.issued := by
  rw [ha.issued, ha.fresh h hh, hh]
  exact Nat.lt_succ_self _

theorem Adds.accounted {r : ReadingsRequest} (ha : Adds r w p') (hw : w.Accounted) : p'.Accounted where
  held id' h hhas := by
    rcases ha.has hhas with ⟨-, hh⟩ | hhas
    · exact ha.issued_new hh
    · exact (hw.held id' h hhas).trans_le ha.issued_le
  cancelled h hc := (hw.cancelled h (ha.cancelled h ▸ hc)).trans_le ha.issued_le

theorem Adds.owns {r : ReadingsRequest} (ha : Adds r w p') {id' : String} {h : CancelHandle} (ho : w.Owns id' h) :
    p'.Owns id' h where
  issued := ho.issued.trans_le ha.issued_le
  live := ⟨ha.table ▸ List.mem_append_left _ ho.live.1, ha.cancelled h ▸ ho.live.2⟩
  alone id'' hhas := by
    rcases ha.has hhas with ⟨-, hh⟩ | hhas
    · exact absurd (ha.fresh h hh) ho.issued.ne
    · exact ho.alone id'' hhas

/-- nobody had the handle of the request that is added -/
theorem Adds.owns_new {r : ReadingsRequest} (ha : Adds r w p') (hw : w.Accounted) {h : CancelHandle}
    (hh : r.handle? = some h) : p'.Owns r.id h where
  issued := ha.issued_new hh
  live := by
    refine ⟨by rw [ha.table, hh]; exact List.mem_append_right _ List.mem_cons_self, ?_⟩
    rw [ha.cancelled]
    exact Bool.eq_false_iff.2 fun hc => (hw.cancelled h hc).ne (ha.fresh h hh)
  alone id' hhas := by
    rcases ha.has hhas with ⟨hid, -⟩ | hhas
    · exact hid
    · exact absurd (ha.fresh h hh) (hw.held id' h hhas).ne

section

variable {accepted : Option ReadingsRequest}

/-- besides the requests and the engine nothing counts -/
theorem Replaces.of_eq (h : Replaces id accepted p p') {p₀ : Planner} (hrequests : p₀.requests = p.requests)
    (hengine : p₀.engine = p.engine) : Replaces id accepted p₀ p' := by
  cases accepted with
  | none => exact Drops.of_eq h hrequests hengine
  | some r =>
    obtain ⟨w, hdrops, hadds⟩ := h
    exact ⟨w, hdrops.of_eq hrequests hengine, hadds⟩

theorem Replaces.accounted (h : Replaces id accepted p p') (hp : p.Accounted) : p'.Accounted := by
  cases accepted with
  | none => exact Drops.accounted h hp
  | some r =>
    obtain ⟨w, hdrops, hadds⟩ := h
    exact hadds.accounted (hdrops.accounted hp)

theorem Replaces.owns (h : Replaces id accepted p p') {id' : String} (hne : id' ≠ id) {handle : CancelHandle}
    (ho : p.Owns id' handle) : p'.Owns id' handle := by
  cases accepted with
  | none => exact Drops.owns h hne ho
  | some r =>
    obtain ⟨w, hdrops, hadds⟩ := h
    exact hadds.owns (hdrops.owns hne ho)

/-- what was cancelled stays so, and what the replaced request held is cancelled -/
theorem Replaces.isCancelled (h : Replaces id accepted p p') {handle : CancelHandle}
    (hc : p.engine.flags.isCancelled handle = true ∨ p.Has id handle) :
    p'.engine.flags.isCancelled handle = true := by
  cases accepted with
  | none => exact (Drops.cancelled h handle).2 hc
  | some r =>
    obtain ⟨w, hdrops, hadds⟩ := h
    exact (hadds.cancelled handle).trans ((hdrops.cancelled handle).2 hc)

theorem Replaces.find? (h : Replaces id accepted p p') (hid : ∀ r, accepted = some r → r.id = id) (id' : String) :
    p'.requests.find? id' = if id' = id then accepted else p.requests.find? id' := by
  cases accepted with
  | none => exact Drops.requests h id'
  | some r =>
    obtain ⟨w, hdrops, hadds⟩ := h
    obtain rfl := hid r rfl
    rw [hadds.requests, hdrops.requests]
    split_ifs <;> rfl

/-- what the request holds that took the place of others is live -/
theorem Replaces.owns_new (h : Replaces id accepted p p') (hp : p.Accounted) {r : ReadingsRequest}
    (hr : accepted = some r) {handle : CancelHandle} (hh : r.handle? = some handle) : p'.Owns r.id handle := by
  subst hr
  obtain ⟨w, hdrops, hadds⟩ := h
  exact hadds.owns_new (hdrops.accounted hp) hh

end

end Planner

end SensorNode
