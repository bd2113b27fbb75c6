/-
Requests of the planner and subscriptions of the engine. `Sound` ties the requests that the planner keeps to the table of
subscriptions and to the orders of the engine; every operation keeps to it (`step_sound`), so after any run the live
subscriptions are those of the requests, one each (`subscriptions_match`).
-/
import SensorNode.Proofs.Planning.Run

namespace SensorNode

/-- the order that a request becomes when it is subscribed with this handle -/
def ReadingsRequest.order (r : ReadingsRequest) (h : CancelHandle) : Order :=
  ⟨r.metrics, .ledger r.id r.assetId, .every (.ofSeconds r.period.toNat) h⟩

namespace Planner

variable {p : Planner}

/-- The requests and the subscriptions belong together, as far as they are live. -/
structure Sound (p : Planner) : Prop where
  regular : p.engine.Regular
  keyed : ∀ id r, p.requests.find? id = some r → r.id = id
  held : ∀ id r h, p.requests.find? id = some r → r.subscription = .periodic h →
    h.flag < p.engine.flags.issued ∧ (h ∈ p.engine.subscriptions ∨ p.engine.flags.isCancelled h = true)
  tabled : ∀ h ∈ p.engine.subscriptions,
    (∃ id r, p.requests.find? id = some r ∧ r.subscription = .periodic h) ∨ p.engine.flags.isCancelled h = true
  single : ∀ id r id' r' h, p.requests.find? id = some r → r.subscription = .periodic h →
    p.requests.find? id' = some r' → r'.subscription = .periodic h → id = id'
  orders : ∀ o, p.engine.Holds o → ∀ h, o.isFor h = true →
    (∃ r, p.requests.find? r.id = some r ∧ r.subscription = .periodic h ∧ o = r.order h) ∨
      p.engine.flags.isCancelled h = true

theorem new_sound (deviceId : String) (timeout : Duration) (policy : Reduction) :
    Sound (new deviceId timeout policy) where
  regular := Engine.new_regular timeout policy
  keyed _ _ h := by simp [new] at h
  held _ _ _ h := by simp [new] at h
  tabled _ h := by simp [new, Engine.new] at h
  single _ _ _ _ _ h := by simp [new] at h
  orders o h := by simp [new, Engine.new, Engine.Holds] at h

/-- the engine goes on without a new order -/
theorem Sound.of_onward (hs : Sound p) {p' : Planner} (hreq : p'.requests = p.requests)
    (ho : Engine.Onward p.engine p'.engine) (hr : p'.engine.Regular) : Sound p' where
  regular := hr
  keyed := hreq ▸ hs.keyed
  held id r h hf hh := by
    rw [hreq] at hf
    obtain ⟨hissued, htable | hcancelled⟩ := hs.held id r h hf hh
    · exact ⟨ho.issued ▸ hissued, ho.live h htable⟩
    · exact ⟨ho.issued ▸ hissued, Or.inr (ho.raised h hcancelled)⟩
  tabled h hm := by
    rw [hreq]
    exact (hs.tabled h (ho.table.subset hm)).imp_right (ho.raised h)
  single := hreq ▸ hs.single
  orders o hheld h hfor := by
    rw [hreq]
    exact (hs.orders o (ho.orders o hheld) h hfor).imp_right (ho.raised h)

/-- requests that hold nothing live come and go -/
theorem Sound.of_requests (hs : Sound p) (m : Requests) (hkeyed : ∀ id r, m.find? id = some r → r.id = id)
    (hkept : ∀ id r h, m.find? id = some r → r.subscription = .periodic h → p.requests.find? id = some r)
    (hlost : ∀ id r h, p.requests.find? id = some r → r.subscription = .periodic h →
      m.find? id = some r ∨ p.engine.flags.isCancelled h = true) : Sound { p with requests := m } where
  regular := hs.regular
  keyed := hkeyed
  held id r h hf hh := hs.held id r h (hkept id r h hf hh) hh
  tabled h hm := by
    rcases hs.tabled h hm with ⟨id, r, hf, hh⟩ | hcancelled
    · exact (hlost id r h hf hh).imp_left fun hf => ⟨id, r, hf, hh⟩
    · exact Or.inr hcancelled
  single id r id' r' h hf hh hf' hh' := hs.single id r id' r' h (hkept id r h hf hh) hh (hkept id' r' h hf' hh') hh'
  orders o ho h hfor := by
    rcases hs.orders o ho h hfor with ⟨r, hf, hh, horder⟩ | hcancelled
    · exact (hlost r.id r h hf hh).imp_left fun hf => ⟨r, hf, hh, horder⟩
    · exact Or.inr hcancelled

/-! ## Dropping requests -/

theorem cancel_regular {e : Engine} (hr : e.Regular) (h : CancelHandle) : (e.cancel h).Regular :=
  Engine.move_regular hr (.cancel h)

theorem cancelRequest_sound (hs : Sound p) (r : ReadingsRequest) : Sound (p.cancelRequest r) := by
  rcases cancelRequest_cases p r with ⟨-, hp⟩ | ⟨h, -, hp⟩ <;> rw [hp]
  · exact hs
  · exact hs.of_onward rfl (Engine.Onward.cancel p.engine h) (cancel_regular hs.regular h)

/-- what a request holds is cancelled with it, and what was cancelled stays so -/
theorem cancelRequest_isCancelled (p : Planner) (r : ReadingsRequest) (h : CancelHandle)
    (hc : r.subscription = .periodic h ∨ p.engine.flags.isCancelled h = true) :
    (p.cancelRequest r).engine.flags.isCancelled h = true := by
  rcases cancelRequest_cases p r with ⟨hnot, hp⟩ | ⟨h', hh', hp⟩ <;> rw [hp]
  · exact hc.resolve_left (hnot h)
  · rcases hc with hh | hc
    · obtain rfl := Subscription.periodic.inj (hh'.symm.trans hh)
      simp [Engine.cancel, CancelFlags.isCancelled_cancel]
    · simp [Engine.cancel, CancelFlags.isCancelled_cancel, hc]

/-- all requests of a list are cancelled -/
theorem cancelRequests (hs : Sound p) (rs : List ReadingsRequest) :
    Sound (rs.foldl cancelRequest p) ∧ (rs.foldl cancelRequest p).requests = p.requests ∧
      ∀ h, (p.engine.flags.isCancelled h = true ∨ ∃ r ∈ rs, r.subscription = .periodic h) →
        (rs.foldl cancelRequest p).engine.flags.isCancelled h = true := by
  induction rs generalizing p with
  | nil => exact ⟨hs, rfl, fun h hc => hc.resolve_right (by simp)⟩
  | cons r rs ih =>
    obtain ⟨hsound, hreq, hcancelled⟩ := ih (cancelRequest_sound hs r)
    refine ⟨hsound, hreq, fun h hc => hcancelled h ?_⟩
    rcases hc with hc | ⟨r', hr', hh⟩
    · exact Or.inl (cancelRequest_isCancelled p r h (Or.inr hc))
    · rcases List.mem_cons.1 hr' with rfl | hr'
      · exact Or.inl (cancelRequest_isCancelled p r' h (Or.inl hh))
      · exact Or.inr ⟨r', hr', hh⟩

theorem withdraw_sound (hs : Sound p) (id : String) : Sound (p.withdraw id).2 := by
  unfold withdraw
  split
  · rename_i r hf
    refine (cancelRequest_sound hs r).of_requests (p.requests.erase id) ?_ ?_ ?_
    · exact Keyed.IsBy.erase hs.keyed id
    · intro id' r' h hf' hh
      rw [Keyed.find?_erase] at hf'
      split_ifs at hf'
      exact hf'
    · intro id' r' h hf' hh
      by_cases hid : id' = id
      · -- the request that is dropped
        subst hid
        obtain rfl := Option.some.inj (hf.symm.trans hf')
        exact Or.inr (cancelRequest_isCancelled p r h (Or.inl hh))
      · exact Or.inl (by rw [Keyed.find?_erase, if_neg hid]; exact hf')
  · exact hs

theorem foldl_cancelRequest_with (p : Planner) (m : Requests) (rs : List ReadingsRequest) :
    rs.foldl cancelRequest { p with requests := m } = { rs.foldl cancelRequest p with requests := m } := by
  induction rs generalizing p with
  | nil => rfl
  | cons r rs ih => exact ih (p.cancelRequest r)

theorem clear_sound (hs : Sound p) : Sound p.clear := by
  obtain ⟨hsound, hreq, hcancelled⟩ := cancelRequests hs p.requests.values
  unfold clear
  rw [foldl_cancelRequest_with]
  refine hsound.of_requests ∅ (fun id r hf => absurd hf (by simp)) (fun id r h hf => absurd hf (by simp)) ?_
  intro id r h hf hh
  rw [hreq] at hf
  exact Or.inr (hcancelled h (Or.inr ⟨r, (Keyed.mem_values_iff _ r).2 ⟨id, hf⟩, hh⟩))

/-! ## Ordering requests -/

theorem sendOnce_sound (hs : Sound p) (recipient : Recipient) (metrics : List Metric) :
    Sound { p with engine := p.engine.sendOnce recipient metrics } := by
  have hr := Engine.sendOnce_regular hs.regular recipient metrics
  revert hr
  unfold Engine.sendOnce
  split_ifs
  · intro hr
    refine { hs with regular := hr, orders := fun o ho h hfor => ?_ }
    rcases ho with ho | ho
    · rcases List.mem_append.1 ho with ho | ho
      · exact hs.orders o (Or.inl ho) h hfor
      · obtain rfl := List.mem_singleton.1 ho
        exact absurd hfor (by simp [Order.isFor])
    · exact hs.orders o (Or.inr ho) h hfor
  · exact fun _ => hs

/-- a request whose id holds nothing live takes the place of what there was -/
theorem put_sound (hs : Sound p) (r : ReadingsRequest) (hr : ∀ h, r.subscription ≠ .periodic h)
    (hfree : ∀ r' h, p.requests.find? r.id = some r' → r'.subscription = .periodic h →
      p.engine.flags.isCancelled h = true) : Sound { p with requests := p.requests.put r } := by
  refine hs.of_requests _ (Keyed.IsBy.insert hs.keyed r) ?_ ?_
  · intro id r' h hf hh
    rw [put_find?] at hf
    split_ifs at hf with hid
    · obtain rfl := Option.some.inj hf
      exact absurd hh (hr h)
    · exact hf
  · intro id r' h hf hh
    rw [put_find?]
    split_ifs with hid
    · subst hid
      exact Or.inr (hfree r' h hf hh)
    · exact Or.inl hf

/-- A request whose id holds nothing live is subscribed. Its handle is new, so no other request or order has it. -/
theorem subscribe_sound (hs : Sound p) (r : ReadingsRequest)
    (hfree : ∀ r' h, p.requests.find? r.id = some r' → r'.subscription = .periodic h →
      p.engine.flags.isCancelled h = true) {handle : CancelHandle} {engine : Engine}
    (he : p.engine.subscribe (.ledger r.id r.assetId) (.ofSeconds r.period.toNat) r.metrics = .ok (handle, engine)) :
    Sound { p with engine, requests := p.requests.put { r with subscription := .periodic handle } } := by
  have hregular := Engine.step_regular hs.regular
    (.subscribe (.ledger r.id r.assetId) (.ofSeconds r.period.toNat) r.metrics)
  rw [Engine.step, he] at hregular
  obtain ⟨hhandle, hengine⟩ := Engine.subscribe_ok he
  have hnew : handle.flag = p.engine.flags.issued := by rw [hhandle]
  have hissued : engine.flags.issued = p.engine.flags.issued + 1 := by rw [hengine]
  have hflags : ∀ h, engine.flags.isCancelled h = p.engine.flags.isCancelled h := fun h => by rw [hengine]; rfl
  have htable : engine.subscriptions = p.engine.subscriptions ++ [handle] := by rw [hengine, hhandle]
  have hholds : ∀ o, engine.Holds o → p.engine.Holds o ∨
      o = ReadingsRequest.order { r with subscription := .periodic handle } handle := by
    intro o ho
    rw [hengine] at ho
    rcases ho with ho | ho
    · rcases List.mem_append.1 ho with ho | ho
      · exact Or.inl (Or.inl ho)
      · rw [List.mem_singleton.1 ho, hhandle]
        exact Or.inr rfl
    · exact Or.inl (Or.inr ho)
  -- no request had the new handle before
  have hfresh : ∀ id r', p.requests.find? id = some r' → r'.subscription ≠ .periodic handle := by
    intro id r' hf hh
    have := (hs.held id r' handle hf hh).1
    omega
  refine { regular := hregular, keyed := ?keyed, held := ?held, tabled := ?tabled, single := ?single,
           orders := ?orders }
  case keyed => exact Keyed.IsBy.insert hs.keyed _
  case held =>
    intro id r' h hf hh
    rw [put_find?] at hf
    rw [hissued, htable, hflags]
    split_ifs at hf with hid
    · obtain rfl := Option.some.inj hf
      obtain rfl := Subscription.periodic.inj hh
      exact ⟨by omega, Or.inl (List.mem_append_right _ List.mem_cons_self)⟩
    · obtain ⟨hlt, hlive⟩ := hs.held id r' h hf hh
      exact ⟨by omega, hlive.imp_left (List.mem_append_left _)⟩
  case tabled =>
    intro h hm
    rw [htable] at hm
    rw [hflags]
    rcases List.mem_append.1 hm with hm | hm
    · rcases hs.tabled h hm with ⟨id, r', hf, hh⟩ | hcancelled
      · by_cases hid : id = r.id
        · subst hid
          exact Or.inr (hfree r' h hf hh)
        · exact Or.inl ⟨id, r', by rw [put_find?, if_neg hid]; exact hf, hh⟩
      · exact Or.inr hcancelled
    · rw [List.mem_singleton.1 hm]
      exact Or.inl ⟨r.id, _, by rw [put_find?, if_pos rfl], rfl⟩
  case single =>
    intro id r₁ id' r₂ h hf hh hf' hh'
    rw [put_find?] at hf hf'
    split_ifs at hf hf' with hid hid' hid'
    · rw [hid, hid']
    · obtain rfl := Option.some.inj hf
      obtain rfl := Subscription.periodic.inj hh
      exact absurd hh' (hfresh id' r₂ hf')
    · obtain rfl := Option.some.inj hf'
      obtain rfl := Subscription.periodic.inj hh'
      exact absurd hh (hfresh id r₁ hf)
    · exact hs.single id r₁ id' r₂ h hf hh hf' hh'
  case orders =>
    intro o ho h hfor
    rw [hflags]
    rcases hholds o ho with ho | rfl
    · rcases hs.orders o ho h hfor with ⟨r', hf, hh, horder⟩ | hcancelled
      · by_cases hid : r'.id = r.id
        · rw [hid] at hf
          exact Or.inr (hfree r' h hf hh)
        · exact Or.inl ⟨r', by rw [put_find?, if_neg hid]; exact hf, hh, horder⟩
      · exact Or.inr hcancelled
    · obtain rfl : handle = h := by simpa [Order.isFor, ReadingsRequest.order] using hfor
      exact Or.inl ⟨{ r with subscription := .periodic handle }, by rw [put_find?, if_pos rfl], rfl, rfl⟩

theorem enlist_sound (hs : Sound p) (r : ReadingsRequest)
    (hfree : ∀ r' h, p.requests.find? r.id = some r' → r'.subscription = .periodic h →
      p.engine.flags.isCancelled h = true) : Sound (p.enlist r).2 := by
  unfold enlist
  rcases activate_cases p r with h | h | ⟨handle, engine, he, h⟩ <;> rw [h]
  · refine put_sound (sendOnce_sound hs _ _) _ (fun h => Subscription.noConfusion) ?_
    intro r' h hf hh
    have hflags : (p.engine.sendOnce (.ledger r.id r.assetId) r.metrics).flags = p.engine.flags := by
      unfold Engine.sendOnce
      split_ifs <;> rfl
    rw [hflags]
    exact hfree r' h hf hh
  · exact put_sound hs _ (fun h => Subscription.noConfusion) hfree
  · exact subscribe_sound hs r hfree he

/-- the pending requests are enlisted one after the other; each of them is still there when its turn comes -/
theorem enlistAll_sound (hs : Sound p) (rs : List ReadingsRequest) (hnodup : (rs.map ReadingsRequest.id).Nodup)
    (hpending : ∀ r ∈ rs, p.requests.find? r.id = some r ∧ r.subscription = .pending) :
    Sound (rs.foldl (fun p r => (p.enlist r).2) p) := by
  induction rs generalizing p with
  | nil => exact hs
  | cons r rs ih =>
    obtain ⟨hr, hnodup⟩ := List.nodup_cons.1 hnodup
    obtain ⟨hf, hp⟩ := hpending r List.mem_cons_self
    refine ih (enlist_sound hs r ?_) hnodup ?_
    · intro r' h hf' hh
      obtain rfl := Option.some.inj (hf.symm.trans hf')
      exact absurd (hp.symm.trans hh) (fun h => Subscription.noConfusion h)
    · intro r' hm
      have hne : r'.id ≠ r.id := fun hid => hr (hid ▸ List.mem_map_of_mem hm)
      rw [enlist_find?, if_neg hne]
      exact hpending r' (List.mem_cons_of_mem r hm)

theorem pending_nodup (hs : Sound p) : (p.requests.pending.map ReadingsRequest.id).Nodup := by
  have hkeys : p.requests.values.map ReadingsRequest.id = p.requests.keys := Keyed.IsBy.map_values hs.keyed
  refine List.Nodup.sublist (List.filter_sublist.map _) ?_
  rw [hkeys]
  exact p.requests.distinct

theorem replayPending_sound (hs : Sound p) : Sound p.replayPending.2 := by
  refine enlistAll_sound hs _ (pending_nodup hs) fun r hm => ?_
  obtain ⟨hm, hp⟩ := List.mem_filter.1 hm
  obtain ⟨id, hf⟩ := (Keyed.mem_values_iff _ r).1 hm
  rw [hs.keyed id r hf]
  exact ⟨hf, by simpa [ReadingsRequest.isPending] using hp⟩

/-! ## Runs -/

theorem step_sound (hs : Sound p) (op : Op) : Sound (p.step op).1 := by
  cases op with
  | submit q =>
    have hwithdrawn := withdraw_sound hs q.id
    simp only [step, submit]
    split_ifs
    · refine enlist_sound hwithdrawn _ fun r' h hf => ?_
      rw [withdraw_find?] at hf
      exact absurd hf (by simp [ReadingsRequest.ofRequirements])
    · exact hwithdrawn
  | withdraw id => exact withdraw_sound hs id
  | storePending q =>
    simp only [step, storePending]
    split_ifs with hnew
    · refine put_sound hs _ (fun h => Subscription.noConfusion) fun r' h hf => ?_
      exact absurd (Option.isSome_iff_exists.2 ⟨r', hf⟩) hnew.2
    · exact hs
  | replayPending => exact replayPending_sound hs
  | cancelAll => exact (cancelRequests hs p.requests.values).1
  | clear => exact clear_sound hs
  | assets assets => exact { hs with }
  | link link => exact { hs with }
  | sendOnce label hold metrics => exact sendOnce_sound hs _ metrics
  | reader m =>
    obtain ⟨posted, postings, h⟩ := step_reader p m
    rw [h]
    exact hs.of_onward rfl (Engine.move_onward p.engine m) (Engine.move_regular hs.regular m)

theorem run_sound (hs : Sound p) (ops : List Op) : Sound (p.run ops) := by
  induction ops generalizing p with
  | nil => exact hs
  | cons op ops ih => exact ih (step_sound hs op)

/-! ## Live subscriptions -/

/-- the handle of the subscription that the request holds, as long as it is live -/
def liveHandle? (flags : CancelFlags) (r : ReadingsRequest) : Option CancelHandle :=
  match r.subscription with
  | .periodic h => if flags.isCancelled h then none else some h
  | _ => none

theorem liveHandle?_eq_some {flags : CancelFlags} {r : ReadingsRequest} {h : CancelHandle} :
    liveHandle? flags r = some h ↔ r.subscription = .periodic h ∧ flags.isCancelled h = false := by
  unfold liveHandle?
  split
  · rename_i h' hh
    rw [hh, Subscription.periodic.injEq]
    constructor
    · intro hlive
      split_ifs at hlive with hcancelled
      obtain rfl := Option.some.inj hlive
      exact ⟨rfl, by simpa using hcancelled⟩
    · rintro ⟨rfl, hlive⟩
      simp [hlive]
  · rename_i hnot
    constructor
    · exact fun hnone => absurd hnone (by simp)
    · exact fun hh => absurd hh.1 (hnot h)

theorem isSubscribed_iff (flags : CancelFlags) (r : ReadingsRequest) :
    r.isSubscribed flags = true ↔ ∃ h, r.subscription = .periodic h ∧ flags.isCancelled h = false := by
  unfold ReadingsRequest.isSubscribed
  split
  · rename_i h hh
    simp [hh]
  · rename_i hnot
    simp only [Bool.false_eq_true, false_iff, not_exists, not_and]
    exact fun h hh => absurd hh (hnot h)

/-- the live handles of the table are those of the requests -/
theorem Sound.handles_perm (hs : Sound p) :
    (p.engine.subscriptions.filter fun h => !p.engine.flags.isCancelled h).Perm
      (p.requests.values.filterMap (liveHandle? p.engine.flags)) := by
  have hnodup : (p.requests.values.filterMap (liveHandle? p.engine.flags)).Nodup := by
    have hkeys := List.pairwise_map.1 p.requests.distinct
    rw [Keyed.values, List.filterMap_map, List.Nodup, List.pairwise_filterMap]
    refine hkeys.imp_of_mem ?_
    rintro ⟨id, r⟩ ⟨id', r'⟩ hm hm' hne h hh h' hh' rfl
    refine hne (hs.single id r id' r' h ?_ (liveHandle?_eq_some.1 hh).1 ?_ (liveHandle?_eq_some.1 hh').1)
    · exact (Keyed.mem_entries_iff _ _ _).1 hm
    · exact (Keyed.mem_entries_iff _ _ _).1 hm'
  refine (List.perm_ext_iff_of_nodup (hs.regular.distinct.filter _) hnodup).2 fun h => ?_
  simp only [List.mem_filter, List.mem_filterMap, liveHandle?_eq_some, Keyed.mem_values_iff]
  constructor
  · rintro ⟨hm, hlive⟩
    have hlive : p.engine.flags.isCancelled h = false := by simpa using hlive
    rcases hs.tabled h hm with ⟨id, r, hf, hh⟩ | hcancelled
    · exact ⟨r, ⟨id, hf⟩, hh, hlive⟩
    · exact absurd (hcancelled.symm.trans hlive) (by decide)
  · rintro ⟨r, ⟨id, hf⟩, hh, hlive⟩
    refine ⟨(hs.held id r h hf hh).2.resolve_right fun hcancelled => ?_, by simp [hlive]⟩
    exact absurd (hcancelled.symm.trans hlive) (by decide)

theorem Sound.activeSubscriptions_eq (hs : Sound p) :
    p.engine.activeSubscriptions = (p.requests.values.filter (·.isSubscribed p.engine.flags)).length := by
  have hsome : ∀ r, (liveHandle? p.engine.flags r).isSome = r.isSubscribed p.engine.flags := by
    intro r
    rw [Bool.eq_iff_iff, Option.isSome_iff_exists, isSubscribed_iff]
    simp only [liveHandle?_eq_some]
  calc p.engine.activeSubscriptions
      = (p.requests.values.filterMap (liveHandle? p.engine.flags)).length := hs.handles_perm.length_eq
    _ = p.requests.values.countP fun r => (liveHandle? p.engine.flags r).isSome := List.length_filterMap_eq_countP
    _ = (p.requests.values.filter (·.isSubscribed p.engine.flags)).length := by
        simp only [hsome, List.countP_eq_length_filter]

/-- the subscription with this handle has not come to its end and is not cancelled -/
def IsLive (p : Planner) (h : CancelHandle) : Prop :=
  h ∈ p.engine.subscriptions ∧ p.engine.flags.isCancelled h = false

/-- **Requests and subscriptions.** After any run, a request that counts as subscribed holds a live subscription, and
every live subscription is held by exactly one request; there are as many of the ones as of the others. The orders of
live subscriptions that deliver for one requirements id are orders of one subscription. -/
theorem subscriptions_match (deviceId : String) (timeout : Duration) (policy : Reduction) (ops : List Op) :
    let p := (new deviceId timeout policy).run ops
    (∀ id r, p.requests.find? id = some r → r.isSubscribed p.engine.flags = true →
        ∃ h, r.subscription = .periodic h ∧ p.IsLive h) ∧
      (∀ h, p.IsLive h → ∃! id, ∃ r, p.requests.find? id = some r ∧ r.subscription = .periodic h) ∧
      p.engine.subscriptions.Nodup ∧
      p.engine.activeSubscriptions = (p.requests.values.filter (·.isSubscribed p.engine.flags)).length ∧
      (∀ id asset asset' h h' o o', p.engine.Holds o → o.isFor h = true → p.IsLive h → p.engine.Holds o' →
        o'.isFor h' = true → p.IsLive h' → o.recipient = .ledger id asset → o'.recipient = .ledger id asset' →
        h = h') := by
  intro p
  have hs : Sound p := run_sound (new_sound deviceId timeout policy) ops
  have clash : ∀ {h}, p.IsLive h → ¬p.engine.flags.isCancelled h = true := fun hlive hc =>
    absurd (hc.symm.trans hlive.2) (by decide)
  refine ⟨?_, ?_, hs.regular.distinct, hs.activeSubscriptions_eq, ?_⟩
  · intro id r hf hsubscribed
    obtain ⟨h, hh, hlive⟩ := (isSubscribed_iff _ r).1 hsubscribed
    refine ⟨h, hh, (hs.held id r h hf hh).2.resolve_right fun hc => ?_, hlive⟩
    exact absurd (hc.symm.trans hlive) (by decide)
  · intro h hlive
    obtain ⟨id, r, hf, hh⟩ := (hs.tabled h hlive.1).resolve_right (clash hlive)
    refine ⟨id, ⟨r, hf, hh⟩, ?_⟩
    rintro id' ⟨r', hf', hh'⟩
    exact hs.single id' r' id r h hf' hh' hf hh
  · intro id asset asset' h h' o o' ho hfor hlive ho' hfor' hlive' hid hid'
    obtain ⟨r, hf, hh, rfl⟩ := (hs.orders o ho h hfor).resolve_right (clash hlive)
    obtain ⟨r', hf', hh', rfl⟩ := (hs.orders o' ho' h' hfor').resolve_right (clash hlive')
    obtain ⟨hr, -⟩ := Recipient.ledger.inj hid
    obtain ⟨hr', -⟩ := Recipient.ledger.inj hid'
    rw [hr] at hf
    rw [hr'] at hf'
    obtain rfl := Option.some.inj (hf.symm.trans hf')
    exact Subscription.periodic.inj (hh.symm.trans hh')

/-- requirements are submitted, changed and carried out -/
def resubmitted : List Op :=
  [.assets (Keyed.empty.insert "dock" ⟨"dock", "Dock", none, ⟨0, 0⟩⟩), .submit ⟨"air", "dock", [.humidity], 5⟩,
    .reader .process, .reader .dispatch, .reader (.advance 0), .submit ⟨"air", "dock", [.humidity], 10⟩,
    .reader .dispatch]

/-- the first subscription is cancelled but still on the table when the second one is live -/
theorem subscriptions_match_resubmitted :
    let p := (new "node" ⟨500⟩ .mean).run resubmitted
    p.engine.subscriptions = [⟨0⟩, ⟨1⟩] ∧ ¬p.IsLive ⟨0⟩ ∧ p.IsLive ⟨1⟩ ∧
      (∃! id, ∃ r, p.requests.find? id = some r ∧ r.subscription = .periodic ⟨1⟩) ∧ p.engine.activeSubscriptions = 1 := by
  intro p
  have hlive : p.IsLive ⟨1⟩ := ⟨by decide, rfl⟩
  refine ⟨rfl, fun h => absurd h.2 (by decide), hlive, ?_, rfl⟩
  exact (subscriptions_match "node" ⟨500⟩ .mean resubmitted).2.1 ⟨1⟩ hlive

end Planner

end SensorNode
