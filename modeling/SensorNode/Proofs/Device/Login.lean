/-
A login that is repeated. A login takes the ledger's entry for the identity, tells the ledger what the sensors can read,
and warms up: the assets near by are kept, the requirements for them stored, and what is pending is ordered if the device
operates. Each part leaves nothing to do for the same part of another login: an asset that was kept is kept again in its
place, requirements whose id is taken are not stored, and after a replay nothing is pending (`Warm`). So a login that is
repeated at once says and asks again what the first one did, and changes nothing else (`login_again`).
-/
import SensorNode.Proofs.Device.Activation

namespace SensorNode

/-! ## What is there already -/

namespace Assets

variable {m : Assets} {found : List Asset} {origin : Location} {threshold : Float}

/-- assets that were found are kept or dropped, one after the other -/
def survey (m : Assets) (found : List Asset) (origin : Location) (threshold : Float) : Assets :=
  found.foldl (fun m a => (m.putNear a origin threshold).1) m

/-- of the assets that were found those near by are kept, and no entry has the id of another -/
def Surveyed (m : Assets) (found : List Asset) (origin : Location) (threshold : Float) : Prop :=
  ∀ a ∈ found, m.find? a.id = if a.location.isNear origin threshold then some a else none

theorem survey_find?_of_ne {id : String} (hne : ∀ a ∈ found, a.id ≠ id) :
    (m.survey found origin threshold).find? id = m.find? id := by
  induction found generalizing m with
  | nil => rfl
  | cons a found ih =>
    show ((m.putNear a origin threshold).1.survey found origin threshold).find? id = m.find? id
    rw [ih fun a' ha' => hne a' (List.mem_cons_of_mem a ha'), putNear_find?, if_neg (hne a List.mem_cons_self).symm]

/-- no asset undoes what another with its own id has come to -/
theorem survey_surveyed (hnodup : (found.map Asset.id).Nodup) :
    (m.survey found origin threshold).Surveyed found origin threshold := by
  induction found generalizing m with
  | nil => exact fun a ha => absurd ha List.not_mem_nil
  | cons a found ih =>
    obtain ⟨hfirst, hnodup⟩ := List.nodup_cons.1 hnodup
    intro a' ha'
    show ((m.putNear a origin threshold).1.survey found origin threshold).find? a'.id = _
    rcases List.mem_cons.1 ha' with rfl | ha'
    · have hne : ∀ a ∈ found, a.id ≠ a'.id := fun a ha he => hfirst (he ▸ List.mem_map_of_mem ha)
      rw [survey_find?_of_ne hne, putNear_find?, if_pos rfl]
    · exact ih hnodup a' ha'

theorem putNear_of_find? {a : Asset}
    (h : m.find? a.id = if a.location.isNear origin threshold then some a else none) :
    (m.putNear a origin threshold).1 = m := by
  unfold putNear put
  split_ifs at h ⊢
  · exact Keyed.insert_of_find? h
  · exact Keyed.erase_of_find? h

/-- another survey finds everything as it should be -/
theorem Surveyed.survey_eq (h : m.Surveyed found origin threshold) : m.survey found origin threshold = m := by
  induction found with
  | nil => rfl
  | cons a found ih =>
    have hfirst : (m.putNear a origin threshold).1 = m := putNear_of_find? (h a List.mem_cons_self)
    show (m.putNear a origin threshold).1.survey found origin threshold = m
    rw [hfirst]
    exact ih fun a' ha' => h a' (List.mem_cons_of_mem a ha')

end Assets

namespace Planner

variable {p : Planner} {qs : List Requirements}

def storeAll (p : Planner) (qs : List Requirements) : Planner := qs.foldl (fun p q => (p.storePending q).2) p

/-- there is a request with the id of each of the requirements whose asset is kept -/
def Stocked (p : Planner) (qs : List Requirements) : Prop :=
  ∀ q ∈ qs, p.assets.contains q.assetId = true → p.requests.contains q.id = true

theorem storeAll_eq (p : Planner) (qs : List Requirements) : ∃ requests, p.storeAll qs = { p with requests } := by
  induction qs generalizing p with
  | nil => exact ⟨p.requests, rfl⟩
  | cons q qs ih =>
    obtain ⟨requests, hfirst⟩ := Device.storePending_eq p q
    obtain ⟨requests', hrest⟩ := ih (p.storePending q).2
    exact ⟨requests', hrest.trans (by rw [hfirst])⟩

theorem storeAll_sound (hs : p.Sound) : (p.storeAll qs).Sound := by
  induction qs generalizing p with
  | nil => exact hs
  | cons q qs ih => exact ih (step_sound hs (.storePending q))

/-- requirements are stored without dropping anything -/
theorem storePending_contains (q : Requirements) {id : String} (h : p.requests.contains id = true) :
    (p.storePending q).2.requests.contains id = true := by
  unfold storePending
  split_ifs
  · show ((p.requests.put (.ofRequirements q)).find? id).isSome = true
    rw [put_find?]
    split_ifs
    · rfl
    · exact h
  · exact h

theorem storeAll_contains {id : String} (h : p.requests.contains id = true) :
    (p.storeAll qs).requests.contains id = true := by
  induction qs generalizing p with
  | nil => exact h
  | cons q qs ih => exact ih (storePending_contains q h)

theorem contains_of_storePending {q : Requirements} (hkept : p.assets.contains q.assetId = true) :
    (p.storePending q).2.requests.contains q.id = true := by
  unfold storePending
  split_ifs with hnew
  · show ((p.requests.put (.ofRequirements q)).find? q.id).isSome = true
    rw [put_find?]
    exact congrArg Option.isSome (if_pos rfl)
  · by_contra hnone
    exact hnew ⟨hkept, hnone⟩

theorem storeAll_stocked (p : Planner) (qs : List Requirements) : (p.storeAll qs).Stocked qs := by
  induction qs generalizing p with
  | nil => exact fun q hq => absurd hq List.not_mem_nil
  | cons q qs ih =>
    intro q' hq' hkept
    rcases List.mem_cons.1 hq' with rfl | hq'
    · obtain ⟨requests, hall⟩ := storeAll_eq p (q' :: qs)
      have hassets : (p.storeAll (q' :: qs)).assets = p.assets := by rw [hall]
      rw [hassets] at hkept
      exact storeAll_contains (p := (p.storePending q').2) (contains_of_storePending hkept)
    · exact ih (p.storePending q).2 q' hq' hkept

/-- requirements whose id is taken are not stored -/
theorem Stocked.storeAll_eq_self (h : p.Stocked qs) : p.storeAll qs = p := by
  induction qs with
  | nil => rfl
  | cons q qs ih =>
    have hfirst : (p.storePending q).2 = p := by
      unfold storePending
      split_ifs with hnew
      · exact absurd (h q List.mem_cons_self hnew.1) hnew.2
      · rfl
    show (p.storePending q).2.storeAll qs = p
    rw [hfirst]
    exact ih fun q' hq' => h q' (List.mem_cons_of_mem q hq')

theorem replayPending_eq (p : Planner) : ∃ engine requests, p.replayPending.2 = { p with engine, requests } :=
  enlistAll_eq p p.requests.pending

theorem replay_of_nil (h : p.requests.pending = []) : p.replayPending.2 = p := by
  unfold replayPending
  rw [h]
  rfl

end Planner

namespace Device

variable {d d' : Device} {origin : Location} {model : DeviceModel} {found : List Asset}

/-! ## A warm-up as a whole -/

def survey (d : Device) (found : List Asset) (origin : Location) : Device :=
  { d with assets := d.assets.survey found origin d.threshold }

/-- what the ledger answers when it is asked for the requirements of the assets that are kept -/
def inquire (d : Device) : Except Failure (List Requirements) :=
  if d.assets.isEmpty then .ok []
  else
    match d.link.queryRequirements d.assets.keys with
    | .ok qs => .ok qs
    | .error f => .error (f.during "Failed to query requirements from ledger")

def store (d : Device) (qs : List Requirements) : Device := d.setPlanner (d.toPlanner.storeAll qs)

/-- what is pending is ordered, if the device operates -/
def order (d : Device) : Device :=
  if d.lifecycle = .operating then d.setPlanner d.toPlanner.replayPending.2 else d

/-- all that a login does with the answers of the ledger -/
def warmUp (d : Device) (origin : Location) : Device × Option Failure :=
  match d.link.queryAssets with
  | .error f => (d, some (f.during "Failed to query assets from ledger"))
  | .ok found =>
    let d := d.survey found origin
    match d.inquire with
    | .error f => (d, some f)
    | .ok qs => ((d.store qs).order, none)

theorem inTurn_putNear (n : Nat) (d : Device) (found : List Asset) (origin : Location) (acts : List Act) :
    inTurn (perform (n + 1)) d (found.map (Act.putNear · origin) ++ acts) =
      inTurn (perform (n + 1)) (d.survey found origin) acts := by
  induction found generalizing d with
  | nil => rfl
  | cons a found ih =>
    rw [List.map_cons, List.cons_append, inTurn_of_ok (show d.act (.putNear a origin) = (_, .ok []) from rfl), ih]
    rfl

theorem inTurn_storePending (n : Nat) (d : Device) (qs : List Requirements) :
    inTurn (perform (n + 1)) d (qs.map .storePending) = (d.store qs, none) := by
  induction qs generalizing d with
  | nil => rfl
  | cons q qs ih =>
    rw [List.map_cons, inTurn_of_ok (show d.act (.storePending q) = (_, .ok []) from rfl), ih]
    rfl

theorem perform_listAssets (n : Nat) (d : Device) : d.perform (n + 3) .listAssets =
    match d.inquire with
    | .error f => (d, some f)
    | .ok qs => (d.store qs, none) := by
  rw [perform_succ]
  simp only [act, inquire]
  split_ifs with hempty
  · rfl
  · show inTurn (perform (n + 2)) d [.queryRequirements d.assets.keys] = _
    rw [inTurn_cons, perform_succ]
    simp only [act]
    cases hquery : d.link.queryRequirements d.assets.keys with
    | error f => rfl
    | ok qs =>
      dsimp only
      rw [inTurn_storePending]
      rfl

theorem run_warmUp (h : d.identity.location? = some origin) :
    d.run [.readOrigin, .checkOperating] = d.warmUp origin := by
  have horigin : d.act .readOrigin = (d, .ok [.queryAssets origin]) := by simp only [act, h]
  have horder : ∀ d : Device, inTurn (fun d a => d.perform (depth a) a) d [.checkOperating] = (d.order, none) := by
    intro d
    rw [inTurn_cons, show depth .checkOperating = 8 from rfl, perform_succ]
    simp only [act, order]
    split_ifs <;> rfl
  rw [run_eq, inTurn_cons, show depth .readOrigin = 8 from rfl, perform_succ, horigin]
  dsimp only
  rw [inTurn_cons, perform_succ]
  simp only [act, warmUp]
  cases d.link.queryAssets with
  | error f => rfl
  | ok found =>
    dsimp only
    rw [inTurn_putNear, inTurn_cons, perform_listAssets]
    cases (d.survey found origin).inquire with
    | error f => rfl
    | ok qs => exact horder _

/-! ## Nothing is left to do -/

/-- What the ledger says has been taken in: the assets near by are kept, the requirements for them have their requests,
and a device that operates has ordered them. -/
def Warm (d : Device) (origin : Location) : Prop :=
  ∀ found, d.link.queryAssets = .ok found → d.assets.Surveyed found origin d.threshold ∧
    ∀ qs, d.inquire = .ok qs → d.toPlanner.Stocked qs ∧ (d.lifecycle = .operating → d.requests.pending = [])

/-- how a warm-up ends that has nothing to do -/
def verdict (d : Device) : Option Failure :=
  match d.link.queryAssets with
  | .error f => some (f.during "Failed to query assets from ledger")
  | .ok _ =>
    match d.inquire with
    | .error f => some f
    | .ok _ => none

theorem Warm.warmUp_eq (h : d.Warm origin) : d.warmUp origin = (d, d.verdict) := by
  unfold warmUp verdict
  cases hassets : d.link.queryAssets with
  | error f => rfl
  | ok found =>
    obtain ⟨hsurveyed, hstocked⟩ := h found hassets
    have hsurvey : d.survey found origin = d := by rw [survey, hsurveyed.survey_eq]
    dsimp only
    rw [hsurvey]
    cases hinquire : d.inquire with
    | error f => rfl
    | ok qs =>
      obtain ⟨hstored, hpending⟩ := hstocked qs hinquire
      have horder : d.order = d := by
        unfold order
        split_ifs with hoperating
        · rw [Planner.replay_of_nil (hpending hoperating)]
          rfl
        · rfl
      have hstore : d.store qs = d := congrArg d.setPlanner hstored.storeAll_eq_self
      dsimp only
      rw [hstore, horder]

/-- storing and ordering concern nothing but the engine and the requests -/
theorem order_store_eq (d : Device) (qs : List Requirements) :
    ∃ engine requests, (d.store qs).order = { d with engine, requests } := by
  obtain ⟨requests, hstore⟩ := Planner.storeAll_eq d.toPlanner qs
  have hstore : d.store qs = { d with requests } := congrArg d.setPlanner hstore
  rw [hstore, order]
  split_ifs
  · obtain ⟨engine, requests', hreplay⟩ := Planner.replayPending_eq ({ d with requests } : Device).toPlanner
    exact ⟨engine, requests', by rw [hreplay]; rfl⟩
  · exact ⟨d.engine, requests, rfl⟩

/-- what has been ordered is kept, and is not ordered again -/
theorem order_settled (hsound : d.toPlanner.Sound) (hopen : d.lifecycle = .operating → d.engine.isOpen = true)
    {qs : List Requirements} (hstocked : d.toPlanner.Stocked qs) :
    d.order.toPlanner.Stocked qs ∧ (d.order.lifecycle = .operating → d.order.requests.pending = []) := by
  by_cases hoperating : d.lifecycle = .operating
  · have horder : d.order = d.setPlanner d.toPlanner.replayPending.2 := if_pos hoperating
    have hassets : d.toPlanner.replayPending.2.assets = d.assets := by
      obtain ⟨engine, requests, h⟩ := Planner.replayPending_eq d.toPlanner
      rw [h]
    rw [horder]
    refine ⟨fun q hq hkept => ?_, fun _ => Planner.replay_pending_eq_nil hsound (hopen hoperating)⟩
    have hkept : d.toPlanner.replayPending.2.assets.contains q.assetId = true := hkept
    rw [hassets] at hkept
    exact Planner.replay_contains hsound (hopen hoperating) (hstocked q hq hkept)
  · have horder : d.order = d := if_neg hoperating
    rw [horder]
    exact ⟨hstocked, fun h => absurd h hoperating⟩

/-- storing and ordering what the ledger has answered leaves nothing to do -/
theorem order_warm (hassets : d.link.queryAssets = .ok found)
    (hsurveyed : d.assets.Surveyed found origin d.threshold) {qs : List Requirements} (hinquire : d.inquire = .ok qs)
    (hsound : d.toPlanner.Sound) (hopen : d.lifecycle = .operating → d.engine.isOpen = true) :
    (d.store qs).order.Warm origin ∧ (d.store qs).order.verdict = none := by
  obtain ⟨requests, hstore⟩ := Planner.storeAll_eq d.toPlanner qs
  have hengine : (d.toPlanner.storeAll qs).engine = d.engine := by rw [hstore]
  have hsettled := order_settled (d := d.store qs) (Planner.storeAll_sound hsound)
    (fun hoperating => (congrArg Engine.isOpen hengine).trans (hopen hoperating))
    (Planner.storeAll_stocked d.toPlanner qs)
  obtain ⟨engine, requests', horder⟩ := order_store_eq d qs
  rw [horder] at hsettled ⊢
  refine ⟨fun found' hassets' => ?_, ?_⟩
  · obtain rfl : found = found' := Except.ok.inj (hassets.symm.trans hassets')
    refine ⟨hsurveyed, fun qs' hinquire' => ?_⟩
    obtain rfl : qs = qs' := Except.ok.inj (hinquire.symm.trans hinquire')
    exact hsettled
  · have hinquire' : inquire { d with engine, requests := requests' } = .ok qs := hinquire
    simp only [verdict, hassets, hinquire']

/-- a warm-up leaves nothing to do for another, and ends as another would -/
theorem warmUp_warm (hledger : d.link.ledger.assets.IsBy Asset.id) (hsound : d.toPlanner.Sound)
    (hopen : d.lifecycle = .operating → d.engine.isOpen = true) (origin : Location) :
    (d.warmUp origin).1.Warm origin ∧ (d.warmUp origin).2 = (d.warmUp origin).1.verdict := by
  unfold warmUp
  cases hassets : d.link.queryAssets with
  | error f =>
    refine ⟨fun found h => ?_, by simp only [verdict, hassets]⟩
    cases hassets.symm.trans h
  | ok found =>
    have hids : (found.map Asset.id).Nodup := by
      rw [LedgerLink.attempt_ok hassets, hledger.map_values]
      exact d.link.ledger.assets.distinct
    have hsurveyed : (d.survey found origin).assets.Surveyed found origin d.threshold := Assets.survey_surveyed hids
    have hassets' : (d.survey found origin).link.queryAssets = .ok found := hassets
    cases hinquire : (d.survey found origin).inquire with
    | error f =>
      dsimp only
      rw [hinquire]
      refine ⟨fun found' hassets'' => ?_, by simp only [verdict, hassets', hinquire]⟩
      obtain rfl : found = found' := Except.ok.inj (hassets.symm.trans hassets'')
      exact ⟨hsurveyed, fun qs h => by cases hinquire.symm.trans h⟩
    | ok qs =>
      dsimp only
      rw [hinquire]
      obtain ⟨hwarm, hverdict⟩ := order_warm hassets' hsurveyed hinquire { hsound with } hopen
      exact ⟨hwarm, hverdict.symm⟩

/-- a warm-up concerns nothing but the engine, the assets and the requests -/
theorem warmUp_eq (d : Device) (origin : Location) :
    ∃ engine assets requests, (d.warmUp origin).1 = { d with engine, assets, requests } := by
  unfold warmUp
  cases d.link.queryAssets with
  | error f => exact ⟨d.engine, d.assets, d.requests, rfl⟩
  | ok found =>
    dsimp only
    cases (d.survey found origin).inquire with
    | error f => exact ⟨d.engine, _, d.requests, rfl⟩
    | ok qs =>
      obtain ⟨engine, requests, horder⟩ := order_store_eq (d.survey found origin) qs
      exact ⟨engine, _, requests, horder⟩

/-! ## Logins -/

/-- what a login takes for the identity: the entry, with the metrics of the sensors if the ledger could be told -/
def confirmed (d : Device) (model : DeviceModel) : DeviceModel :=
  match d.link.outages.find? .updateDevice with
  | none => { model with supports := d.supportedMetrics }
  | some _ => model

theorem confirmed_location (d : Device) (model : DeviceModel) : (d.confirmed model).location = model.location := by
  unfold confirmed
  split <;> rfl

/-- the ledger is told of the metrics of a device that is logged on, if it can be -/
theorem perform_readModel (h : d.identity.model = some model) :
    ∃ devices updates, d.perform 8 .readModel =
      ({ d with
        identity := { d.identity with model := some (d.confirmed model) }
        link := { d.link with ledger := { d.link.ledger with devices, updates } } }, none) := by
  have hread : d.act .readModel = (d, .ok [.sendMetrics model d.supportedMetrics]) := by simp only [act, h]
  rw [perform_succ, hread]
  dsimp only
  rw [inTurn_cons]
  cases hup : d.link.outages.find? .updateDevice with
  | some cause =>
    have hsend : d.act (.sendMetrics model d.supportedMetrics) = (d, .ok []) := by
      simp only [act, LedgerLink.updateDevice, LedgerLink.attempt, hup]
    refine ⟨d.link.ledger.devices, d.link.ledger.updates, ?_⟩
    rw [perform_of_ok hsend, confirmed, hup, ← h]
    rfl
  | none =>
    let ledger := d.link.ledger.updateDevice d.identity.id ⟨some d.supportedMetrics, none⟩
    have hsend : d.act (.sendMetrics model d.supportedMetrics) =
        ({ d with link := { d.link with ledger } }, .ok [.writeModel model d.supportedMetrics]) := by
      simp only [act, LedgerLink.updateDevice, LedgerLink.attempt, hup]
      rfl
    refine ⟨ledger.devices, ledger.updates, ?_⟩
    rw [perform_succ, hsend, confirmed, hup]
    rfl

/-- the entry has become the identity, the login has been announced, and the ledger knows of the metrics or not -/
def Greets (model : DeviceModel) (d d' : Device) : Prop :=
  ∃ bus devices updates, d' =
    { d with
      identity := { d.identity with model := some (d.confirmed model) }
      bus
      link := { d.link with ledger := { d.link.ledger with devices, updates } } }

/-- a login that is not refused takes the entry for the identity and warms up -/
theorem login_of_match (h : model.id = d.identity.id) :
    ∃ d', Greets model d d' ∧ d.login model = d'.warmUp model.location := by
  have hadopt : d.act (.adopt model) = ({ d with identity := (d.identity.adopt model).2 }, .ok []) := if_pos h
  let adopted : Device := { d with identity := (d.identity.adopt model).2, bus := d.bus.emit .loggedOn }
  have hmodel : adopted.identity.model = some model := rfl
  obtain ⟨devices, updates, hread⟩ := perform_readModel hmodel
  refine ⟨_, ⟨adopted.bus, devices, updates, rfl⟩, ?_⟩
  rw [login, loginActs, run_of_ok hadopt, run_of_ok rfl]
  show adopted.run [.readModel, .readOrigin, .checkOperating] = _
  rw [run_eq, inTurn_cons, show depth .readModel = 8 from rfl, hread]
  exact run_warmUp (congrArg some (confirmed_location d model))

/-- The same login once more says again that the device is logged on, and tells the ledger again. -/
theorem login_twice (hledger : d.link.ledger.assets.IsBy Asset.id) (hsound : d.toPlanner.Sound)
    (hopen : d.lifecycle = .operating → d.engine.isOpen = true) (model : DeviceModel) :
    ∃ bus link, (d.login model).1.login model = ({ (d.login model).1 with bus, link }, (d.login model).2) := by
  by_cases hid : model.id = d.identity.id
  · obtain ⟨d₁, ⟨bus, devices, updates, hd₁⟩, hlogin⟩ := login_of_match hid
    obtain ⟨engine, assets, requests, hwarmUp⟩ := warmUp_eq d₁ model.location
    obtain ⟨hwarm, hverdict⟩ := warmUp_warm (d := d₁) (by rw [hd₁]; exact hledger) (by rw [hd₁]; exact { hsound with })
      (by rw [hd₁]; exact hopen) model.location
    rw [hlogin, hverdict]
    generalize (d₁.warmUp model.location).1 = once at *
    -- the second login finds the identity that the first has left
    have hidentity : once.identity = { d.identity with model := some (d.confirmed model) } := by rw [hwarmUp, hd₁]
    have hconfirmed : once.confirmed model = d.confirmed model := by
      rw [hwarmUp, hd₁]
      rfl
    have hid₁ : model.id = once.identity.id := hid.trans (by rw [hidentity])
    obtain ⟨d₂, ⟨bus, devices, updates, hd₂⟩, hagain⟩ := login_of_match hid₁
    let link : LedgerLink := { once.link with ledger := { once.link.ledger with devices, updates } }
    have hd₂ : d₂ = { once with bus, link } := by
      rw [hconfirmed, hidentity] at hd₂
      rw [hd₂, ← hidentity]
    have hwarm₂ : d₂.Warm model.location := by
      rw [hd₂]
      exact hwarm
    refine ⟨bus, link, ?_⟩
    rw [hagain, hwarm₂.warmUp_eq, hd₂]
    rfl
  · have hact : d.act (.adopt model) =
        (d, .error (.of ("Device model " ++ model.id ++ " does not match device id " ++ d.identity.id))) := if_neg hid
    have hlogin : d.login model = (d, some (.of _)) := run_of_error hact
    rw [hlogin]
    exact ⟨d.bus, d.link, hlogin⟩

end Device

namespace Agenda

open Device

/--
**A login that is repeated changes nothing.** Take a device in any state that it can get into, with any outages, a ledger
that has each asset under its own id, and any entry. If nothing goes on in between, the same login once more ends as the
first one did, and leaves the device as it is but for the bus, where the login is announced again, and the link, over
which the ledger is told again of the metrics. So the identity stays, and so do the assets, the requests with the
subscriptions that they hold, and the engine: no flag is issued, no subscription is new, and no order is queued.
-/
theorem login_again (id : String) (harvestTimeout scanTimeout : Duration) (policy : Reduction) (threshold : Float)
    (ops : List Op) (model : DeviceModel) :
    let d := ((new (Device.new id harvestTimeout scanTimeout policy threshold)).performAll ops).device
    d.link.ledger.assets.IsBy Asset.id →
      let once := d.login model
      let twice := once.1.login model
      twice.2 = once.2 ∧ ∃ bus link, twice.1 = { once.1 with bus, link } := by
  intro d hledger once twice
  have hsound := performAll_sound (start_sound id harvestTimeout scanTimeout policy threshold) ops
  have hopen : d.lifecycle = .operating → d.engine.isOpen = true := fun hoperating =>
    (hsound.takesOrders fun hclosed => by cases hoperating.symm.trans hclosed).isOpen
  obtain ⟨bus, link, htwice⟩ := login_twice hledger hsound.planner hopen model
  have htwice : twice = ({ once.1 with bus, link }, once.2) := htwice
  exact ⟨by rw [htwice], bus, link, by rw [htwice]⟩

/-- The device operates and is not logged on; the ledger has an asset where the device will be, with requirements. -/
def unpaired : List Op :=
  [.besides (.link fun k =>
      { k with ledger := (k.ledger.putAsset (spotAsset "a1")).putRequirements (spotRequirements "r1" "a1") }),
    .begin .init, .begin .operate] ++ List.replicate 8 (.proceed 0) ++ List.replicate 4 (.proceed 1)

/-- the first login subscribes to the readings of the asset, and the second one does not -/
theorem login_again_unpaired :
    let d := ((new (Device.new "dev-1" ⟨500⟩ ⟨1000⟩ .mean 10.0)).performAll unpaired).device
    let once := (d.login spotDevice).1
    d.engine.subscriptions = [] ∧ once.engine.subscriptions.length = 1 ∧
      (once.login spotDevice).1.engine = once.engine := by
  obtain ⟨-, bus, link, htwice⟩ := login_again "dev-1" ⟨500⟩ ⟨1000⟩ .mean 10.0 unpaired spotDevice
    (Keyed.isBy_iff.2 (by decide +kernel))
  have hengine := congrArg (fun d : Device => d.engine) htwice
  exact ⟨by decide +kernel, by decide +kernel, hengine⟩

end Agenda

end SensorNode
