/-
The assets that a site keeps, as what its listener to assets makes of them. The listener takes in the events of its
stream one after the other, and in between entries are adopted and the device logs off (`Op`). Of an asset the site
keeps what the last event says that is about it, if the device had a location then and the asset is near it
(`assets_outcome`). An event that cannot be read does nothing, and the listener goes on with the next.
-/
import SensorNode.Proofs.Site.Changes

namespace SensorNode

/-- a distance is within the threshold only if it is a number -/
theorem Location.isNear_iff (a origin : Location) (threshold : Float) :
    a.isNear origin threshold = true ↔ (a.distance origin).isNaN = false ∧ a.distance origin ≤ threshold := by
  unfold isNear
  rw [decide_eq_true_iff]
  refine ⟨fun hle => ⟨?_, hle⟩, And.right⟩
  have hcompare : (a.distance origin).toModel.unpack.le threshold.toModel.unpack = true := of_decide_eq_true hle
  unfold Float.isNaN Float.Model.isNaN
  cases hdistance : (a.distance origin).toModel.unpack with
  | notANumber =>
    rw [hdistance] at hcompare
    cases hcompare
  | _ => rfl

/-- an event about an asset brings it, unless it removes it -/
theorem ChangeEvent.assetOf_eq_some_iff {event : ChangeEvent} {id : String} (h : (event.assetOf id).isSome) (a : Asset) :
    event.assetOf id = some (some a) ↔ event.kind ≠ .removed ∧ event.decode? Asset.ofRaw? = some a := by
  rcases hnews : event.asset? with _ | ⟨id', v⟩
  · rw [assetOf, newsOf_of_none hnews] at h
    cases h
  rw [assetOf, newsOf_of_some hnews] at h ⊢
  split_ifs at h ⊢
  swap
  · cases h
  rw [Option.some.injEq]
  unfold asset? news? at hnews
  cases hkind : event.kind <;> rw [hkind] at hnews <;> obtain ⟨v', hdecode, he⟩ := Option.map_eq_some_iff.1 hnews <;>
    cases he <;> simp [hdecode]

namespace Site

variable {s : Site} {n : Nat} {topic : Topic} {event : ChangeEvent} {rest : List ChangeEvent}

/-! ## A listener and its stream -/

/-- the listener `n` has a stream of this topic, in which these events wait -/
def Attends (s : Site) (n : Nat) (topic : Topic) (waiting : List ChangeEvent) : Prop :=
  ∃ (k : Nat) (c : ChangeStream), s.watch.listeners[n]? = some ⟨topic, .listening k⟩ ∧
    s.link.ledger.streams[k]? = some c ∧ c.unread = waiting

theorem Attends.of_eq {s' : Site} (h : s.Attends n topic rest) (hwatch : s'.watch = s.watch) (hlink : s'.link = s.link) :
    s'.Attends n topic rest := by
  unfold Attends
  rw [hwatch, hlink]
  exact h

/-- the listener takes in the first event, and the others wait -/
theorem Attends.listen (h : s.Attends n topic (event :: rest)) :
    ∃ link, s.listen n = { s with link }.applyChange topic event ∧ (s.listen n).Attends n topic rest := by
  obtain ⟨k, c, hl, hc, hunread⟩ := h
  have hlisten := listen_of_unread hl hc hunread
  refine ⟨(s.read k).link, hlisten, ?_⟩
  have hread : (s.read k).Attends n topic rest := by
    refine ⟨k, c.next, hl, ?_, ChangeStream.unread_next hunread⟩
    have hstream := Ledger.updateStream_getElem? s.link.ledger k k ChangeStream.next
    rw [if_pos rfl, hc] at hstream
    exact hstream
  rw [hlisten]
  cases topic with
  | assets =>
    obtain ⟨assets, happly⟩ := applyAsset_eq (s.read k) event
    exact hread.of_eq (by rw [applyChange, happly]) (by rw [applyChange, happly])
  | devices =>
    obtain ⟨identity, bus, happly⟩ := applyDevice_eq (s.read k) event
    exact hread.of_eq (by rw [applyChange, happly]) (by rw [applyChange, happly])
  | requirements =>
    obtain ⟨engine, requests, events, sent, happly⟩ := applyRequirements_eq (s.read k) event
    exact hread.of_eq (by rw [applyChange, happly]) (by rw [applyChange, happly])

/-! ## What events make of assets -/

/-- what goes on at a site while its listener to assets takes in events -/
inductive Op
  /-- the listener takes in its next event, which is this one -/
  | take (event : ChangeEvent)
  | adopt (model : DeviceModel)
  | logOff

def perform (n : Nat) (s : Site) : Op → Site
  | .take _ => s.listen n
  | .adopt model => { s with identity := (s.identity.adopt model).2 }
  | .logOff => { s with identity := s.identity.clear.2 }

def performAll (n : Nat) (s : Site) (ops : List Op) : Site := ops.foldl (perform n) s

/-- what is near is what the device has a location for, and is not farther from it than the threshold -/
theorem near_eq_some_iff (s : Site) (v : Option Asset) (a : Asset) :
    s.near v = some a ↔ v = some a ∧ ∃ origin, s.identity.location? = some origin ∧
      (a.location.distance origin).isNaN = false ∧ a.location.distance origin ≤ s.threshold := by
  unfold near
  simp only [Option.filter_eq_some_iff, Option.any_eq_true, Location.isNear_iff]

theorem performAll_append (n : Nat) (s : Site) (ops ops' : List Op) :
    s.performAll n (ops ++ ops') = (s.performAll n ops).performAll n ops' := List.foldl_append

/-- the events that are taken in -/
def taken : List Op → List ChangeEvent
  | [] => []
  | .take event :: ops => event :: taken ops
  | _ :: ops => taken ops

theorem taken_append (ops ops' : List Op) : taken (ops ++ ops') = taken ops ++ taken ops' := by
  induction ops with
  | nil => rfl
  | cons op ops ih => cases op <;> simp [taken, ih]

variable {ops : List Op}

/-- an event that is taken in decides about its asset, by the location of the device at that time -/
theorem Attends.take (h : s.Attends n .assets (event :: rest)) :
    (s.listen n).Attends n .assets rest ∧ (s.listen n).threshold = s.threshold ∧
      ∀ id, (s.listen n).assets.find? id =
        match event.assetOf id with
        | some v => s.near v
        | none => s.assets.find? id := by
  obtain ⟨link, hlisten, hattends⟩ := h.listen
  refine ⟨hattends, ?_, fun id => ?_⟩
  · obtain ⟨assets, happly⟩ := applyAsset_eq { s with link } event
    rw [hlisten, applyChange, happly]
  · rw [hlisten]
    exact applyAsset_find? { s with link } event id

/-- the listener goes on to the end, and assets that no event is about stay as they are -/
theorem Attends.performAll (h : s.Attends n .assets (taken ops ++ rest)) :
    (s.performAll n ops).Attends n .assets rest ∧ (s.performAll n ops).threshold = s.threshold ∧
      ∀ id, (∀ event ∈ taken ops, event.assetOf id = none) →
        (s.performAll n ops).assets.find? id = s.assets.find? id := by
  induction ops generalizing s with
  | nil => exact ⟨h, rfl, fun _ _ => rfl⟩
  | cons op ops ih =>
    cases op with
    | take event =>
      obtain ⟨hattends, hthreshold, hfind⟩ := Attends.take h
      obtain ⟨hrest, hsame, hkept⟩ := ih hattends
      refine ⟨hrest, hsame.trans hthreshold, fun id hnone => ?_⟩
      refine (hkept id fun event' hevent' => hnone event' (List.mem_cons_of_mem event hevent')).trans ?_
      rw [hfind, hnone event List.mem_cons_self]
    | adopt model => exact ih (s := s.perform n (.adopt model)) h
    | logOff => exact ih (s := s.perform n .logOff) h

/-- **The assets listener.** It takes in the events of its stream, however entries are adopted and the device logs off in
between, and none of them stops it. An asset that no event is about is kept as before. Any other is kept if and only if
the last event about it brings it, and the device had a location then from which the asset is not farther than the
threshold; what is kept is what the event brings. An event that cannot be read does nothing. -/
theorem assets_outcome (h : s.Attends n .assets (taken ops ++ rest)) :
    let done := s.performAll n ops
    done.Attends n .assets rest ∧
      (∀ id, (∀ event ∈ taken ops, event.assetOf id = none) → done.assets.find? id = s.assets.find? id) ∧
      ∀ before event after, ops = before ++ .take event :: after →
        let s' := s.performAll n before
        (event.asset? = none → ∃ link, s'.listen n = { s' with link }) ∧
          ∀ id, (event.assetOf id).isSome → (∀ later ∈ taken after, later.assetOf id = none) →
            ∀ a, done.assets.find? id = some a ↔
              event.kind ≠ .removed ∧ event.decode? Asset.ofRaw? = some a ∧
                ∃ origin, s'.identity.location? = some origin ∧
                  (a.location.distance origin).isNaN = false ∧ a.location.distance origin ≤ s.threshold := by
  intro done
  obtain ⟨hattends, -, hkept⟩ := h.performAll
  refine ⟨hattends, hkept, ?_⟩
  rintro before event after rfl s'
  rw [taken_append, List.append_assoc] at h
  obtain ⟨hthen, hthreshold, -⟩ := h.performAll
  refine ⟨fun hmalformed => ?_, fun id hnamed hlast a => ?_⟩
  · obtain ⟨link, hlisten, -⟩ := hthen.listen
    refine ⟨link, hlisten.trans ((applyAsset_eq_heard _ event).trans ?_)⟩
    rw [hmalformed]
    rfl
  · obtain ⟨hnext, -, hfind⟩ := Attends.take hthen
    obtain ⟨-, -, hafter⟩ := hnext.performAll
    obtain ⟨v, hv⟩ := Option.isSome_iff_exists.1 hnamed
    have hdone : done.assets.find? id = s'.near v := by
      refine (congrArg (fun s : Site => s.assets.find? id) (performAll_append n s before _)).trans ?_
      refine (hafter id hlast).trans ?_
      rw [hfind, hv]
    have hbrings : v = some a ↔ event.kind ≠ .removed ∧ event.decode? Asset.ofRaw? = some a := by
      rw [← ChangeEvent.assetOf_eq_some_iff hnamed, hv, Option.some.injEq]
    calc done.assets.find? id = some a ↔ s'.near v = some a := by rw [hdone]
      _ ↔ _ := s'.near_eq_some_iff v a
      _ ↔ _ := by rw [hbrings, hthreshold, and_assoc]

/-- a site that listens to assets, in whose stream these events wait -/
def attentiveTo (events : List ChangeEvent) : Site :=
  let s := new "dev-1" ⟨500⟩ .mean 10.0
  let s := ({ s with identity := (s.identity.adopt spotDevice).2 } : Site).start.listen 0
  { s with link := { s.link with ledger := events.foldl (fun l event => l.publish .assets event) s.link.ledger } }

/-- An asset comes while the device is where the asset is. Then an event comes that cannot be read, and the device logs
off. -/
theorem assets_outcome_malformed_between :
    let put : ChangeEvent := .of .inserted (spotAsset "a1").toJson
    let malformed : ChangeEvent := ⟨.updated, .null⟩
    let removed : ChangeEvent := .of .removed (spotAsset "a2").toJson
    let done := (attentiveTo [put, malformed, removed]).performAll 0
      [.logOff, .adopt spotDevice, .take put, .take malformed, .logOff, .take removed]
    done.Attends 0 .assets [] ∧ done.assets.find? "a1" = some (spotAsset "a1") := by
  intro put malformed removed done
  have hfinite : (spotAsset "a1").location.isFinite = true := by decide +kernel
  have hattends : (attentiveTo [put, malformed, removed]).Attends 0 .assets [put, malformed, removed] :=
    ⟨0, ⟨.assets, [put, malformed, removed], 0, false, false⟩, rfl, rfl, rfl⟩
  have hput : put.assetOf "a1" = some (some (spotAsset "a1")) :=
    (ChangeEvent.newsOf_of_some (ChangeEvent.asset?_put hfinite false) "a1").trans (if_pos rfl)
  have hremoved : removed.assetOf "a1" = none :=
    (ChangeEvent.newsOf_of_some (ChangeEvent.asset?_removed (spotAsset "a2")) "a1").trans (if_neg (by decide))
  obtain ⟨hdrained, -, hevents⟩ := assets_outcome (show (attentiveTo [put, malformed, removed]).Attends 0 .assets
    (taken [.logOff, .adopt spotDevice, .take put, .take malformed, .logOff, .take removed] ++ []) from hattends)
  refine ⟨hdrained, ?_⟩
  obtain ⟨-, hkept⟩ := hevents [.logOff, .adopt spotDevice] put [.take malformed, .logOff, .take removed] rfl
  refine (hkept "a1" (by rw [hput]; rfl) ?_ (spotAsset "a1")).2 ⟨by decide, Asset.decode_of hfinite .inserted, spot, rfl, ?_⟩
  · intro later hlater
    rcases List.mem_cons.1 hlater with rfl | hlater
    · rfl
    · rw [List.mem_singleton.1 hlater]
      exact hremoved
  · decide +kernel

end Site

end SensorNode
