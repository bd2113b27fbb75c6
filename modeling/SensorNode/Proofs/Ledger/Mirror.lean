/-
What the streams of the ledger say of its store. A put and a removal are announced to the open streams of their topic
(`announces`), and an announcement, replayed on the images of what was stored, gives the images of what is stored then
(`perform_of_announces`). Whatever else is done leaves the store as it is (`silent_cases`), but for an update of a device
by patch, which is announced to nobody. So a stream of assets or requirements mirrors the store from its subscription on,
as long as it is open (`streams_mirror`).
-/
import SensorNode.Proofs.Site.Changes

namespace SensorNode

namespace Ledger

inductive Op
  | putAsset (a : Asset)
  | removeAsset (id : String)
  | putDevice (d : DeviceModel)
  | removeDevice (id : String)
  | updateDevice (id : String) (patch : DevicePatch)
  | putRequirements (q : Requirements)
  | removeRequirements (id : String)
  | subscribe (topic : Topic)
  /-- the reader of a stream takes an event off it -/
  | read (stream : Nat)
  | drop (stream : Nat)
  | close

def perform (l : Ledger) : Op → Ledger
  | .putAsset a => l.putAsset a
  | .removeAsset id => l.removeAsset id
  | .putDevice d => l.putDevice d
  | .removeDevice id => l.removeDevice id
  | .updateDevice id patch => l.updateDevice id patch
  | .putRequirements q => l.putRequirements q
  | .removeRequirements id => l.removeRequirements id
  | .subscribe topic => (l.subscribe topic).2
  | .read stream => ((l.next? stream).map Prod.snd).getD l
  | .drop stream => l.dropStream stream
  | .close => l.close

/-- it changes an entity of this topic, and tells nobody -/
def Op.patches (topic : Topic) : Op → Bool
  | .updateDevice _ _ => topic = .devices
  | _ => false

/-- it ends the stream `n` -/
def Op.shuts (n : Nat) : Op → Bool
  | .drop stream => stream = n
  | .close => true
  | _ => false

def performAll (l : Ledger) (ops : List Op) : Ledger := ops.foldl perform l

theorem performAll_append (l : Ledger) (ops ops' : List Op) :
    l.performAll (ops ++ ops') = (l.performAll ops).performAll ops' := List.foldl_append

/-- what is said of an operation, and to the streams of which topic -/
def announces (l : Ledger) : Op → Option (Topic × ChangeEvent)
  | .putAsset a => some (.assets, .of (putKind (l.assets.contains a.id)) a.toJson)
  | .removeAsset id => (l.assets.find? id).map fun a => (.assets, .of .removed a.toJson)
  | .putDevice d => some (.devices, .of (putKind (l.devices.contains d.id)) d.toJson)
  | .removeDevice id => (l.devices.find? id).map fun d => (.devices, .of .removed d.toJson)
  | .putRequirements q => some (.requirements, .of (putKind (l.requirements.contains q.id)) q.toJson)
  | .removeRequirements id => (l.requirements.find? id).map fun q => (.requirements, .of .removed q.toJson)
  | _ => none

/-- what is said of an operation to the streams of a topic -/
def news (l : Ledger) (topic : Topic) (op : Op) : List ChangeEvent :=
  match l.announces op with
  | some (topic', event) => if topic = topic' then [event] else []
  | none => []

/-- all that is said to the streams of a topic during a run -/
def announced (l : Ledger) (topic : Topic) : List Op → List ChangeEvent
  | [] => []
  | op :: ops => l.news topic op ++ (l.perform op).announced topic ops

/-- the images of what is stored, as they stand in events -/
def images (l : Ledger) : Topic → Keyed String Json
  | .assets => l.assets.mapValues fun a => a.toJson.sorted
  | .devices => l.devices.mapValues fun d => d.toJson.sorted
  | .requirements => l.requirements.mapValues fun q => q.toJson.sorted

/-- Replays an event on images of what is stored. An entity that is inserted must be absent, and one that is updated or
removed must be there. -/
def replay? (stored : Keyed String Json) (event : ChangeEvent) : Option (Keyed String Json) :=
  (event.decode? Entity.idOfRaw?).bind fun id =>
    match event.kind with
    | .inserted => if stored.contains id then none else some (stored.insert id event.entity)
    | .updated => if stored.contains id then some (stored.insert id event.entity) else none
    | .removed => if stored.contains id then some (stored.erase id) else none

/-- replays events one after the other -/
def replayAll? (stored : Keyed String Json) (events : List ChangeEvent) : Option (Keyed String Json) :=
  events.foldlM replay? stored

variable {l : Ledger} {ops : List Op}

/-! ## What announcements say -/

theorem replayAll?_append {stored stored' : Keyed String Json} {events : List ChangeEvent}
    (h : replayAll? stored events = some stored') (events' : List ChangeEvent) :
    replayAll? stored (events ++ events') = replayAll? stored' events' := by
  have happend : replayAll? stored (events ++ events') =
      (replayAll? stored events).bind fun stored => replayAll? stored events' := List.foldlM_append
  rw [happend, h, Option.bind_some]

section

variable {α : Type} {key : α → String} {toJson : α → Json}

theorem replay?_put (hid : ∀ v kind, (ChangeEvent.of kind (toJson v)).decode? Entity.idOfRaw? = some (key v))
    (m : Keyed String α) (v : α) :
    replay? (m.mapValues fun v => (toJson v).sorted) (.of (putKind (m.contains (key v))) (toJson v)) =
      some ((m.insert (key v) v).mapValues fun v => (toJson v).sorted) := by
  unfold replay?
  rw [hid, Option.bind_some, Keyed.mapValues_contains, Keyed.mapValues_insert]
  cases m.contains (key v) <;> rfl

theorem replay?_removed (hid : ∀ v kind, (ChangeEvent.of kind (toJson v)).decode? Entity.idOfRaw? = some (key v))
    (m : Keyed String α) {v : α} (hv : m.contains (key v) = true) :
    replay? (m.mapValues fun v => (toJson v).sorted) (.of .removed (toJson v)) =
      some ((m.erase (key v)).mapValues fun v => (toJson v).sorted) := by
  unfold replay?
  rw [hid, Option.bind_some, Keyed.mapValues_contains, Keyed.mapValues_erase, hv]
  rfl

end

/-- every entity is under its own id -/
structure IsKeyed (l : Ledger) : Prop where
  assets : l.assets.IsBy Asset.id
  devices : l.devices.IsBy DeviceModel.id
  requirements : l.requirements.IsBy Requirements.id

theorem new_isKeyed : IsKeyed new where
  assets := Keyed.isBy_empty
  devices := Keyed.isBy_empty
  requirements := Keyed.isBy_empty

/-- the images of what is stored have become those that the event leads to, and those of other topics are the same -/
structure Follows (l : Ledger) (topic : Topic) (event : ChangeEvent) (l' : Ledger) : Prop where
  isKeyed : l'.IsKeyed
  streams : l'.streams = l.streams
  replay : replay? (l.images topic) event = some (l'.images topic)
  other : ∀ topic', topic' ≠ topic → l'.images topic' = l.images topic'

theorem images_of_ne_assets (l : Ledger) (assets : Keyed String Asset) (topic : Topic) (h : topic ≠ .assets) :
    images { l with assets } topic = l.images topic := by
  cases topic <;> first | rfl | exact absurd rfl h

theorem images_of_ne_devices (l : Ledger) (devices : Keyed String DeviceModel) (topic : Topic) (h : topic ≠ .devices) :
    images { l with devices } topic = l.images topic := by
  cases topic <;> first | rfl | exact absurd rfl h

theorem images_of_ne_requirements (l : Ledger) (requirements : Keyed String Requirements) (topic : Topic)
    (h : topic ≠ .requirements) : images { l with requirements } topic = l.images topic := by
  cases topic <;> first | rfl | exact absurd rfl h

/-- What is said of an operation is what becomes of the store. -/
theorem perform_of_announces (h : l.IsKeyed) {op : Op} {topic : Topic} {event : ChangeEvent}
    (hsaid : l.announces op = some (topic, event)) :
    ∃ l', Follows l topic event l' ∧ l.perform op = l'.publish topic event := by
  cases op with
  | putAsset a =>
    cases hsaid
    refine ⟨{ l with assets := l.assets.insert a.id a }, ⟨?_, rfl, ?_, l.images_of_ne_assets _⟩, rfl⟩
    · exact { h with assets := h.assets.insert a }
    · exact replay?_put Asset.decode_id l.assets a
  | putDevice d =>
    cases hsaid
    refine ⟨{ l with devices := l.devices.insert d.id d }, ⟨?_, rfl, ?_, l.images_of_ne_devices _⟩, rfl⟩
    · exact { h with devices := h.devices.insert d }
    · exact replay?_put DeviceModel.decode_id l.devices d
  | putRequirements q =>
    cases hsaid
    refine ⟨{ l with requirements := l.requirements.insert q.id q }, ⟨?_, rfl, ?_, l.images_of_ne_requirements _⟩, rfl⟩
    · exact { h with requirements := h.requirements.insert q }
    · exact replay?_put Requirements.decode_id l.requirements q
  | removeAsset id =>
    obtain ⟨a, hfind, he⟩ := Option.map_eq_some_iff.1 hsaid
    cases he
    obtain rfl := h.assets id a hfind
    refine ⟨{ l with assets := l.assets.erase a.id }, ⟨?_, rfl, ?_, l.images_of_ne_assets _⟩, ?_⟩
    · exact { h with assets := h.assets.erase a.id }
    · exact replay?_removed Asset.decode_id l.assets (Keyed.contains_of_find? hfind)
    · simp only [perform, removeAsset, hfind]
  | removeDevice id =>
    obtain ⟨d, hfind, he⟩ := Option.map_eq_some_iff.1 hsaid
    cases he
    obtain rfl := h.devices id d hfind
    refine ⟨{ l with devices := l.devices.erase d.id }, ⟨?_, rfl, ?_, l.images_of_ne_devices _⟩, ?_⟩
    · exact { h with devices := h.devices.erase d.id }
    · exact replay?_removed DeviceModel.decode_id l.devices (Keyed.contains_of_find? hfind)
    · simp only [perform, removeDevice, hfind]
  | removeRequirements id =>
    obtain ⟨q, hfind, he⟩ := Option.map_eq_some_iff.1 hsaid
    cases he
    obtain rfl := h.requirements id q hfind
    refine ⟨{ l with requirements := l.requirements.erase q.id }, ⟨?_, rfl, ?_, l.images_of_ne_requirements _⟩, ?_⟩
    · exact { h with requirements := h.requirements.erase q.id }
    · exact replay?_removed Requirements.decode_id l.requirements (Keyed.contains_of_find? hfind)
    · simp only [perform, removeRequirements, hfind]
  | _ => cases hsaid

/-- what an operation that says nothing may do to the stream with this number -/
structure Quiet (op : Op) (n : Nat) (c c' : ChangeStream) : Prop where
  topic : c'.topic = c.topic
  events : c'.events = c.events
  isOpen : c'.isOpen = (c.isOpen && !op.shuts n)

theorem Quiet.refl {op : Op} {n : Nat} (h : op.shuts n = false) (c : ChangeStream) : Quiet op n c c := by
  refine ⟨rfl, rfl, ?_⟩
  rw [h]
  exact (Bool.and_true _).symm

/-- An operation of which nothing is said updates a device by patch, opens a stream, or does no more than to end some. -/
theorem silent_cases {op : Op} (hsaid : l.announces op = none) :
    (∃ id patch, op = .updateDevice id patch) ∨ (∃ topic, op = .subscribe topic) ∨
      ∃ streams, l.perform op = { l with streams } ∧
        ∀ n, ∃ change, streams[n]? = l.streams[n]?.map change ∧ ∀ c, Quiet op n c (change c) := by
  have same : l.perform op = l → (∀ n, op.shuts n = false) → ∃ streams, l.perform op = { l with streams } ∧
      ∀ n, ∃ change, streams[n]? = l.streams[n]?.map change ∧ ∀ c, Quiet op n c (change c) := by
    intro hperform hshuts
    exact ⟨l.streams, hperform, fun n => ⟨id, by rw [Option.map_id_fun, id], Quiet.refl (hshuts n)⟩⟩
  have update : ∀ {stream change}, l.perform op = l.updateStream stream change →
      (∀ c, Quiet op stream c (change c)) → (∀ n, stream ≠ n → op.shuts n = false) →
      ∃ streams, l.perform op = { l with streams } ∧
        ∀ n, ∃ change, streams[n]? = l.streams[n]?.map change ∧ ∀ c, Quiet op n c (change c) := by
    intro stream change hperform hquiet hshuts
    refine ⟨_, hperform, fun n => ?_⟩
    have hstream := updateStream_getElem? l stream n change
    by_cases hn : stream = n
    · subst hn
      exact ⟨change, hstream.trans (if_pos rfl), hquiet⟩
    · refine ⟨id, hstream.trans ?_, Quiet.refl (hshuts n hn)⟩
      rw [if_neg hn, Option.map_id_fun, id]
  cases op with
  | putAsset _ | putDevice _ | putRequirements _ => cases hsaid
  | updateDevice id patch => exact Or.inl ⟨id, patch, rfl⟩
  | subscribe topic => exact Or.inr (Or.inl ⟨topic, rfl⟩)
  | removeAsset id =>
    refine Or.inr (Or.inr (same ?_ fun _ => rfl))
    simp only [perform, removeAsset, Option.map_eq_none_iff.1 hsaid]
  | removeDevice id =>
    refine Or.inr (Or.inr (same ?_ fun _ => rfl))
    simp only [perform, removeDevice, Option.map_eq_none_iff.1 hsaid]
  | removeRequirements id =>
    refine Or.inr (Or.inr (same ?_ fun _ => rfl))
    simp only [perform, removeRequirements, Option.map_eq_none_iff.1 hsaid]
  | read stream =>
    refine Or.inr (Or.inr ?_)
    cases hread : l.next? stream with
    | none => exact same (by simp only [perform, hread]; rfl) fun _ => rfl
    | some read =>
      obtain ⟨c, -, hc⟩ := Option.bind_eq_some_iff.1 hread
      obtain ⟨event, -, rfl⟩ := Option.map_eq_some_iff.1 hc
      have hperform : l.perform (.read stream) = l.updateStream stream ChangeStream.next := by
        simp only [perform, hread]
        rfl
      exact update hperform (fun c => ⟨rfl, rfl, (Bool.and_true _).symm⟩) fun _ _ => rfl
  | drop stream =>
    refine Or.inr (Or.inr (update rfl (fun c => ⟨rfl, rfl, ?_⟩) fun n hn => decide_eq_false hn))
    simp [Op.shuts, ChangeStream.isOpen]
  | close =>
    refine Or.inr (Or.inr ⟨_, rfl, fun n => ⟨_, List.getElem?_map, fun c => ⟨rfl, rfl, ?_⟩⟩⟩)
    exact (Bool.and_false _).symm

theorem IsKeyed.updateDevice (h : l.IsKeyed) (id : String) (patch : DevicePatch) : (l.updateDevice id patch).IsKeyed := by
  refine { h with devices := fun id' d hd => ?_ }
  have hd : (l.devices.modify id patch.apply).find? id' = some d := hd
  rw [Keyed.find?_modify] at hd
  split_ifs at hd with hid
  · obtain ⟨d', hd', rfl⟩ := Option.map_eq_some_iff.1 hd
    rw [hid]
    exact h.devices id d' hd'
  · exact h.devices id' d hd

/-- nothing is said of what does not concern the store, nor of an update by patch -/
theorem perform_of_silent (h : l.IsKeyed) {op : Op} (hsaid : l.announces op = none) :
    (l.perform op).IsKeyed ∧ ∀ topic, op.patches topic = false → (l.perform op).images topic = l.images topic := by
  rcases silent_cases hsaid with ⟨id, patch, rfl⟩ | ⟨topic, rfl⟩ | ⟨streams, hperform, -⟩
  · refine ⟨h.updateDevice id patch, fun topic hop => ?_⟩
    cases topic with
    | devices => cases hop
    | _ => rfl
  · exact ⟨{ h with }, fun topic _ => by cases topic <;> rfl⟩
  · rw [hperform]
    exact ⟨{ h with }, fun topic _ => by cases topic <;> rfl⟩

theorem IsKeyed.perform (h : l.IsKeyed) (op : Op) : (l.perform op).IsKeyed := by
  cases hsaid : l.announces op with
  | none => exact (perform_of_silent h hsaid).1
  | some said =>
    obtain ⟨l', hfollows, hperform⟩ := perform_of_announces h hsaid
    rw [hperform]
    exact { hfollows.isKeyed with }

/-- The news of an operation, replayed on the images of what was stored, give the images of what is stored then. -/
theorem replayAll?_news (h : l.IsKeyed) {topic : Topic} {op : Op} (hop : op.patches topic = false) :
    replayAll? (l.images topic) (l.news topic op) = some ((l.perform op).images topic) := by
  unfold news
  cases hsaid : l.announces op with
  | none =>
    rw [(perform_of_silent h hsaid).2 topic hop]
    rfl
  | some said =>
    obtain ⟨topic', event⟩ := said
    obtain ⟨l', hfollows, hperform⟩ := perform_of_announces h hsaid
    have himages : (l.perform op).images topic = l'.images topic := by
      rw [hperform]
      cases topic <;> rfl
    rw [himages]
    by_cases htopic : topic = topic'
    · subst htopic
      dsimp only
      rw [if_pos rfl]
      exact (bind_pure _).trans hfollows.replay
    · dsimp only
      rw [if_neg htopic, ← hfollows.other topic htopic]
      rfl

/-- what is said during a run, replayed, leads from the images of what was stored to those of what is stored then -/
theorem replayAll?_announced (h : l.IsKeyed) {topic : Topic} (hops : ∀ op ∈ ops, op.patches topic = false) :
    replayAll? (l.images topic) (l.announced topic ops) = some ((l.performAll ops).images topic) := by
  induction ops generalizing l with
  | nil => rfl
  | cons op ops ih =>
    have hrest := ih (h.perform op) fun op' hop' => hops op' (List.mem_cons_of_mem op hop')
    have hone := replayAll?_news h (hops op List.mem_cons_self)
    exact (replayAll?_append hone _).trans hrest

/-! ## What becomes of the streams -/

/-- what an operation makes of a stream with this number -/
structure Grows (l : Ledger) (op : Op) (n : Nat) (c c' : ChangeStream) : Prop where
  topic : c'.topic = c.topic
  isOpen : c'.isOpen = (c.isOpen && !op.shuts n)
  events : c'.events = c.events ++ if c.isOpen then l.news c.topic op else []

theorem Quiet.grows {op : Op} {n : Nat} {c c' : ChangeStream} (h : Quiet op n c c') (hsaid : l.announces op = none) :
    Grows l op n c c' := by
  refine ⟨h.topic, h.isOpen, ?_⟩
  rw [h.events, news, hsaid]
  split_ifs <;> exact (List.append_nil _).symm

theorem Grows.told {op : Op} {n : Nat} {topic : Topic} {event : ChangeEvent} (hsaid : l.announces op = some (topic, event))
    (hshuts : op.shuts n = false) (c : ChangeStream) : Grows l op n c (c.told topic event) := by
  have hstays : c.isOpen = (c.isOpen && !op.shuts n) := by
    rw [hshuts]
    exact (Bool.and_true _).symm
  unfold ChangeStream.told
  by_cases htold : c.topic = topic ∧ c.isOpen = true
  · rw [if_pos htold]
    refine ⟨rfl, hstays, ?_⟩
    rw [if_pos htold.2, news, hsaid]
    exact congrArg (c.events ++ ·) (if_pos htold.1).symm
  · rw [if_neg htold]
    refine ⟨rfl, hstays, ?_⟩
    split_ifs with hopen
    · rw [news, hsaid]
      dsimp only
      rw [if_neg fun htopic => htold ⟨htopic, hopen⟩, List.append_nil]
    · exact (List.append_nil _).symm

/-- an operation opens a stream, or makes something of each that there is -/
theorem perform_streams (h : l.IsKeyed) (op : Op) (n : Nat) :
    (∃ topic, op = .subscribe topic) ∨
      ∃ change, (l.perform op).streams[n]? = l.streams[n]?.map change ∧ ∀ c, Grows l op n c (change c) := by
  cases hsaid : l.announces op with
  | some said =>
    obtain ⟨topic, event⟩ := said
    obtain ⟨l', hfollows, hperform⟩ := perform_of_announces h hsaid
    refine Or.inr ⟨ChangeStream.told topic event, ?_, Grows.told hsaid ?_⟩
    · rw [hperform, ← hfollows.streams]
      exact List.getElem?_map
    · cases op <;> first | rfl | cases hsaid
  | none =>
    rcases silent_cases hsaid with ⟨id, patch, rfl⟩ | hsubscribe | ⟨streams, hperform, hstreams⟩
    · refine Or.inr ⟨fun c => c, Option.map_id'.symm, fun c => (Quiet.refl rfl c).grows hsaid⟩
    · exact Or.inl hsubscribe
    · obtain ⟨change, hchange, hquiet⟩ := hstreams n
      rw [hperform]
      exact Or.inr ⟨change, hchange, fun c => (hquiet c).grows hsaid⟩

/-! ## Streams through a run -/

theorem announced_append (l : Ledger) (topic : Topic) (ops ops' : List Op) :
    l.announced topic (ops ++ ops') = l.announced topic ops ++ (l.performAll ops).announced topic ops' := by
  induction ops generalizing l with
  | nil => rfl
  | cons op ops ih =>
    simp only [List.cons_append, announced, ih, List.append_assoc]
    rfl

theorem IsKeyed.performAll (h : l.IsKeyed) (ops : List Op) : (l.performAll ops).IsKeyed := by
  induction ops generalizing l with
  | nil => exact h
  | cons op ops ih => exact ih (h.perform op)

/-- Where a stream comes from: somebody has subscribed to its topic. It is open unless it was dropped or the ledger was
closed since, and it has received what was said to its topic since, or the first part of that if it is not open any
more. -/
structure Origin (ops : List Op) (n : Nat) (c : ChangeStream) (before after : List Op) : Prop where
  ops : ops = before ++ .subscribe c.topic :: after
  number : n = (new.performAll before).streams.length
  isOpen : c.isOpen = !after.any (Op.shuts n)
  received : c.events <+: ((new.performAll before).perform (.subscribe c.topic)).announced c.topic after
  all : c.isOpen = true → c.events = ((new.performAll before).perform (.subscribe c.topic)).announced c.topic after

theorem Origin.extend {n : Nat} {c c' : ChangeStream} {before after : List Op} (h : Origin ops n c before after) {op : Op}
    (hgrows : Grows (new.performAll ops) op n c c') : Origin (ops ++ [op]) n c' before (after ++ [op]) := by
  let joined := (new.performAll before).perform (.subscribe c.topic)
  have hjoined : joined.performAll after = new.performAll ops := by
    rw [h.ops]
    exact (performAll_append new before (.subscribe c.topic :: after)).symm
  have hsaid : joined.announced c.topic (after ++ [op]) =
      joined.announced c.topic after ++ (new.performAll ops).news c.topic op := by
    rw [announced_append, hjoined]
    exact congrArg (_ ++ ·) (List.append_nil _)
  have hevents := hgrows.events
  refine ⟨?_, h.number, ?_, ?_, fun hopen => ?_⟩
  · rw [hgrows.topic, h.ops, List.append_assoc]
    rfl
  · rw [hgrows.isOpen, h.isOpen, List.any_append, Bool.not_or]
    simp
  · rw [hgrows.topic, hsaid, hevents]
    split_ifs with hopen
    · rw [h.all hopen]
    · rw [List.append_nil]
      exact h.received.trans (List.prefix_append _ _)
  · rw [hgrows.isOpen, Bool.and_eq_true] at hopen
    rw [hgrows.topic, hsaid, hevents, if_pos hopen.1, h.all hopen.1]

theorem exists_origin (ops : List Op) (n : Nat) (c : ChangeStream) (hc : (new.performAll ops).streams[n]? = some c) :
    ∃ before after, Origin ops n c before after := by
  induction ops using List.reverseRecOn generalizing c with
  | nil => cases hc
  | append_singleton ops op ih =>
    rw [performAll_append] at hc
    rcases perform_streams (new_isKeyed.performAll ops) op n with ⟨topic, rfl⟩ | ⟨change, hchange, hgrows⟩
    · have hc : ((new.performAll ops).streams ++ [⟨topic, [], 0, false, false⟩])[n]? = some c := hc
      rw [List.getElem?_append, List.getElem?_singleton] at hc
      split_ifs at hc with hold hnew
      · obtain ⟨before, after, horigin⟩ := ih c hc
        exact ⟨before, after ++ [.subscribe topic], horigin.extend ((Quiet.refl rfl c).grows rfl)⟩
      · obtain rfl := Option.some.inj hc
        exact ⟨ops, [], rfl, by omega, rfl, List.nil_prefix, fun _ => rfl⟩
    · obtain ⟨c₀, hc₀, rfl⟩ := Option.map_eq_some_iff.1 (hchange.symm.trans hc)
      obtain ⟨before, after, horigin⟩ := ih c₀ hc₀
      exact ⟨before, after ++ [op], horigin.extend (hgrows c₀)⟩

/-- **Streams mirror the store.** Let the ledger undergo any operations. Each stream that it has then was opened by one of
them, and is open unless it was dropped or the ledger was closed since. It has received what was said to its topic since
then, once and in order, or the first part of that if it is not open. An open stream of assets or requirements leads,
replayed on the images of what was stored at its subscription, to the images of what is stored now; whatever it says to
be inserted was absent at that point, and whatever it says to be updated or removed was there. -/
theorem streams_mirror (ops : List Op) (n : Nat) (c : ChangeStream) (hc : (new.performAll ops).streams[n]? = some c) :
    ∃ before after, ops = before ++ .subscribe c.topic :: after ∧ n = (new.performAll before).streams.length ∧
      c.isOpen = !after.any (Op.shuts n) ∧
      let joined := (new.performAll before).perform (.subscribe c.topic)
      c.events <+: joined.announced c.topic after ∧
        (c.isOpen = true → c.events = joined.announced c.topic after ∧
          (c.topic ≠ .devices →
            replayAll? (joined.images c.topic) c.events = some ((new.performAll ops).images c.topic))) := by
  obtain ⟨before, after, h⟩ := exists_origin ops n c hc
  refine ⟨before, after, h.ops, h.number, h.isOpen, h.received, fun hopen => ⟨h.all hopen, fun htopic => ?_⟩⟩
  have hquiet : ∀ op ∈ after, op.patches c.topic = false := fun op _ => by
    cases op <;> first | rfl | exact decide_eq_false htopic
  have hjoined : ((new.performAll before).perform (.subscribe c.topic)).IsKeyed :=
    (new_isKeyed.performAll before).perform _
  rw [h.all hopen, replayAll?_announced hjoined hquiet]
  conv_rhs => rw [h.ops, performAll_append]
  rfl

/-- two streams of assets and one of requirements, of which one is dropped in between -/
def watched : List Op :=
  [.putAsset (spotAsset "a1"), .subscribe .assets, .subscribe .requirements, .subscribe .assets,
    .putAsset { spotAsset "a1" with name := "moved" }, .drop 0, .putRequirements (spotRequirements "r1" "a2"),
    .putAsset (spotAsset "a2"), .removeAsset "a1", .removeAsset "a3"]

theorem streams_mirror_watched :
    let l := new.performAll watched
    let moved : Asset := { spotAsset "a1" with name := "moved" }
    let said : List ChangeEvent :=
      [.of .updated moved.toJson, .of .inserted (spotAsset "a2").toJson, .of .removed moved.toJson]
    l.streams.map ChangeStream.events =
        [said.take 1, [.of .inserted (spotRequirements "r1" "a2").toJson], said] ∧
      ∃ before after, watched = before ++ .subscribe .assets :: after ∧ (new.performAll before).streams.length = 2 ∧
        replayAll? ((new.performAll before).images .assets) said = some (l.images .assets) := by
  intro l moved said
  refine ⟨rfl, ?_⟩
  have hc : l.streams[2]? = some ⟨.assets, said, 0, false, false⟩ := rfl
  obtain ⟨before, after, hops, hnumber, -, -, hopen⟩ := streams_mirror watched 2 _ hc
  exact ⟨before, after, hops, hnumber.symm, (hopen rfl).2 (by decide)⟩

end Ledger

end SensorNode
