/-
The requirements that a site keeps, and the order in which its listeners go on. Each listener takes in the changes of its
own stream, first in, first out; which listener goes on next is open, and so is when the ledger changes and when the
reading engine goes on (`Hearing.Op`). Nobody moves the device.

What a listener takes in is the same in all runs with the same changes of the ledger (`Keeps.order`). What is kept of
requirements is what their last change declared, if their asset was kept when that change was taken in
(`Keeps.requests`). So two runs end with the same requirements under an id exactly when the last change of it was
accepted in both or in neither (`requirements_same_iff`).

The order does matter. Requirements that are taken in before their asset are ignored and not looked at again, although
the ledger declared the asset first (`requirements_ignored_early`).
-/
import SensorNode.Proofs.Site.Changes

namespace SensorNode

/-- the place of the listener to a topic among the listeners of a site -/
def Topic.listener : Topic → Nat
  | .assets => 0
  | .devices => 1
  | .requirements => 2

/-! ## Changes of the ledger -/

namespace Ledger

/-- a change of an asset or of requirements -/
inductive Change
  | putAsset (a : Asset)
  | removeAsset (id : String)
  | putRequirements (q : Requirements)
  | removeRequirements (id : String)

def change (l : Ledger) : Change → Ledger
  | .putAsset a => l.putAsset a
  | .removeAsset id => l.removeAsset id
  | .putRequirements q => l.putRequirements q
  | .removeRequirements id => l.removeRequirements id

/-- Two ledgers that hold the same do the same at a change: nothing, or they store the same and tell their streams the
same. -/
theorem change_cases {l l' : Ledger} (hassets : l'.assets = l.assets)
    (hrequirements : l'.requirements = l.requirements) (c : Change) :
    (l.change c = l ∧ l'.change c = l') ∨
      ∃ assets requirements topic event, topic ≠ .devices ∧
        l.change c = publish { l with assets, requirements } topic event ∧
        l'.change c = publish { l' with assets, requirements } topic event := by
  cases c with
  | putAsset a =>
    refine Or.inr ⟨_, l.requirements, .assets, _, by decide, rfl, ?_⟩
    simp only [change, putAsset, hassets, ← hrequirements]
  | removeAsset id =>
    simp only [change, removeAsset, hassets]
    cases l.assets.find? id with
    | none => exact Or.inl ⟨rfl, rfl⟩
    | some a =>
      refine Or.inr ⟨_, l.requirements, .assets, _, by decide, rfl, ?_⟩
      simp only [← hrequirements]
  | putRequirements q =>
    refine Or.inr ⟨l.assets, _, .requirements, _, by decide, rfl, ?_⟩
    simp only [change, putRequirements, hrequirements, ← hassets]
  | removeRequirements id =>
    simp only [change, removeRequirements, hrequirements]
    cases l.requirements.find? id with
    | none => exact Or.inl ⟨rfl, rfl⟩
    | some q =>
      refine Or.inr ⟨l.assets, _, .requirements, _, by decide, rfl, ?_⟩
      simp only [← hassets]

end Ledger

namespace Site

variable {s : Site}

def setLedger (s : Site) (ledger : Ledger) : Site := { s with link := { s.link with ledger } }

/-- the ledger changes -/
def change (s : Site) (c : Ledger.Change) : Site := s.setLedger (s.link.ledger.change c)

/-! ## Queues -/

/-- what waits for the listener to a topic, oldest first -/
def queue (s : Site) (topic : Topic) : List ChangeEvent :=
  ((s.stream? topic.listener).map ChangeStream.unread).getD []

/-- there is a listener to each topic, and it has an open stream -/
def Listens (s : Site) : Prop :=
  ∀ topic : Topic, ∃ (k : Nat) (c : ChangeStream), s.watch.listeners[topic.listener]? = some ⟨topic, .listening k⟩ ∧
    s.link.ledger.streams[k]? = some c ∧ c.Serves topic

theorem queue_of_listening {topic : Topic} {k : Nat} {c : ChangeStream}
    (hl : s.watch.listeners[topic.listener]? = some ⟨topic, .listening k⟩) (hc : s.link.ledger.streams[k]? = some c) :
    s.queue topic = c.unread := by
  unfold queue
  rw [stream?_of_listening hl, hc]
  rfl

theorem Listens.publish (h : Listens s) {l : Ledger} (hstreams : l.streams = s.link.ledger.streams) (topic : Topic)
    (event : ChangeEvent) : Listens (s.setLedger (l.publish topic event)) := by
  intro topic'
  obtain ⟨k, c, hl, hc, hserves⟩ := h topic'
  refine ⟨k, c.told topic event, hl, ?_, hserves.told topic event⟩
  show (l.streams.map (ChangeStream.told topic event))[k]? = _
  rw [hstreams, List.getElem?_map, hc]
  rfl

/-- an event waits last in the queue of its topic -/
theorem Listens.queue_publish (h : Listens s) {l : Ledger} (hstreams : l.streams = s.link.ledger.streams) (topic : Topic)
    (event : ChangeEvent) (topic' : Topic) :
    (s.setLedger (l.publish topic event)).queue topic' = s.queue topic' ++ if topic' = topic then [event] else [] := by
  obtain ⟨k, c, hl, hc, hserves⟩ := h topic'
  have hc' : (s.setLedger (l.publish topic event)).link.ledger.streams[k]? = some (c.told topic event) := by
    show (l.streams.map (ChangeStream.told topic event))[k]? = _
    rw [hstreams, List.getElem?_map, hc]
    rfl
  rw [queue_of_listening hl hc, queue_of_listening (s := s.setLedger (l.publish topic event)) hl hc',
    hserves.unread_told]

/-- listeners to different topics have different streams -/
theorem Listens.stream_ne (h : Listens s) {topic topic' : Topic} (hne : topic ≠ topic') {k k' : Nat}
    (hl : s.watch.listeners[topic.listener]? = some ⟨topic, .listening k⟩)
    (hl' : s.watch.listeners[topic'.listener]? = some ⟨topic', .listening k'⟩) : k ≠ k' := by
  rintro rfl
  obtain ⟨k₁, c₁, hl₁, hc₁, hserves₁⟩ := h topic
  obtain ⟨k₂, c₂, hl₂, hc₂, hserves₂⟩ := h topic'
  rw [hl] at hl₁
  rw [hl'] at hl₂
  cases hl₁
  cases hl₂
  rw [hc₁] at hc₂
  cases hc₂
  exact hne (hserves₁.topic.symm.trans hserves₂.topic)

theorem Listens.read (h : Listens s) {topic : Topic} {k : Nat} {event : ChangeEvent} {rest : List ChangeEvent}
    (hl : s.watch.listeners[topic.listener]? = some ⟨topic, .listening k⟩) (hq : s.queue topic = event :: rest) :
    Listens (s.read k) := by
  intro topic'
  obtain ⟨k', c, hl', hc, hserves⟩ := h topic'
  have hstream := Ledger.updateStream_getElem? s.link.ledger k k' ChangeStream.next
  rw [hc] at hstream
  by_cases htopic : topic = topic'
  · subst htopic
    obtain rfl : k = k' := by
      rw [hl] at hl'
      cases hl'
      rfl
    rw [if_pos rfl] at hstream
    rw [queue_of_listening hl hc] at hq
    exact ⟨k, c.next, hl, hstream, hserves.next hq⟩
  · rw [if_neg (h.stream_ne htopic hl hl')] at hstream
    exact ⟨k', c, hl', hstream, hserves⟩

/-- a listener that has read an event has the rest before it, and the others have what they had -/
theorem Listens.queue_read (h : Listens s) {topic : Topic} {k : Nat} {event : ChangeEvent} {rest : List ChangeEvent}
    (hl : s.watch.listeners[topic.listener]? = some ⟨topic, .listening k⟩) (hq : s.queue topic = event :: rest)
    (topic' : Topic) : (s.read k).queue topic' = if topic' = topic then rest else s.queue topic' := by
  obtain ⟨k', c, hl', hc, hserves⟩ := h topic'
  have hstream := Ledger.updateStream_getElem? s.link.ledger k k' ChangeStream.next
  rw [hc] at hstream
  by_cases htopic : topic' = topic
  · subst htopic
    obtain rfl : k = k' := by
      rw [hl] at hl'
      cases hl'
      rfl
    rw [if_pos rfl] at hstream
    rw [queue_of_listening hl hc] at hq
    rw [if_pos rfl, queue_of_listening (s := s.read k) hl hstream]
    exact ChangeStream.unread_next hq
  · rw [if_neg (h.stream_ne (Ne.symm htopic) hl hl')] at hstream
    rw [if_neg htopic, queue_of_listening (s := s.read k) hl' hstream, queue_of_listening hl' hc]

/-! ## What changes come to -/

/-- the asset that is kept under an id once these changes have been taken in, newest first -/
def assetAfter (s : Site) (id : String) : List (Topic × ChangeEvent) → Option Asset
  | [] => s.assets.find? id
  | (.assets, event) :: older =>
    match event.assetOf id with
    | some v => s.near v
    | none => s.assetAfter id older
  | _ :: older => s.assetAfter id older

/-- the last of these changes to requirements `id`, newest first, put them, and their asset was kept at that time -/
def accepts (s : Site) (id : String) : List (Topic × ChangeEvent) → Bool
  | [] => false
  | (.requirements, event) :: older =>
    match event.requirementsOf id with
    | some (some q) => (s.assetAfter q.assetId older).isSome
    | some none => false
    | none => s.accepts id older
  | _ :: older => s.accepts id older

end Site

/-- those of some changes that are of a topic -/
def takenOf (topic : Topic) (taken : List (Topic × ChangeEvent)) : List ChangeEvent :=
  taken.filterMap fun t => if t.1 = topic then some t.2 else none

/-- what the newest change to requirements `id` says of them -/
def lastDeclared (id : String) (taken : List (Topic × ChangeEvent)) : Option (Option Requirements) :=
  ((takenOf .requirements taken).filterMap (ChangeEvent.requirementsOf id)).head?

theorem lastDeclared_cons (id : String) (event : ChangeEvent) (taken : List (Topic × ChangeEvent)) :
    lastDeclared id ((.requirements, event) :: taken) = (event.requirementsOf id).or (lastDeclared id taken) := by
  unfold lastDeclared takenOf
  rw [List.filterMap_cons_some (b := event) (by simp), List.filterMap_cons]
  cases event.requirementsOf id <;> rfl

theorem lastDeclared_cons_of_ne {topic : Topic} (h : topic ≠ .requirements) (id : String) (event : ChangeEvent)
    (taken : List (Topic × ChangeEvent)) : lastDeclared id ((topic, event) :: taken) = lastDeclared id taken := by
  unfold lastDeclared takenOf
  rw [List.filterMap_cons_none (by simp [h])]

/-- requirements are only accepted when they have been put -/
theorem Site.accepts_eq_false (s : Site) {id : String} {taken : List (Topic × ChangeEvent)}
    (h : ∀ q, lastDeclared id taken ≠ some (some q)) : s.accepts id taken = false := by
  induction taken with
  | nil => rfl
  | cons t taken ih =>
    obtain ⟨topic, event⟩ := t
    cases topic with
    | requirements =>
      rw [lastDeclared_cons] at h
      simp only [Site.accepts]
      cases hof : event.requirementsOf id with
      | none => exact ih (by simpa [hof] using h)
      | some v =>
        cases v with
        | none => rfl
        | some q => exact absurd (by rw [hof]; rfl) (h q)
    | assets => exact ih (by simpa only [lastDeclared_cons_of_ne (by decide : Topic.assets ≠ .requirements)] using h)
    | devices => exact ih (by simpa only [lastDeclared_cons_of_ne (by decide : Topic.devices ≠ .requirements)] using h)

/-! ## Runs -/

/-- a site whose listeners take in changes -/
structure Hearing where
  site : Site
  /-- the changes that have been taken in, newest first -/
  taken : List (Topic × ChangeEvent)

namespace Hearing

inductive Op
  | change (c : Ledger.Change)
  /-- a listener takes its next step -/
  | hear (topic : Topic)
  /-- the reading engine goes on, and what it delivers is posted -/
  | work (m : Engine.Move)

def new (s : Site) : Hearing := ⟨s, []⟩

def perform (g : Hearing) : Op → Hearing
  | .change c => { g with site := g.site.change c }
  | .hear topic =>
    ⟨g.site.listen topic.listener, ((g.site.queue topic).head?.map fun event => (topic, event)).toList ++ g.taken⟩
  | .work m => { g with site := { g.site with toPlanner := (g.site.toPlanner.step (.reader m)).1 } }

def performAll (g : Hearing) (ops : List Op) : Hearing := ops.foldl perform g

/-- what happens to the ledger in a run -/
def changes (ops : List Op) : List Ledger.Change :=
  ops.filterMap fun
    | .change c => some c
    | _ => none

/-- nothing waits for any listener -/
def Drained (g : Hearing) : Prop := ∀ topic, g.site.queue topic = []

/-! ### What holds throughout -/

/-- A site that began as `s` has taken in some changes, and another that nobody listens at, `unheard`, has been told all
there are. -/
structure Keeps (s unheard : Site) (g : Hearing) : Prop where
  listens : g.site.Listens
  waits : unheard.Listens
  assetsHeld : g.site.link.ledger.assets = unheard.link.ledger.assets
  requirementsHeld : g.site.link.ledger.requirements = unheard.link.ledger.requirements
  still : unheard.queue .devices = []
  order : ∀ topic, (takenOf topic g.taken).reverse ++ g.site.queue topic = unheard.queue topic
  identity : g.site.identity = s.identity
  threshold : g.site.threshold = s.threshold
  assets : ∀ id, g.site.assets.find? id = s.assetAfter id g.taken
  requests : ∀ id, (g.site.requests.find? id).map ReadingsRequest.declared =
    match lastDeclared id g.taken with
    | none => (s.requests.find? id).map ReadingsRequest.declared
    | some v => if s.accepts id g.taken then v else none

variable {s unheard : Site} {g : Hearing}

theorem new_keeps (h : s.Listens) (hstill : s.queue .devices = []) : Keeps s s (new s) where
  listens := h
  waits := h
  assetsHeld := rfl
  requirementsHeld := rfl
  still := hstill
  order _ := rfl
  identity := rfl
  threshold := rfl
  assets _ := rfl
  requests _ := rfl

theorem Keeps.change (h : Keeps s unheard g) (c : Ledger.Change) : Keeps s (unheard.change c) (g.perform (.change c)) := by
  simp only [perform, Site.change]
  rcases Ledger.change_cases h.assetsHeld h.requirementsHeld c with
    ⟨hsame, hsame'⟩ | ⟨assets, requirements, topic, event, htopic, hchange, hchange'⟩
  · rw [hsame, hsame']
    exact h
  · rw [hchange, hchange']
    have hqueue := h.listens.queue_publish (l := { g.site.link.ledger with assets, requirements }) rfl topic event
    have hunheard := h.waits.queue_publish (l := { unheard.link.ledger with assets, requirements }) rfl topic event
    exact { h with
      listens := h.listens.publish rfl topic event
      waits := h.waits.publish rfl topic event
      assetsHeld := rfl
      requirementsHeld := rfl
      still := by rw [hunheard, if_neg (Ne.symm htopic), h.still]; rfl
      order := fun topic' => by rw [hqueue, hunheard, ← List.append_assoc, h.order] }

theorem Keeps.work (h : Keeps s unheard g) (m : Engine.Move) : Keeps s unheard (g.perform (.work m)) := by
  obtain ⟨posted, postings, hstep⟩ := Planner.step_reader g.site.toPlanner m
  simp only [perform, hstep]
  exact { h with }

/-- reading an event: one more is taken, one less waits -/
theorem Keeps.order_read (h : Keeps s unheard g) {topic : Topic} {k : Nat} {event : ChangeEvent} {rest : List ChangeEvent}
    (hl : g.site.watch.listeners[topic.listener]? = some ⟨topic, .listening k⟩)
    (hq : g.site.queue topic = event :: rest) (topic' : Topic) :
    (takenOf topic' ((topic, event) :: g.taken)).reverse ++ (g.site.read k).queue topic' = unheard.queue topic' := by
  rw [h.listens.queue_read hl hq topic', ← h.order topic']
  unfold takenOf
  by_cases htopic : topic' = topic
  · subst htopic
    rw [List.filterMap_cons_some (b := event) (by simp), if_pos rfl, hq]
    simp
  · rw [List.filterMap_cons_none (by simp [Ne.symm htopic]), if_neg htopic]

/-- the assets listener takes in a change -/
theorem Keeps.hearAsset (h : Keeps s unheard g) {k : Nat} {event : ChangeEvent} {rest : List ChangeEvent}
    (hl : g.site.watch.listeners[Topic.assets.listener]? = some ⟨.assets, .listening k⟩)
    (hq : g.site.queue .assets = event :: rest) :
    Keeps s unheard ⟨(g.site.read k).applyAsset event, (.assets, event) :: g.taken⟩ := by
  have hfind := Site.applyAsset_find? (g.site.read k) event
  have horder := h.order_read hl hq
  have hlistens := h.listens.read hl hq
  obtain ⟨assets, happly⟩ := Site.applyAsset_eq (g.site.read k) event
  rw [happly] at hfind ⊢
  refine { h with listens := hlistens, order := horder, assets := fun id => ?_, requests := fun id => ?_ }
  · have hnear : ∀ v, (g.site.read k).near v = s.near v := Site.near_congr h.identity h.threshold
    refine (hfind id).trans ?_
    unfold Site.assetAfter
    cases event.assetOf id with
    | some v => exact hnear v
    | none => exact h.assets id
  · rw [lastDeclared_cons_of_ne (by decide)]
    exact h.requests id

/-- the requirements listener takes in a change -/
theorem Keeps.hearRequirements (h : Keeps s unheard g) {k : Nat} {event : ChangeEvent} {rest : List ChangeEvent}
    (hl : g.site.watch.listeners[Topic.requirements.listener]? = some ⟨.requirements, .listening k⟩)
    (hq : g.site.queue .requirements = event :: rest) :
    Keeps s unheard ⟨(g.site.read k).applyRequirements event, (.requirements, event) :: g.taken⟩ := by
  have hfind := Site.applyRequirements_find? (g.site.read k) event
  have horder := h.order_read hl hq
  have hlistens := h.listens.read hl hq
  obtain ⟨engine, requests, events, sent, happly⟩ := Site.applyRequirements_eq (g.site.read k) event
  rw [happly] at hfind ⊢
  refine { h with listens := hlistens, order := horder, assets := h.assets, requests := fun id => ?_ }
  refine (hfind id).trans ?_
  rw [lastDeclared_cons]
  unfold Site.accepts
  cases event.requirementsOf id with
  | none => exact h.requests id
  | some said =>
    cases said with
    | none => rfl
    | some q =>
      -- the asset counts as it is kept now
      have hkept : (g.site.read k).assets.contains q.assetId = (s.assetAfter q.assetId g.taken).isSome :=
        congrArg Option.isSome (h.assets q.assetId)
      simp only [hkept, Option.some_or]

theorem Keeps.hear (h : Keeps s unheard g) (topic : Topic) : Keeps s unheard (g.perform (.hear topic)) := by
  obtain ⟨k, c, hl, hc, hserves⟩ := h.listens topic
  simp only [perform]
  have hqueue := Site.queue_of_listening hl hc
  cases hq : g.site.queue topic with
  | nil =>
    rw [Site.listen_of_idle hl hc (hqueue.symm.trans hq) hserves.closed]
    exact h
  | cons event rest =>
    rw [Site.listen_of_unread hl hc (hqueue.symm.trans hq)]
    cases topic with
    | assets => exact h.hearAsset hl hq
    | requirements => exact h.hearRequirements hl hq
    | devices =>
      -- nothing has been told of devices
      have hnone := h.order .devices
      rw [h.still, hq] at hnone
      simp at hnone

theorem performAll_keeps (h : Keeps s unheard g) (ops : List Op) :
    Keeps s ((changes ops).foldl Site.change unheard) (g.performAll ops) := by
  induction ops generalizing unheard g with
  | nil => exact h
  | cons op ops ih =>
    cases op with
    | change c => exact ih (h.change c)
    | hear topic => exact ih (h.hear topic)
    | work m => exact ih (h.work m)

/-! ### Two runs -/

theorem Keeps.takenOf_eq (h : Keeps s unheard g) (hdrained : g.Drained) (topic : Topic) :
    takenOf topic g.taken = (unheard.queue topic).reverse := by
  rw [← h.order topic, hdrained topic, List.append_nil, List.reverse_reverse]

/-- **When the order of the listeners does not matter.** Two runs with the same changes of the ledger, after which
nothing waits for any listener, end with the same requirements under an id if and only if the last change of it was
accepted in both or in neither: it put them, and the asset was near by the last change of it that had been taken in. -/
theorem requirements_same_iff (h : s.Listens) (hstill : s.queue .devices = []) {ops₁ ops₂ : List Op}
    (hchanges : changes ops₁ = changes ops₂) (h₁ : ((new s).performAll ops₁).Drained)
    (h₂ : ((new s).performAll ops₂).Drained) (id : String) :
    (((new s).performAll ops₁).site.requests.find? id).map ReadingsRequest.declared =
        (((new s).performAll ops₂).site.requests.find? id).map ReadingsRequest.declared ↔
      s.accepts id ((new s).performAll ops₁).taken = s.accepts id ((new s).performAll ops₂).taken := by
  have hkeeps₁ := performAll_keeps (new_keeps h hstill) ops₁
  have hkeeps₂ := performAll_keeps (new_keeps h hstill) ops₂
  rw [← hchanges] at hkeeps₂
  have hlast : lastDeclared id ((new s).performAll ops₂).taken = lastDeclared id ((new s).performAll ops₁).taken := by
    unfold lastDeclared
    rw [hkeeps₁.takenOf_eq h₁, hkeeps₂.takenOf_eq h₂]
  rw [hkeeps₁.requests id, hkeeps₂.requests id, hlast]
  by_cases hput : ∃ q, lastDeclared id ((new s).performAll ops₁).taken = some (some q)
  · obtain ⟨q, hq⟩ := hput
    rw [hq]
    cases s.accepts id ((new s).performAll ops₁).taken <;> cases s.accepts id ((new s).performAll ops₂).taken <;> simp
  · have hnever := not_exists.1 hput
    rw [s.accepts_eq_false hnever, s.accepts_eq_false (hlast ▸ hnever)]
    exact iff_of_true rfl rfl

/-! ### One history in three orders -/

/-- what waits and what has been taken in, newest first, once listeners have taken a step each in this order -/
def serve (queue : Topic → List ChangeEvent) (taken : List (Topic × ChangeEvent)) :
    List Topic → (Topic → List ChangeEvent) × List (Topic × ChangeEvent)
  | [] => (queue, taken)
  | topic :: order =>
    serve (Function.update queue topic (queue topic).tail)
      (((queue topic).head?.map fun event => (topic, event)).toList ++ taken) order

theorem Keeps.queue_hear (h : Keeps s unheard g) (topic : Topic) :
    (g.perform (.hear topic)).site.queue = Function.update g.site.queue topic (g.site.queue topic).tail := by
  funext topic'
  -- what has been taken in and what waits is the same as before, taken together
  have hsame := ((h.hear topic).order topic').trans (h.order topic').symm
  have htaken : takenOf topic' (g.perform (.hear topic)).taken =
      (if topic' = topic then (g.site.queue topic).head?.toList else []) ++ takenOf topic' g.taken := by
    unfold takenOf
    simp only [perform, List.filterMap_append]
    cases (g.site.queue topic).head? <;> split_ifs with htopic <;> simp [htopic, Ne.symm]
  rw [htaken, List.reverse_append, List.append_assoc, List.append_cancel_left_eq] at hsame
  rw [Function.update_apply]
  split_ifs at hsame ⊢ with htopic
  · subst htopic
    cases hq : g.site.queue topic' <;> simpa [hq] using hsame
  · simpa using hsame

theorem Keeps.performAll_hear (h : Keeps s unheard g) (order : List Topic) :
    ((g.performAll (order.map .hear)).site.queue, (g.performAll (order.map .hear)).taken) =
      serve g.site.queue g.taken order := by
  induction order generalizing g with
  | nil => rfl
  | cons topic order ih =>
    refine (ih (h.hear topic)).trans ?_
    rw [h.queue_hear topic]
    rfl

/-- a device that is logged on and listens to its ledger -/
def attentive : Site :=
  let s := Site.new "dev-1" ⟨1000⟩ .mean 100.0
  ((({ s with identity := (s.identity.adopt spotDevice).2 }.start.listen 0).listen 1).listen 2)

theorem attentive_listens : attentive.Listens := by
  intro topic
  cases topic <;> exact ⟨_, _, rfl, rfl, rfl, rfl, rfl, le_rfl⟩

/-- the ledger gets an asset, then requirements for it, and then another asset, all at the place of the device -/
def threePuts : List Ledger.Change :=
  [.putAsset (spotAsset "a1"), .putRequirements (spotRequirements "r1" "a1"), .putAsset (spotAsset "a2")]

/-- the three puts, and then one step of the listener to each of these topics -/
def inOrder (order : List Topic) : List Op := threePuts.map .change ++ order.map .hear

theorem performAll_inOrder (order : List Topic) :
    (((new attentive).performAll (inOrder order)).site.queue, ((new attentive).performAll (inOrder order)).taken) =
      serve ((new attentive).performAll (threePuts.map .change)).site.queue [] order := by
  have hkeeps := performAll_keeps (new_keeps attentive_listens rfl) (threePuts.map .change)
  unfold inOrder
  rw [performAll, List.foldl_append]
  exact hkeeps.performAll_hear order

theorem inOrder_drained {order : List Topic}
    (h : ∀ topic, (serve ((new attentive).performAll (threePuts.map .change)).site.queue [] order).1 topic = []) :
    ((new attentive).performAll (inOrder order)).Drained := fun topic =>
  (congrFun (congrArg Prod.fst (performAll_inOrder order)) topic).trans (h topic)

theorem spot_isFinite : spot.isFinite = true := by rfl

theorem near_spotAsset (id : String) : attentive.near (some (spotAsset id)) = some (spotAsset id) := by
  have hspot : spot.isNear spot attentive.threshold = true := by rfl
  exact (Site.near_of_location rfl (spotAsset id)).trans (if_pos hspot)

/-- what is told of an asset and of the requirements, as they were not there before -/
def assetEvent (id : String) : ChangeEvent := .of .inserted (spotAsset id).toJson

def requirementsEvent : ChangeEvent := .of .inserted (spotRequirements "r1" "a1").toJson

theorem assetEvent_assetOf (id id' : String) :
    (assetEvent id).assetOf id' = if id' = id then some (some (spotAsset id)) else none :=
  ChangeEvent.newsOf_of_some (ChangeEvent.asset?_put (a := spotAsset id) spot_isFinite false) id'

theorem requirementsEvent_requirementsOf :
    requirementsEvent.requirementsOf "r1" = some (some (spotRequirements "r1" "a1")) :=
  ChangeEvent.newsOf_of_some (ChangeEvent.requirements?_put (spotRequirements "r1" "a1") false) "r1"

theorem taken_requirements_between :
    ((new attentive).performAll (inOrder [.assets, .requirements, .assets])).taken =
      [(.assets, assetEvent "a2"), (.requirements, requirementsEvent), (.assets, assetEvent "a1")] :=
  congrArg Prod.snd (performAll_inOrder [.assets, .requirements, .assets])

theorem taken_requirements_last :
    ((new attentive).performAll (inOrder [.assets, .assets, .requirements])).taken =
      [(.requirements, requirementsEvent), (.assets, assetEvent "a2"), (.assets, assetEvent "a1")] :=
  congrArg Prod.snd (performAll_inOrder [.assets, .assets, .requirements])

theorem taken_requirements_first :
    ((new attentive).performAll (inOrder [.requirements, .assets, .assets])).taken =
      [(.assets, assetEvent "a2"), (.assets, assetEvent "a1"), (.requirements, requirementsEvent)] :=
  congrArg Prod.snd (performAll_inOrder [.requirements, .assets, .assets])

/-- whether the other asset is taken in before the requirements or after them makes no difference -/
theorem requirements_same_asset_first :
    (((new attentive).performAll (inOrder [.assets, .requirements, .assets])).site.requests.find? "r1").map
        ReadingsRequest.declared =
      (((new attentive).performAll (inOrder [.assets, .assets, .requirements])).site.requests.find? "r1").map
        ReadingsRequest.declared := by
  have hchanges : changes (inOrder [.assets, .requirements, .assets]) =
      changes (inOrder [.assets, .assets, .requirements]) := rfl
  refine (requirements_same_iff attentive_listens rfl hchanges (inOrder_drained fun topic => ?_)
    (inOrder_drained fun topic => ?_) "r1").2 ?_
  · cases topic <;> rfl
  · cases topic <;> rfl
  · rw [taken_requirements_between, taken_requirements_last]
    simp [Site.accepts, Site.assetAfter, requirementsEvent_requirementsOf, assetEvent_assetOf, spotRequirements,
      near_spotAsset]

/-- **The order of the listeners matters.** The ledger declared the asset before the requirements, and the device keeps
the asset; but of two runs in which nothing is left to take in one ends with the requirements, and the other, in which
they were taken in first, without them. -/
theorem requirements_ignored_early :
    changes (inOrder [.assets, .requirements, .assets]) = changes (inOrder [.requirements, .assets, .assets]) ∧
      ((new attentive).performAll (inOrder [.assets, .requirements, .assets])).Drained ∧
      ((new attentive).performAll (inOrder [.requirements, .assets, .assets])).Drained ∧
      (((new attentive).performAll (inOrder [.assets, .requirements, .assets])).site.requests.find? "r1").map
        ReadingsRequest.declared = some (spotRequirements "r1" "a1") ∧
      ((new attentive).performAll (inOrder [.requirements, .assets, .assets])).site.requests.find? "r1" = none ∧
      ((new attentive).performAll (inOrder [.requirements, .assets, .assets])).site.assets.find? "a1" =
        some (spotAsset "a1") := by
  have hbetween := performAll_keeps (new_keeps attentive_listens rfl) (inOrder [.assets, .requirements, .assets])
  have hfirst := performAll_keeps (new_keeps attentive_listens rfl) (inOrder [.requirements, .assets, .assets])
  refine ⟨rfl, inOrder_drained fun topic => ?_, inOrder_drained fun topic => ?_, ?_, ?_, ?_⟩
  · cases topic <;> rfl
  · cases topic <;> rfl
  · rw [hbetween.requests, taken_requirements_between]
    simp [Site.accepts, Site.assetAfter, lastDeclared, takenOf, requirementsEvent_requirementsOf, assetEvent_assetOf,
      spotRequirements, near_spotAsset]
  · have hnone : attentive.assets.find? "a1" = none := rfl
    refine Option.map_eq_none_iff.1 ((hfirst.requests "r1").trans ?_)
    rw [taken_requirements_first]
    simp [Site.accepts, Site.assetAfter, lastDeclared, takenOf, requirementsEvent_requirementsOf, spotRequirements, hnone]
  · rw [hfirst.assets, taken_requirements_first]
    simp [Site.assetAfter, assetEvent_assetOf, near_spotAsset]

end Hearing

end SensorNode
