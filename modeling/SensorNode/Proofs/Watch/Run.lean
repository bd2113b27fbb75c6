/-
The starts of a watch among all that goes on besides. `Gate` is a site with the calls that start or resume its watch,
each of which takes its steps one at a time. Between two steps of a call come other calls, the two halves of a login,
events and handlers of others, stops, the listeners' own steps and whatever the ledger tells them.

Everything but the calls keeps the part of a site that decides about starts (`Quiet`): the state of the watch, its lock
and the topics of its listeners stay, and no handler waits that did not wait before (`besides_quiet`). A topic is only
asked for by a listener that had not asked yet (`Quiet.asked`).
-/
import SensorNode.Proofs.Bus
import SensorNode.Proofs.Site.Changes

namespace SensorNode

/-- writing an item where it stands changes nothing -/
theorem set_eq_self {α : Type} {l : List α} {n : Nat} {a : α} (h : l[n]? = some a) : l.set n a = l := by
  obtain ⟨hn, rfl⟩ := List.getElem?_eq_some_iff.1 h
  exact List.set_getElem_self hn

/-! ## Who has asked for which stream -/

namespace Ledger

/-- the topics of all streams there have been -/
def streamTopics (l : Ledger) : List Topic := l.streams.map ChangeStream.topic

theorem subscribeCalls_eq (l : Ledger) (topic : Topic) : l.subscribeCalls topic = l.streamTopics.count topic := by
  rw [subscribeCalls, streamTopics, List.count, List.countP_map, List.countP_eq_length_filter]
  rfl

@[simp] theorem streamTopics_publish (l : Ledger) (topic : Topic) (event : ChangeEvent) :
    (l.publish topic event).streamTopics = l.streamTopics := by
  unfold streamTopics publish
  rw [List.map_map]
  refine List.map_congr_left fun s _ => ?_
  simp only [Function.comp]
  split_ifs <;> rfl

@[simp] theorem streamTopics_close (l : Ledger) : l.close.streamTopics = l.streamTopics := by
  unfold streamTopics close
  rw [List.map_map]
  rfl

theorem streamTopics_updateStream (l : Ledger) (stream : Nat) {change : ChangeStream → ChangeStream}
    (h : ∀ s, (change s).topic = s.topic) : (l.updateStream stream change).streamTopics = l.streamTopics := by
  unfold streamTopics updateStream
  refine List.ext_getElem? fun n => ?_
  rw [List.getElem?_map, List.getElem?_map, List.getElem?_modify]
  split_ifs
  · cases l.streams[n]? with
    | none => rfl
    | some s => exact congrArg some (h s)
  · cases l.streams[n]? <;> rfl

@[simp] theorem streamTopics_dropStream (l : Ledger) (stream : Nat) :
    (l.dropStream stream).streamTopics = l.streamTopics :=
  streamTopics_updateStream l stream fun _ => rfl

theorem streamTopics_next {l l' : Ledger} {stream : Nat} {event : ChangeEvent} (h : l.next? stream = some (event, l')) :
    l'.streamTopics = l.streamTopics := by
  obtain ⟨s, -, hs⟩ := Option.bind_eq_some_iff.1 h
  obtain ⟨event', -, he⟩ := Option.map_eq_some_iff.1 hs
  obtain rfl := (Prod.mk.inj he).2
  exact streamTopics_updateStream l stream fun _ => rfl

end Ledger

theorem LedgerLink.streamTopics_subscribe {k k' : LedgerLink} {topic : Topic} {stream : Nat}
    (h : k.subscribe topic = .ok (stream, k')) : k'.ledger.streamTopics = k.ledger.streamTopics ++ [topic] := by
  obtain rfl := (Prod.mk.inj (LedgerLink.attempt_ok h)).2
  exact List.map_append

/-- a listener to this topic has asked for its stream, whether it got one or not -/
def Listener.hasAsked (topic : Topic) (l : Listener) : Bool := l.topic = topic && l.stage ≠ .spawned

/-! ## What keeps a site as it is for its starts -/

namespace Site

variable {s s' : Site}

/-- the topics of all listeners there have been -/
def topics (s : Site) : List Topic := s.watch.listeners.map Listener.topic

/-- The part of a site that decides about starts is kept, but for handlers that stop waiting; and no topic is asked for
but by a listener who has not asked yet. -/
structure Quiet (s s' : Site) : Prop where
  state : s'.watch.state = s.watch.state
  locked : s'.watch.locked = s.watch.locked
  topics : s'.topics = s.topics
  length : s.bus.handlers.length ≤ s'.bus.handlers.length
  waits : ∀ handler < s.bus.handlers.length, s'.bus.isWaiting handler = true → s.bus.isWaiting handler = true
  asked : ∀ topic, s'.link.ledger.streamTopics.count topic + s.watch.listeners.countP (Listener.hasAsked topic) ≤
    s.link.ledger.streamTopics.count topic + s'.watch.listeners.countP (Listener.hasAsked topic)

theorem Quiet.refl (s : Site) : Quiet s s := ⟨rfl, rfl, rfl, le_rfl, fun _ _ h => h, fun _ => le_rfl⟩

theorem Quiet.trans {s'' : Site} (h : Quiet s s') (h' : Quiet s' s'') : Quiet s s'' where
  state := h'.state.trans h.state
  locked := h'.locked.trans h.locked
  topics := h'.topics.trans h.topics
  length := h.length.trans h'.length
  waits handler hlt hw := h.waits handler hlt (h'.waits handler (lt_of_lt_of_le hlt h.length) hw)
  asked topic := by
    have := h.asked topic
    have := h'.asked topic
    omega

/-- a change that leaves the watch, the handlers and the list of streams alone -/
theorem Quiet.of_eq (hwatch : s'.watch = s.watch) (hhandlers : s'.bus.handlers = s.bus.handlers)
    (hstreams : s'.link.ledger.streamTopics = s.link.ledger.streamTopics) : Quiet s s' where
  state := by rw [hwatch]
  locked := by rw [hwatch]
  topics := by unfold Site.topics; rw [hwatch]
  length := by rw [hhandlers]
  waits handler _ h := by rwa [Bus.isWaiting_congr hhandlers] at h
  asked topic := by rw [hwatch, hstreams]

/-- a listener that goes from one stage to another keeps its topic -/
theorem topics_set {listeners : List Listener} {n : Nat} {l : Listener} (hl : listeners[n]? = some l)
    (stage : Listener.Stage) :
    (listeners.set n { l with stage }).map Listener.topic = listeners.map Listener.topic := by
  rw [List.map_set]
  refine set_eq_self ?_
  rw [List.getElem?_map, hl]
  rfl

/-- a listener that goes on to a later stage has asked for its stream from then on -/
theorem countP_hasAsked_set {listeners : List Listener} {n : Nat} {l : Listener} (hl : listeners[n]? = some l)
    (stage : Listener.Stage) (hstage : stage ≠ .spawned) (topic : Topic) :
    (listeners.set n { l with stage }).countP (Listener.hasAsked topic) + (if l.hasAsked topic then 1 else 0) =
      listeners.countP (Listener.hasAsked topic) + (if l.topic = topic then 1 else 0) := by
  obtain ⟨hn, rfl⟩ := List.getElem?_eq_some_iff.1 hl
  have hpos : (if listeners[n].hasAsked topic = true then 1 else 0) ≤ listeners.countP (Listener.hasAsked topic) := by
    split_ifs with hp
    · exact List.countP_pos_iff.2 ⟨_, List.getElem_mem hn, hp⟩
    · exact Nat.zero_le _
  have hnext : Listener.hasAsked topic { listeners[n] with stage } = decide (listeners[n].topic = topic) := by
    simp [Listener.hasAsked, hstage]
  rw [List.countP_set hn, hnext]
  simp only [decide_eq_true_eq]
  omega

theorem applyAsset_quiet (s : Site) (event : ChangeEvent) : Quiet s (s.applyAsset event) := by
  obtain ⟨assets, happly⟩ := applyAsset_eq s event
  rw [happly]
  exact Quiet.of_eq rfl rfl rfl

theorem applyDevice_quiet (s : Site) (event : ChangeEvent) : Quiet s (s.applyDevice event) := by
  unfold applyDevice
  repeat' split
  all_goals first
    | exact Quiet.of_eq rfl rfl rfl
    | (dsimp only; split_ifs <;> exact Quiet.of_eq rfl rfl rfl)

theorem applyRequirements_quiet (s : Site) (event : ChangeEvent) : Quiet s (s.applyRequirements event) := by
  obtain ⟨engine, requests, events, sent, happly⟩ := applyRequirements_eq s event
  rw [happly]
  exact Quiet.of_eq rfl rfl rfl

/-- no change in the ledger starts or stops anything -/
theorem applyChange_quiet (s : Site) (topic : Topic) (event : ChangeEvent) : Quiet s (s.applyChange topic event) := by
  cases topic with
  | assets => exact applyAsset_quiet s event
  | devices => exact applyDevice_quiet s event
  | requirements => exact applyRequirements_quiet s event

theorem endListener_quiet (s : Site) (n : Nat) : Quiet s (s.endListener n) := by
  unfold endListener
  split
  · rename_i l hl
    have htopics := topics_set hl .ended
    have hasked : ∀ topic, s.watch.listeners.countP (Listener.hasAsked topic) ≤
        (s.watch.listeners.set n { l with stage := .ended }).countP (Listener.hasAsked topic) := by
      intro topic
      have hset := countP_hasAsked_set hl .ended (by decide) topic
      have : (if l.hasAsked topic = true then 1 else 0) ≤ if l.topic = topic then 1 else 0 := by
        unfold Listener.hasAsked
        split_ifs <;> simp_all
      omega
    split
    · rename_i stream _
      refine ⟨rfl, rfl, htopics, le_rfl, fun _ _ h => h, fun topic => ?_⟩
      show (s.link.ledger.dropStream stream).streamTopics.count topic + _ ≤ _
      rw [Ledger.streamTopics_dropStream]
      exact Nat.add_le_add_left (hasked topic) _
    · exact ⟨rfl, rfl, htopics, le_rfl, fun _ _ h => h, fun topic => Nat.add_le_add_left (hasked topic) _⟩
  · exact Quiet.refl s

theorem foldl_endListener_quiet (s : Site) (ns : List Nat) : Quiet s (ns.foldl endListener s) := by
  induction ns generalizing s with
  | nil => exact Quiet.refl s
  | cons n ns ih => exact (endListener_quiet s n).trans (ih _)

theorem stopListeners_quiet (s : Site) : Quiet s s.stopListeners := foldl_endListener_quiet s _

theorem stopResumption_quiet (s : Site) : Quiet s s.stopResumption := by
  unfold stopResumption
  split
  · refine ⟨rfl, rfl, rfl, by simp, fun handler _ h => ?_, fun _ => le_rfl⟩
    rw [Bus.isWaiting_abort, Bool.and_eq_true] at h
    exact h.2
  · exact Quiet.refl s

theorem listen_quiet (s : Site) (n : Nat) : Quiet s (s.listen n) := by
  unfold listen
  split
  · rename_i topic hl
    split
    · rename_i stream link hsubscribe
      refine ⟨rfl, rfl, topics_set hl (.listening stream), le_rfl, fun _ _ h => h, fun topic' => ?_⟩
      -- this listener has asked now, and not before
      have hset := countP_hasAsked_set hl (.listening stream) (by rintro ⟨⟩) topic'
      rw [LedgerLink.streamTopics_subscribe hsubscribe, List.count_append, List.count_singleton]
      simp only [Listener.hasAsked, ne_eq, not_true_eq_false, decide_false, Bool.and_false, Bool.false_eq_true, if_false,
        Nat.add_zero] at hset
      simp only [beq_iff_eq]
      omega
    · exact endListener_quiet s n
  · split
    · rename_i event ledger hnext
      have hread : Quiet s { s with link := { s.link with ledger } } :=
        Quiet.of_eq rfl rfl (Ledger.streamTopics_next hnext)
      exact hread.trans (applyChange_quiet _ _ _)
    · split_ifs
      · exact endListener_quiet s n
      · exact Quiet.refl s
  · exact Quiet.refl s

theorem once_quiet (s : Site) (kind : DomainEventKind) : Quiet s { s with bus := (s.bus.once kind).2 } := by
  refine ⟨rfl, rfl, rfl, by simp, fun handler hlt h => ?_, fun _ => le_rfl⟩
  rwa [← Bus.isWaiting_once kind hlt]

theorem poll_quiet (s : Site) (handler : Nat) : Quiet s { s with bus := (s.bus.poll handler).2 } := by
  refine ⟨rfl, rfl, rfl, (Bus.poll_length s.bus handler).ge, fun handler' _ h => ?_, fun _ => le_rfl⟩
  rcases Bus.poll_cases s.bus handler with ⟨-, hb⟩ | ⟨event, -, -, hb⟩
  · rwa [Bus.isWaiting_congr hb] at h
  · rw [Bus.isWaiting_congr hb, Bus.isWaiting_setStatus (by decide), Bool.and_eq_true] at h
    exact h.2

/-! ### Steps of calls -/

/-- a call changes the watch and the bus, and publishes nothing -/
theorem stepCall_frame (s : Site) (call : Watch.Call) :
    (s.stepCall call).1.toPlanner = s.toPlanner ∧ (s.stepCall call).1.identity = s.identity ∧
      (s.stepCall call).1.threshold = s.threshold ∧ (s.stepCall call).1.bus.events = s.bus.events ∧
      (call ≠ .spawn → (s.stepCall call).1.watch.listeners = s.watch.listeners) := by
  have habort : ∀ handler, (s.bus.abort handler).events = s.bus.events := fun handler => by
    unfold Bus.abort
    split <;> rfl
  cases call with
  | start =>
    simp only [stepCall]
    split_ifs <;> exact ⟨rfl, rfl, rfl, rfl, fun _ => rfl⟩
  | recheck handler =>
    simp only [stepCall]
    split_ifs
    · exact ⟨rfl, rfl, rfl, habort handler, fun _ => rfl⟩
    · exact ⟨rfl, rfl, rfl, rfl, fun _ => rfl⟩
  | resume =>
    simp only [stepCall]
    split_ifs <;> exact ⟨rfl, rfl, rfl, rfl, fun _ => rfl⟩
  | spawn => exact ⟨rfl, rfl, rfl, rfl, fun hne => absurd rfl hne⟩
  | _ => exact ⟨rfl, rfl, rfl, rfl, fun _ => rfl⟩

/-- while the device is not logged on, a call that is not about to spawn or resume is not about to after its step -/
theorem stepCall_of_logged_off {s : Site} (h : s.identity.isLoggedOn = false) {call : Watch.Call}
    (hcall : call ≠ .resume) : (s.stepCall call).2 ≠ some .spawn ∧ (s.stepCall call).2 ≠ some .resume := by
  cases call with
  | start => simp only [stepCall, h]; split_ifs <;> simp_all
  | recheck handler => simp [stepCall, h]
  | resume => exact absurd rfl hcall
  | _ => simp [stepCall]

end Site

/-! ## Calls and all that goes on besides -/

/-- the topics of the listeners that a start spawns -/
def Watch.topics : List Topic := [.assets, .devices, .requirements]

/-- the place of a state in the order in which they come -/
def Watch.State.rank : Watch.State → Nat
  | .notStarted => 0
  | .awaitingLogin => 1
  | .running => 2

/-- the call is between its two looks at the identity, or about to keep its handler -/
def Watch.Call.holdsLock : Watch.Call → Bool
  | .install | .recheck _ | .keep _ => true
  | _ => false

/-- a site and the calls that start or resume its watch -/
structure Gate where
  site : Site
  /-- every call there has been, with what it does next, if it is not through -/
  calls : List (Option Watch.Call)
  /-- the handlers that the calls have installed -/
  handlers : List Nat

namespace Gate

/-- what goes on at a site -/
inductive Op
  /-- a call comes in that starts the watch -/
  | start
  /-- a call takes its next step -/
  | proceed (call : Nat)
  /-- the first half of a login: the ledger's entry becomes the identity -/
  | adopt (model : DeviceModel)
  /-- someone publishes an event; `loggedOn` is the second half of a login -/
  | emit (event : DomainEvent)
  | logOff
  /-- someone else waits for an event -/
  | once (kind : DomainEventKind)
  /-- a handler looks at what is next for it -/
  | poll (handler : Nat)
  /-- the two halves of a stop -/
  | stopResumption
  | stopListeners
  /-- a listener takes its next step -/
  | listen (n : Nat)
  /-- the ledger tells its open streams of a change -/
  | publish (topic : Topic) (event : ChangeEvent)
  | closeStreams
  /-- from now on these calls over the link fail -/
  | setOutages (outages : Keyed LedgerCall String)

/-- a site that nobody has called yet -/
def new (s : Site) : Gate := ⟨s, [], []⟩

/-- the handlers, with the one that a call has just installed if this is what it does next -/
def note (handlers : List Nat) : Option Watch.Call → List Nat
  | some (.recheck handler) => handlers ++ [handler]
  | _ => handlers

/-- a call takes its next step, if it is not through -/
def proceed (g : Gate) (i : Nat) : Gate :=
  match g.calls[i]? with
  | some (some call) =>
    let (site, next) := g.site.stepCall call
    ⟨site, g.calls.set i next, note g.handlers next⟩
  | _ => g

/-- a call takes its next step, or there is nothing left for it to do -/
theorem proceed_cases (g : Gate) (i : Nat) :
    g.proceed i = g ∨ ∃ call, g.calls[i]? = some (some call) ∧
      g.proceed i = ⟨(g.site.stepCall call).1, g.calls.set i (g.site.stepCall call).2,
        note g.handlers (g.site.stepCall call).2⟩ := by
  unfold proceed
  split
  · rename_i call hi
    exact Or.inr ⟨call, hi, rfl⟩
  · exact Or.inl rfl

/-- a handler looks at what is next for it; one that a call has installed resumes the watch when it gets its event -/
def poll (g : Gate) (handler : Nat) : Gate :=
  let (event, bus) := g.site.bus.poll handler
  { g with
    site := { g.site with bus }
    calls := if event.isSome ∧ handler ∈ g.handlers then g.calls ++ [some .resume] else g.calls }

theorem poll_site (g : Gate) (handler : Nat) :
    (g.poll handler).site = { g.site with bus := (g.site.bus.poll handler).2 } := by simp only [poll]

theorem poll_calls_of_none {g : Gate} {handler : Nat} (h : (g.site.bus.poll handler).1 = none) :
    (g.poll handler).calls = g.calls := by simp [poll, h]

/-- something goes on besides the calls and the handlers -/
def besides (s : Site) : Op → Site
  | .adopt model => { s with identity := (s.identity.adopt model).2 }
  | .emit event => s.emit event
  | .logOff => { s with identity := s.identity.clear.2 }
  | .once kind => { s with bus := (s.bus.once kind).2 }
  | .stopResumption => s.stopResumption
  | .stopListeners => s.stopListeners
  | .listen n => s.listen n
  | .publish topic event => { s with link := { s.link with ledger := s.link.ledger.publish topic event } }
  | .closeStreams => { s with link := { s.link with ledger := s.link.ledger.close } }
  | .setOutages outages => { s with link := { s.link with outages } }
  | .start | .proceed _ | .poll _ => s

def perform (g : Gate) : Op → Gate
  | .start => { g with calls := g.calls ++ [some .start] }
  | .proceed i => g.proceed i
  | .poll handler => g.poll handler
  | op => { g with site := besides g.site op }

def performAll (g : Gate) (ops : List Op) : Gate := ops.foldl perform g

theorem besides_quiet (s : Site) (op : Op) : Site.Quiet s (besides s op) := by
  cases op with
  | once kind => exact Site.once_quiet s kind
  | stopResumption => exact Site.stopResumption_quiet s
  | stopListeners => exact Site.stopListeners_quiet s
  | listen n => exact Site.listen_quiet s n
  | publish topic event => exact Site.Quiet.of_eq rfl rfl (Ledger.streamTopics_publish _ topic event)
  | closeStreams => exact Site.Quiet.of_eq rfl rfl (Ledger.streamTopics_close _)
  | _ => exact Site.Quiet.of_eq rfl rfl rfl

end Gate

end SensorNode
