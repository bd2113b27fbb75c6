/-
How a site takes in the assets near it, in steps that come in any order. A warm-up asks the ledger for all assets and
puts those that are near, one after the other; the assets listener asks for a stream of the changes from then on and
takes them in. Between these steps assets are put and removed in the ledger, devices log on, and the watch is started or
resumed (`Intake.Op`). Nobody moves the device, logs it off or stops its watch.

`Sound` is what holds throughout, of whatever asset: there is at most one assets listener and its stream is its own, no
listener is there before the device is logged on, and what a warm-up puts is measured from where the device is.
-/
import SensorNode.Proofs.Watch.Gating

namespace SensorNode

/-- a site with the calls that start its watch and the warm-ups of its assets -/
structure Intake where
  gate : Gate
  /-- some warm-up has asked the ledger for all assets -/
  taken : Bool
  /-- the warm-ups there have been, each with the place it measures from and the assets it has still to put -/
  warmups : List (Location × List Asset)

namespace Intake

inductive Op
  /-- an asset is put in the ledger, or removed -/
  | put (a : Asset)
  | remove (id : String)
  /-- a call comes in that starts the watch, or goes on -/
  | start
  | proceed (call : Nat)
  /-- a handler looks at what is next for it -/
  | poll (handler : Nat)
  /-- a listener takes its next step -/
  | listen (n : Nat)
  /-- the two halves of a login -/
  | adopt (model : DeviceModel)
  | announce
  /-- a device that is logged on asks the ledger for all assets -/
  | snapshot
  /-- a warm-up puts the next of the assets it was given -/
  | warm (warmup : Nat)

/-- nothing has happened yet -/
def new (s : Site) : Intake := ⟨.new s, false, []⟩

def site (g : Intake) : Site := g.gate.site

def ledger (g : Intake) : Ledger := g.site.link.ledger

def setSite (g : Intake) (site : Site) : Intake := { g with gate := { g.gate with site } }

def setLedger (g : Intake) (ledger : Ledger) : Intake :=
  g.setSite { g.site with link := { g.site.link with ledger } }

def base (g : Intake) (op : Gate.Op) : Intake := { g with gate := g.gate.perform op }

def perform (g : Intake) : Op → Intake
  | .put a => g.setLedger (g.ledger.putAsset a)
  | .remove id => g.setLedger (g.ledger.removeAsset id)
  | .start => g.base .start
  | .proceed call => g.base (.proceed call)
  | .poll handler => g.base (.poll handler)
  | .listen n => g.base (.listen n)
  | .adopt model => g.base (.adopt model)
  | .announce => if g.site.identity.isLoggedOn then g.base (.emit .loggedOn) else g
  | .snapshot =>
    match g.site.identity.location? with
    | some origin => { g with taken := true, warmups := g.warmups ++ [(origin, g.ledger.assets.values)] }
    | none => g
  | .warm i =>
    match g.warmups[i]? with
    | some (origin, a :: rest) => { g.setSite (g.site.putNear a origin) with warmups := g.warmups.set i (origin, rest) }
    | _ => g

def performAll (g : Intake) (ops : List Op) : Intake := ops.foldl perform g

/-- the device stays where it is, and assets have coordinates -/
def Op.Stays (origin : Location) : Op → Prop
  | .put a => a.location.isFinite = true
  | .adopt model => model.location = origin
  | _ => True

/-- a site whose watch nobody has started and that keeps no assets yet, whatever its ledger holds -/
structure Fresh (origin : Location) (s : Site) : Prop where
  watch : s.watch = .new
  events : s.bus.events = []
  assets : s.assets = ∅
  outages : s.link.outages = ∅
  keyed : ∀ id a, s.link.ledger.assets.find? id = some a → a.id = id
  location : ∀ l, s.identity.location? = some l → l = origin

/-! ## What holds throughout -/

variable {origin : Location} {g : Intake}

/-- this stream is that of a listener to this topic, who has seen all that was sent to it unless it is of assets -/
structure Feeds (topic : Topic) (c : ChangeStream) : Prop where
  serves : c.Serves topic
  silent : topic ≠ .assets → c.unread = []

structure Sound (origin : Location) (g : Intake) : Prop where
  gated : g.gate.Gated
  keyed : ∀ id a, g.ledger.assets.find? id = some a → a.id = id
  /-- before the device is logged on nobody is told that it is, and no listener is spawned -/
  silent : g.site.identity.isLoggedOn = false →
    g.site.bus.events = [] ∧ some .resume ∉ g.gate.calls ∧ some .spawn ∉ g.gate.calls ∧ g.site.watch.listeners = []
  location : ∀ l, g.site.identity.location? = some l → l = origin
  origins : ∀ w ∈ g.warmups, w.1 = origin
  unbegun : g.taken = false → g.warmups = []
  outages : g.site.link.outages = ∅
  stages : ∀ l ∈ g.site.watch.listeners, l.stage ≠ .ended
  streams : ∀ (n : Nat) topic k, g.site.watch.listeners[n]? = some ⟨topic, .listening k⟩ →
    ∃ c, g.ledger.streams[k]? = some c ∧ Feeds topic c

theorem new_sound {s : Site} (h : Fresh origin s) : Sound origin (new s) := by
  have hlisteners : s.watch.listeners = [] := by rw [h.watch]; rfl
  exact {
    gated := Gate.new_gated h.watch
    keyed := h.keyed
    silent := fun _ => ⟨h.events, List.not_mem_nil, List.not_mem_nil, hlisteners⟩
    location := h.location
    origins := fun w hw => absurd hw List.not_mem_nil
    unbegun := fun _ => rfl
    outages := h.outages
    stages := fun l hl => absurd (hlisteners ▸ hl) List.not_mem_nil
    streams := fun n topic k hl => by
      have hl : s.watch.listeners[n]? = some ⟨topic, .listening k⟩ := hl
      rw [hlisteners] at hl
      cases hl }

/-- the assets listener is the first of the three -/
theorem Sound.topic_iff (h : Sound origin g) {n : Nat} {l : Listener} (hl : g.site.watch.listeners[n]? = some l) :
    l.topic = .assets ↔ n = 0 := by
  have htopic : g.site.topics[n]? = some l.topic := by
    unfold Site.topics
    rw [List.getElem?_map, hl]
    rfl
  rcases h.gated.topics_cases with hnil | hall
  · rw [show g.site.topics = [] from hnil] at htopic
    cases htopic
  · rw [show g.site.topics = Watch.topics from hall] at htopic
    match n with
    | 0 => simpa [Watch.topics] using htopic.symm
    | 1 => simp [Watch.topics] at htopic; simp [← htopic]
    | 2 => simp [Watch.topics] at htopic; simp [← htopic]
    | n + 3 => simp [Watch.topics] at htopic

/-! ### Changes of the ledger -/

theorem Feeds.told {topic : Topic} {c : ChangeStream} (h : Feeds topic c) (event : ChangeEvent) :
    Feeds topic (c.told .assets event) := by
  refine ⟨h.serves.told .assets event, fun hne => ?_⟩
  rw [h.serves.unread_told, if_neg hne, h.silent hne, List.append_nil]

theorem Sound.publish (h : Sound origin g) {assets : Keyed String Asset}
    (hkeyed : ∀ id a, assets.find? id = some a → a.id = id) (event : ChangeEvent) :
    Sound origin (g.setLedger (Ledger.publish { g.ledger with assets } .assets event)) := by
  refine { h with gated := h.gated.of_quiet ?_, keyed := hkeyed, streams := fun n topic k hl => ?_ }
  · exact Site.Quiet.of_eq rfl rfl (Ledger.streamTopics_publish _ _ _)
  · obtain ⟨c, hc, hfeeds⟩ := h.streams n topic k hl
    refine ⟨c.told .assets event, ?_, hfeeds.told event⟩
    show (g.ledger.streams.map (ChangeStream.told .assets event))[k]? = _
    rw [List.getElem?_map, hc]
    rfl

theorem Sound.put (h : Sound origin g) (a : Asset) : Sound origin (g.perform (.put a)) :=
  h.publish (Keyed.IsBy.insert h.keyed a) _

theorem Sound.remove (h : Sound origin g) (id : String) : Sound origin (g.perform (.remove id)) := by
  simp only [perform, Ledger.removeAsset]
  split
  · exact h.publish (Keyed.IsBy.erase h.keyed id) _
  · exact h

/-! ### Calls and handlers -/

/-- a change of the calls, the handlers and the watch, which spawns no listener and logs nobody on or off -/
theorem Sound.base (h : Sound origin g) {op : Gate.Op} (hplanner : (g.gate.perform op).site.toPlanner = g.site.toPlanner)
    (hidentity : (g.gate.perform op).site.identity = g.site.identity)
    (hlisteners : (g.gate.perform op).site.watch.listeners = g.site.watch.listeners)
    (hsilent : g.site.identity.isLoggedOn = false → (g.gate.perform op).site.bus.events = [] ∧
      some .resume ∉ (g.gate.perform op).calls ∧ some .spawn ∉ (g.gate.perform op).calls) :
    Sound origin (g.base op) where
  gated := Gate.perform_gated h.gated op
  keyed := by
    show ∀ id a, (g.gate.perform op).site.link.ledger.assets.find? id = some a → a.id = id
    rw [hplanner]
    exact h.keyed
  silent hoff := by
    have hoff : g.site.identity.isLoggedOn = false := by rw [← hidentity]; exact hoff
    obtain ⟨hevents, hresume, hspawn⟩ := hsilent hoff
    exact ⟨hevents, hresume, hspawn, hlisteners.trans (h.silent hoff).2.2.2⟩
  location := by
    show ∀ l, (g.gate.perform op).site.identity.location? = some l → l = origin
    rw [hidentity]
    exact h.location
  origins := h.origins
  unbegun := h.unbegun
  outages := by
    show (g.gate.perform op).site.link.outages = ∅
    rw [hplanner]
    exact h.outages
  stages := by
    show ∀ l ∈ (g.gate.perform op).site.watch.listeners, _
    rw [hlisteners]
    exact h.stages
  streams := by
    show ∀ (n : Nat) topic k, (g.gate.perform op).site.watch.listeners[n]? = some ⟨topic, .listening k⟩ →
      ∃ c, (g.gate.perform op).site.link.ledger.streams[k]? = some c ∧ Feeds topic c
    rw [hlisteners, hplanner]
    exact h.streams

theorem Sound.start (h : Sound origin g) : Sound origin (g.perform .start) := by
  refine h.base rfl rfl rfl fun hoff => ?_
  obtain ⟨hevents, hresume, hspawn, -⟩ := h.silent hoff
  refine ⟨hevents, ?_, ?_⟩ <;> simp [Gate.perform, hresume, hspawn]

theorem Sound.poll (h : Sound origin g) (handler : Nat) : Sound origin (g.perform (.poll handler)) := by
  have hsite : (g.gate.perform (.poll handler)).site = { g.site with bus := (g.site.bus.poll handler).2 } :=
    Gate.poll_site g.gate handler
  refine h.base (by rw [hsite]) (by rw [hsite]) (by rw [hsite]) fun hoff => ?_
  obtain ⟨hevents, hresume, hspawn, -⟩ := h.silent hoff
  obtain ⟨hkept, hmem⟩ := Bus.poll_events g.site.bus handler
  -- nothing has been published, so the handler gets nothing
  have hnone : (g.site.bus.poll handler).1 = none := by
    refine Option.eq_none_iff_forall_ne_some.2 fun event he => ?_
    have := hmem event he
    rw [hevents] at this
    exact absurd this List.not_mem_nil
  have hcalls : (g.gate.perform (.poll handler)).calls = g.gate.calls := Gate.poll_calls_of_none hnone
  rw [hcalls, hsite]
  exact ⟨hkept.trans hevents, hresume, hspawn⟩

/-- the listeners are spawned -/
theorem Sound.spawn (h : Sound origin g) {i : Nat} (hi : g.gate.calls[i]? = some (some .spawn))
    (hperform : g.gate.perform (.proceed i) =
      ⟨(g.site.stepCall .spawn).1, g.gate.calls.set i none, g.gate.handlers⟩) :
    Sound origin (g.perform (.proceed i)) := by
  have hgated := Gate.perform_gated h.gated (.proceed i)
  have hnew : ∀ l ∈ Watch.topics.map fun topic => (⟨topic, .spawned⟩ : Listener), l.stage = .spawned := by decide
  show Sound origin { g with gate := g.gate.perform (.proceed i) }
  rw [hperform] at hgated ⊢
  refine { h with gated := hgated, silent := fun hoff => ?_, stages := ?_, streams := ?_ }
  · exact absurd (List.mem_of_getElem? hi) (h.silent hoff).2.2.1
  · show ∀ l ∈ g.site.watch.listeners ++ Watch.topics.map fun topic => (⟨topic, .spawned⟩ : Listener), _
    intro l hl
    rcases List.mem_append.1 hl with hl | hl
    · exact h.stages l hl
    · rw [hnew l hl]; decide
  · show ∀ (n : Nat) topic k,
      (g.site.watch.listeners ++ Watch.topics.map fun topic => (⟨topic, .spawned⟩ : Listener))[n]? =
        some ⟨topic, .listening k⟩ → _
    intro n topic k hl
    rcases lt_or_ge n g.site.watch.listeners.length with hn | hn
    · rw [List.getElem?_append_left hn] at hl
      exact h.streams n topic k hl
    · rw [List.getElem?_append_right hn] at hl
      cases hnew _ (List.mem_of_getElem? hl)

theorem Sound.proceed (h : Sound origin g) (i : Nat) : Sound origin (g.perform (.proceed i)) := by
  rcases Gate.proceed_cases g.gate i with hsame | ⟨call, hi, hproceed⟩
  · show Sound origin { g with gate := g.gate.proceed i }
    rw [hsame]
    exact h
  · by_cases hcall : call = .spawn
    · subst hcall
      exact h.spawn hi hproceed
    · obtain ⟨hplanner, hidentity, -, hevents, hlisteners⟩ := Site.stepCall_frame g.site call
      have hperform : g.gate.perform (.proceed i) = ⟨(g.site.stepCall call).1,
        g.gate.calls.set i (g.site.stepCall call).2, Gate.note g.gate.handlers (g.site.stepCall call).2⟩ := hproceed
      refine h.base ?_ ?_ ?_ fun hoff => ?_ <;> rw [hperform]
      · exact hplanner
      · exact hidentity
      · exact hlisteners hcall
      · obtain ⟨hnone, hresume, hspawn, -⟩ := h.silent hoff
        have hne : call ≠ .resume := fun hc => hresume (hc ▸ List.mem_of_getElem? hi)
        obtain ⟨hnext, hnext'⟩ := Site.stepCall_of_logged_off hoff hne
        refine ⟨hevents.trans hnone, fun hmem => ?_, fun hmem => ?_⟩
        · rcases List.mem_or_eq_of_mem_set hmem with hmem | hmem
          · exact hresume hmem
          · exact hnext' hmem.symm
        · rcases List.mem_or_eq_of_mem_set hmem with hmem | hmem
          · exact hspawn hmem
          · exact hnext hmem.symm

/-! ### Logins -/

theorem Sound.adopt (h : Sound origin g) {model : DeviceModel} (hmodel : model.location = origin) :
    Sound origin (g.perform (.adopt model)) :=
  { h with
    gated := Gate.perform_gated h.gated (.adopt model)
    silent := fun hoff => by cases hoff
    location := fun l hl => (Option.some.inj hl).symm.trans hmodel }

theorem Sound.announce (h : Sound origin g) : Sound origin (g.perform .announce) := by
  simp only [perform]
  split_ifs with hon
  · exact { h with
      gated := Gate.perform_gated h.gated (.emit .loggedOn)
      silent := fun hoff => absurd (hon.symm.trans hoff) (by decide) }
  · exact h

/-! ### Warm-ups -/

theorem Sound.snapshot (h : Sound origin g) : Sound origin (g.perform .snapshot) := by
  simp only [perform]
  split
  · rename_i l hl
    refine { h with origins := fun w hw => ?_, unbegun := fun ht => by cases ht }
    rcases List.mem_append.1 hw with hw | hw
    · exact h.origins w hw
    · rw [List.mem_singleton.1 hw]
      exact h.location l hl
  · exact h

theorem Sound.warm (h : Sound origin g) (i : Nat) : Sound origin (g.perform (.warm i)) := by
  simp only [perform]
  split
  · rename_i l a rest hi
    have hmem := List.mem_of_getElem? hi
    refine { h with
      gated := h.gated.of_quiet (Site.Quiet.of_eq rfl rfl rfl)
      origins := fun w hw => ?_
      unbegun := fun ht => absurd (h.unbegun ht ▸ hmem) List.not_mem_nil }
    rcases List.mem_or_eq_of_mem_set hw with hw | rfl
    · exact h.origins w hw
    · exact h.origins (l, a :: rest) hmem
  · exact h

/-! ### Listeners -/

/-- a site that has asked for a stream for a listener -/
def subscribed (s : Site) (n : Nat) (topic : Topic) : Site :=
  { s with
    link := { s.link with ledger := (s.link.ledger.subscribe topic).2 }
    watch := { s.watch with listeners := s.watch.listeners.set n ⟨topic, .listening s.link.ledger.streams.length⟩ } }

/-- A listener has nothing to do, or it asks for its stream, or it is the assets listener and takes in a change. -/
theorem Sound.listen_cases (h : Sound origin g) (n : Nat) :
    g.site.listen n = g.site ∨
      (∃ topic, g.site.watch.listeners[n]? = some ⟨topic, .spawned⟩ ∧ g.site.listen n = subscribed g.site n topic) ∨
        ∃ k c event rest, g.site.watch.listeners[0]? = some ⟨.assets, .listening k⟩ ∧
          g.ledger.streams[k]? = some c ∧ Feeds .assets c ∧ c.unread = event :: rest ∧
          g.site.listen n = (g.site.read k).applyAsset event := by
  cases hl : g.site.watch.listeners[n]? with
  | none => exact Or.inl (by simp [Site.listen, hl])
  | some l =>
    obtain ⟨topic, stage⟩ := l
    cases stage with
    | ended => exact absurd rfl (h.stages _ (List.mem_of_getElem? hl))
    | spawned =>
      refine Or.inr (Or.inl ⟨topic, rfl, ?_⟩)
      have hask : g.site.link.subscribe topic = .ok (g.site.link.ledger.streams.length,
          { g.site.link with ledger := (g.site.link.ledger.subscribe topic).2 }) := by
        simp [LedgerLink.subscribe, LedgerLink.attempt, h.outages, Ledger.subscribe]
      simp only [Site.listen, hl, hask]
      rfl
    | listening k =>
      obtain ⟨c, hc, hfeeds⟩ := h.streams n topic k hl
      cases hu : c.unread with
      | nil => exact Or.inl (Site.listen_of_idle hl hc hu hfeeds.serves.closed)
      | cons event rest =>
        have htopic : topic = .assets := by
          by_contra hne
          rw [hfeeds.silent hne] at hu
          cases hu
        obtain rfl := (h.topic_iff hl).1 htopic
        subst htopic
        exact Or.inr (Or.inr ⟨k, c, event, rest, hl, hc, hfeeds, hu, Site.listen_of_unread hl hc hu⟩)

theorem Sound.subscribed (h : Sound origin g) {n : Nat} {topic : Topic}
    (hl : g.site.watch.listeners[n]? = some ⟨topic, .spawned⟩) (hlisten : g.site.listen n = subscribed g.site n topic) :
    Sound origin (g.setSite (Intake.subscribed g.site n topic)) := by
  have hlt := (List.getElem?_eq_some_iff.1 hl).1
  have hstreams : (g.site.link.ledger.subscribe topic).2.streams =
      g.site.link.ledger.streams ++ [⟨topic, [], 0, false, false⟩] := rfl
  refine { h with
    gated := h.gated.of_quiet (hlisten ▸ Site.listen_quiet g.site n)
    silent := fun hoff => ?_
    stages := fun l hl' => ?_
    streams := fun n' topic' k hl' => ?_ }
  · have hnone := (h.silent hoff).2.2.2
    rw [hnone] at hlt
    exact absurd hlt (Nat.not_lt_zero n)
  · rcases List.mem_or_eq_of_mem_set hl' with hold | rfl
    · exact h.stages l hold
    · rintro ⟨⟩
  · have hl' : (g.site.watch.listeners.set n ⟨topic, .listening g.site.link.ledger.streams.length⟩)[n']? =
        some ⟨topic', .listening k⟩ := hl'
    by_cases hn : n = n'
    · subst hn
      rw [List.getElem?_set_self hlt] at hl'
      obtain ⟨rfl, hk⟩ := Listener.mk.inj (Option.some.inj hl')
      obtain rfl := Listener.Stage.listening.inj hk
      refine ⟨⟨topic, [], 0, false, false⟩, ?_, ⟨rfl, rfl, rfl, le_rfl⟩, fun _ => rfl⟩
      show (g.site.link.ledger.subscribe topic).2.streams[_]? = _
      rw [hstreams, List.getElem?_append_right le_rfl, Nat.sub_self]
      rfl
    · rw [List.getElem?_set_ne hn] at hl'
      obtain ⟨c, hc, hfeeds⟩ := h.streams n' topic' k hl'
      have hc : g.site.link.ledger.streams[k]? = some c := hc
      refine ⟨c, ?_, hfeeds⟩
      show (g.site.link.ledger.subscribe topic).2.streams[k]? = _
      rw [hstreams, List.getElem?_append_left (List.getElem?_eq_some_iff.1 hc).1]
      exact hc

theorem Sound.read (h : Sound origin g) {n k : Nat} {c : ChangeStream} {event : ChangeEvent} {rest : List ChangeEvent}
    (hc : g.ledger.streams[k]? = some c) (hfeeds : Feeds .assets c) (hu : c.unread = event :: rest)
    (hlisten : g.site.listen n = (g.site.read k).applyAsset event) :
    Sound origin (g.setSite ((g.site.read k).applyAsset event)) := by
  have hgated := h.gated.of_quiet (hlisten ▸ Site.listen_quiet g.site n)
  obtain ⟨assets, hassets⟩ := Site.applyAsset_eq (g.site.read k) event
  rw [hassets] at hgated ⊢
  refine { h with gated := hgated, streams := fun n' topic' k' hl' => ?_ }
  obtain ⟨c', hc', hfeeds'⟩ := h.streams n' topic' k' hl'
  have hstream := Ledger.updateStream_getElem? g.ledger k k' ChangeStream.next
  show ∃ c, (g.ledger.updateStream k ChangeStream.next).streams[k']? = some c ∧ _
  rw [hstream, hc']
  split_ifs with hk
  · -- the stream is that of the assets listener
    subst hk
    obtain rfl : c' = c := Option.some.inj (hc'.symm.trans hc)
    have htopic := hfeeds'.serves.topic.symm.trans hfeeds.serves.topic
    exact ⟨c'.next, rfl, hfeeds'.serves.next hu, fun hne => absurd htopic hne⟩
  · exact ⟨c', rfl, hfeeds'⟩

theorem Sound.listen (h : Sound origin g) (n : Nat) : Sound origin (g.perform (.listen n)) := by
  show Sound origin (g.setSite (g.site.listen n))
  rcases h.listen_cases n with hsame | ⟨topic, hl, hlisten⟩ | ⟨k, c, event, rest, -, hc, hfeeds, hu, hlisten⟩
  · rw [hsame]
    exact h
  · rw [hlisten]
    exact h.subscribed hl hlisten
  · rw [hlisten]
    exact h.read hc hfeeds hu hlisten

theorem perform_sound (h : Sound origin g) {op : Op} (hop : op.Stays origin) : Sound origin (g.perform op) := by
  cases op with
  | put a => exact h.put a
  | remove id => exact h.remove id
  | start => exact h.start
  | proceed i => exact h.proceed i
  | poll handler => exact h.poll handler
  | listen n => exact h.listen n
  | adopt model => exact h.adopt hop
  | announce => exact h.announce
  | snapshot => exact h.snapshot
  | warm i => exact h.warm i

end Intake

end SensorNode
