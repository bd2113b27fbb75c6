/-
The assets that a site keeps are those that its ledger holds near it, once nothing is left to take in. This holds of
every asset that is left alone at two times: between the first snapshot of a warm-up and the moment at which the assets
listener gets its stream, and while a warm-up has still to put what it was given of that asset (`Settled`). Then every
change falls either before a snapshot or into the stream (`asset_kept_iff`).

The invariant is that of a reader who catches up (`Follows`). What the unread changes say last of the asset is what the
ledger holds. If they say nothing, the site keeps what the ledger holds, or keeps nothing and has still to hear of it
from a warm-up.

A change at one of those times is lost, because the stream is only asked for once the listener runs, and because a
warm-up takes nothing out of the cache (`Device.login_loses_changes`).
-/
import SensorNode.Device.Turns
import SensorNode.Proofs.Intake.Run

namespace SensorNode

namespace Intake

variable {origin : Location} {g : Intake} {x : String}

/-- the stream of the assets listener, once it has asked for it -/
def stream? (g : Intake) : Option ChangeStream := g.site.stream? 0

/-- what the changes that the assets listener has not read yet say of an id, oldest first -/
def said (g : Intake) (id : String) : List (Option Asset) :=
  ((g.stream?.map ChangeStream.unread).getD []).filterMap (ChangeEvent.assetOf id)

/-- a warm-up has still to put what it was given of an id -/
def Awaits (g : Intake) (id : String) : Prop := ∃ w ∈ g.warmups, ∃ a ∈ w.2, a.id = id

/-- The ledger may change its asset of an id without the site missing it: no warm-up has still to put an older one, and
either no warm-up has asked the ledger yet or the assets listener has its stream. -/
def Settled (g : Intake) (id : String) : Prop := ¬g.Awaits id ∧ (g.taken = false ∨ g.stream?.isSome = true)

/-- this step changes the ledger's asset of an id -/
def Op.Changes (id : String) : Op → Prop
  | .put a => a.id = id
  | .remove id' => id' = id
  | _ => False

/-- the ledger's asset of an id only changes when the site can follow -/
def Calm (id : String) : Intake → List Op → Prop
  | _, [] => True
  | g, op :: ops => (op.Changes id → g.Settled id) ∧ Calm id (g.perform op) ops

/-- an asset as far as it is near -/
def nearby (g : Intake) (origin : Location) (v : Option Asset) : Option Asset :=
  v.filter fun a => a.location.isNear origin g.site.threshold

structure Follows (origin : Location) (id : String) (g : Intake) : Prop where
  pending : ∀ w ∈ g.warmups, ∀ a ∈ w.2, a.id = id → g.ledger.assets.find? id = some a
  told : ∀ v, (g.said id).getLast? = some v → v = g.ledger.assets.find? id
  untold : g.said id = [] → g.site.assets.find? id = g.nearby origin (g.ledger.assets.find? id) ∨
    g.site.assets.find? id = none ∧ (g.taken = false ∨ g.Awaits id)
  early : g.taken = false → g.stream? = none → g.site.assets.find? id = none

theorem new_follows {s : Site} (h : Fresh origin s) (id : String) : Follows origin id (new s) := by
  have hassets : (new s).site.assets.find? id = none := by
    show s.assets.find? id = none
    rw [h.assets, Keyed.find?_empty]
  have hstream : (new s).stream? = none := by
    show (s.watch.listeners[0]?.bind Listener.stream?).bind _ = none
    rw [h.watch]
    rfl
  refine ⟨fun w hw => absurd hw List.not_mem_nil, fun v hv => ?told, fun _ => Or.inr ⟨hassets, Or.inl rfl⟩,
    fun _ _ => hassets⟩
  case told =>
    unfold said at hv
    rw [hstream] at hv
    cases hv

/-- a step that touches neither the assets on either side nor what is said of them between the two -/
theorem Follows.of_eq (h : Follows origin x g) {g' : Intake} (hledger : g'.ledger.assets = g.ledger.assets)
    (hassets : g'.site.assets = g.site.assets) (hthreshold : g'.site.threshold = g.site.threshold)
    (hsaid : g'.said x = g.said x) (hstream : g'.stream? = none → g.stream? = none) (htaken : g'.taken = g.taken)
    (hwarmups : g'.warmups = g.warmups) : Follows origin x g' := by
  have hnearby : ∀ v, g'.nearby origin v = g.nearby origin v := fun v => by unfold nearby; rw [hthreshold]
  have hawaits : g'.Awaits x ↔ g.Awaits x := by unfold Awaits; rw [hwarmups]
  refine ⟨?_, ?_, ?_, ?_⟩
  · rw [hwarmups, hledger]
    exact h.pending
  · rw [hsaid, hledger]
    exact h.told
  · rw [hsaid, hassets, hledger, hnearby, htaken, hawaits]
    exact h.untold
  · rw [htaken, hassets]
    exact fun ht hnone => h.early ht (hstream hnone)

theorem said_congr {g' : Intake} (h : g'.stream? = g.stream?) : g'.said x = g.said x := by unfold said; rw [h]

/-! ## Changes of the ledger -/

/-- a stream that the assets listener has is open -/
theorem Sound.feeds (h : Sound origin g) {c : ChangeStream} (hc : g.stream? = some c) : Feeds .assets c := by
  obtain ⟨topic, k, hl, hk⟩ := Site.stream?_eq_some hc
  obtain ⟨c', hc', hfeeds⟩ := h.streams 0 topic k hl
  obtain rfl : c' = c := Option.some.inj (hc'.symm.trans hk)
  exact (h.topic_iff hl).2 rfl ▸ hfeeds

/-- once there are listeners the device is logged on, and what is near it is near where it stays -/
theorem Sound.near_eq (h : Sound origin g) {n : Nat} {l : Listener} (hl : g.site.watch.listeners[n]? = some l)
    (v : Option Asset) : g.site.near v = g.nearby origin v := by
  have hon : g.site.identity.isLoggedOn = true := by
    by_contra hoff
    have hnone := (h.silent (Bool.eq_false_iff.2 hoff)).2.2.2
    rw [hnone] at hl
    cases hl
  obtain ⟨model, hmodel⟩ := Option.isSome_iff_exists.1 hon
  have hloc : g.site.identity.location? = some model.location := by
    unfold Identity.location?
    rw [hmodel]
    rfl
  unfold Site.near nearby
  rw [hloc, h.location _ hloc]
  rfl

/-- The ledger's asset of some id becomes another or none, and the listeners are told. -/
theorem Follows.publish (h : Follows origin x g) (hs : Sound origin g) {assets : Keyed String Asset}
    {event : ChangeEvent} {id : String} {v : Option Asset} (hevent : event.asset? = some (id, v))
    (hput : ∀ id', assets.find? id' = if id' = id then v else g.ledger.assets.find? id')
    (hsettled : id = x → g.Settled x) :
    Follows origin x (g.setLedger (Ledger.publish { g.ledger with assets } .assets event)) := by
  set g' := g.setLedger (Ledger.publish { g.ledger with assets } .assets event) with hg'
  have hstream : g'.stream? = g.stream?.map (ChangeStream.told .assets event) := Site.stream?_map rfl rfl
  have hsaid : g'.said x = g.said x ++ if g.stream?.isSome ∧ id = x then [v] else [] := by
    unfold said
    rw [hstream]
    cases hc : g.stream? with
    | none => simp
    | some c =>
      have hunread := (hs.feeds hc).serves.unread_told .assets event
      have hof : event.assetOf x = if x = id then some v else none := ChangeEvent.newsOf_of_some hevent x
      simp only [Option.map_some, Option.getD_some, hunread, if_true, List.filterMap_append, List.filterMap_cons, hof,
        List.filterMap_nil, Option.isSome_some, true_and, eq_comm (a := x)]
      split_ifs <;> rfl
  have hledger : g'.ledger.assets.find? x = if x = id then v else g.ledger.assets.find? x := hput x
  by_cases hid : id = x
  · -- this is the asset that is followed
    subst hid
    obtain ⟨hawaits, htaken⟩ := hsettled rfl
    rw [if_pos rfl] at hledger
    refine ⟨fun w hw a ha hida => absurd ⟨w, hw, a, ha, hida⟩ hawaits, fun v' hv' => ?_, fun hnil => ?_,
      fun ht hnone => ?_⟩
    · rw [hsaid] at hv'
      rw [hledger]
      cases hc : g.stream? with
      | some c =>
        rw [hc] at hv'
        simpa using hv'.symm
      | none =>
        -- without a stream nothing is unread
        have hnothing : g.said id = [] := by unfold said; rw [hc]; rfl
        rw [hc, hnothing] at hv'
        simp at hv'
    · rw [hsaid] at hnil
      have hnone : g.stream? = none := by
        cases hc : g.stream? with
        | none => rfl
        | some c =>
          rw [hc] at hnil
          simp at hnil
      have htaken : g.taken = false := by
        rcases htaken with ht | hsome
        · exact ht
        · rw [hnone] at hsome
          cases hsome
      exact Or.inr ⟨h.early htaken hnone, Or.inl htaken⟩
    · have hnone : g.stream? = none := by
        rw [hstream] at hnone
        exact Option.map_eq_none_iff.1 hnone
      exact h.early ht hnone
  · rw [if_neg (Ne.symm hid)] at hledger
    have hsaid : g'.said x = g.said x := by rw [hsaid, if_neg (fun hand => hid hand.2), List.append_nil]
    refine ⟨?_, ?_, ?_, fun ht hnone => ?_⟩
    · rw [hledger]
      exact h.pending
    · rw [hsaid, hledger]
      exact h.told
    · rw [hsaid, hledger]
      exact h.untold
    · rw [hstream] at hnone
      exact h.early ht (Option.map_eq_none_iff.1 hnone)

theorem Follows.put (h : Follows origin x g) (hs : Sound origin g) {a : Asset} (ha : a.location.isFinite = true)
    (hsettled : a.id = x → g.Settled x) : Follows origin x (g.perform (.put a)) :=
  h.publish hs (ChangeEvent.asset?_put ha _) (fun _ => Keyed.find?_insert ..) hsettled

theorem Follows.remove (h : Follows origin x g) (hs : Sound origin g) {id : String}
    (hsettled : id = x → g.Settled x) : Follows origin x (g.perform (.remove id)) := by
  simp only [perform, Ledger.removeAsset]
  split
  · rename_i a ha
    obtain rfl : a.id = id := hs.keyed id a ha
    exact h.publish hs (ChangeEvent.asset?_removed a) (fun _ => Keyed.find?_erase ..) hsettled
  · exact h

/-! ## Warm-ups -/

theorem Follows.snapshot (h : Follows origin x g) (hs : Sound origin g) : Follows origin x (g.perform .snapshot) := by
  simp only [perform]
  split
  · rename_i l _
    refine ⟨fun w hw a ha hax => ?_, h.told, fun hnil => ?_, fun ht => by cases ht⟩
    · rcases List.mem_append.1 hw with hw | hw
      · exact h.pending w hw a ha hax
      · rw [List.mem_singleton.1 hw] at ha
        obtain ⟨id, hid⟩ := (Keyed.mem_values_iff _ _).1 ha
        obtain rfl : id = x := (hs.keyed id a hid).symm.trans hax
        exact hid
    · rcases h.untold hnil with hkept | ⟨hnone, -⟩
      · exact Or.inl hkept
      · -- the site keeps nothing: either there is nothing, or this warm-up has been given it
        cases hl : g.ledger.assets.find? x with
        | none => exact Or.inl (hnone.trans (by show none = g.nearby origin (g.ledger.assets.find? x); rw [hl]; rfl))
        | some a =>
          refine Or.inr ⟨hnone, Or.inr ⟨(l, g.ledger.assets.values), List.mem_append_right _ (List.mem_singleton.2 rfl), a,
            (Keyed.mem_values_iff _ _).2 ⟨x, hl⟩, hs.keyed x a hl⟩⟩
  · exact h

theorem Follows.warm (h : Follows origin x g) (hs : Sound origin g) (i : Nat) :
    Follows origin x (g.perform (.warm i)) := by
  simp only [perform]
  split
  · rename_i l a rest hi
    have hlt := (List.getElem?_eq_some_iff.1 hi).1
    have hmem := List.mem_of_getElem? hi
    obtain rfl : l = origin := hs.origins _ hmem
    have hput := Site.putNear_find? g.site a l x
    refine ⟨fun w hw a' ha' hax => ?_, h.told, fun hnil => ?_, fun ht => absurd (hs.unbegun ht ▸ hmem) List.not_mem_nil⟩
    · rcases List.mem_or_eq_of_mem_set hw with hw | rfl
      · exact h.pending w hw a' ha' hax
      · exact h.pending _ hmem a' (List.mem_cons_of_mem a ha') hax
    · by_cases hax : a.id = x
      · -- what is put is what the ledger holds
        have hl := h.pending _ hmem a List.mem_cons_self hax
        refine Or.inl (hput.trans ?_)
        show _ = g.nearby l (g.ledger.assets.find? x)
        rw [if_pos hax.symm, hl, nearby, Option.filter_some]
      · rw [if_neg (Ne.symm hax)] at hput
        rcases h.untold hnil with hkept | ⟨hnone, hyet⟩
        · exact Or.inl (hput.trans hkept)
        · refine Or.inr ⟨hput.trans hnone, hyet.imp_right ?_⟩
          rintro ⟨w, hw, a', ha', hax'⟩
          by_cases hwi : w = (l, a :: rest)
          · subst hwi
            have hrest : a' ∈ rest := (List.mem_cons.1 ha').resolve_left fun heq => hax (heq ▸ hax')
            exact ⟨(l, rest), List.mem_set hlt _, a', hrest, hax'⟩
          · refine ⟨w, ?_, a', ha', hax'⟩
            obtain ⟨j, hj⟩ := List.mem_iff_getElem?.1 hw
            have hne : i ≠ j := by
              rintro rfl
              exact hwi (Option.some.inj (hj.symm.trans hi))
            exact List.mem_of_getElem? ((List.getElem?_set_ne hne).trans hj)
  · exact h

/-! ## Calls, logins and listeners -/

theorem Follows.proceed (h : Follows origin x g) (i : Nat) : Follows origin x (g.perform (.proceed i)) := by
  show Follows origin x { g with gate := g.gate.proceed i }
  rcases Gate.proceed_cases g.gate i with hsame | ⟨call, -, hproceed⟩
  · rw [hsame]
    exact h
  · obtain ⟨hplanner, -, hthreshold, -, hlisteners⟩ := Site.stepCall_frame g.site call
    -- new listeners have no stream yet
    have hfirst : (g.site.stepCall call).1.watch.listeners[0]?.bind Listener.stream? =
        g.site.watch.listeners[0]?.bind Listener.stream? := by
      by_cases hspawn : call = .spawn
      · subst hspawn
        show (g.site.watch.listeners ++ Watch.topics.map fun topic => (⟨topic, .spawned⟩ : Listener))[0]?.bind _ = _
        cases g.site.watch.listeners <;> rfl
      · rw [hlisteners hspawn]
    have hledger := congrArg (fun p : Planner => p.link.ledger) hplanner
    rw [hproceed]
    have hstream : Intake.stream? { g with gate := ⟨(g.site.stepCall call).1, g.gate.calls.set i (g.site.stepCall call).2,
        Gate.note g.gate.handlers (g.site.stepCall call).2⟩ } = g.stream? :=
      Site.stream?_congr hfirst (congrArg Ledger.streams hledger)
    exact h.of_eq (congrArg Ledger.assets hledger) (congrArg Planner.assets hplanner) hthreshold (said_congr hstream)
      (fun hnone => hstream.symm.trans hnone) rfl rfl

theorem Follows.poll (h : Follows origin x g) (handler : Nat) : Follows origin x (g.perform (.poll handler)) := by
  have hsite := Gate.poll_site g.gate handler
  have hstream : (g.perform (.poll handler)).stream? = g.stream? := by
    show (g.gate.poll handler).site.stream? 0 = _
    rw [hsite]
    rfl
  refine h.of_eq ?_ ?_ ?_ (said_congr hstream) (fun hnone => hstream.symm.trans hnone) rfl rfl
  · show (g.gate.poll handler).site.link.ledger.assets = _
    rw [hsite]
    rfl
  · show (g.gate.poll handler).site.assets = _
    rw [hsite]
    rfl
  · show (g.gate.poll handler).site.threshold = _
    rw [hsite]
    rfl

/-- a listener that has just got its stream has heard of nothing yet -/
theorem Follows.subscribed (h : Follows origin x g) (hs : Sound origin g) {n : Nat} {topic : Topic}
    (hl : g.site.watch.listeners[n]? = some ⟨topic, .spawned⟩) :
    Follows origin x (g.setSite (Intake.subscribed g.site n topic)) := by
  set g' := g.setSite (Intake.subscribed g.site n topic) with hg'
  have hstream : g'.stream? = if n = 0 then some ⟨topic, [], 0, false, false⟩ else g.stream? := by
    have hstreams : g'.ledger.streams = g.ledger.streams ++ [⟨topic, [], 0, false, false⟩] := rfl
    have hlisteners : g'.site.watch.listeners =
        g.site.watch.listeners.set n ⟨topic, .listening g.ledger.streams.length⟩ := rfl
    split_ifs with hn
    · subst hn
      have hfirst : g'.site.watch.listeners[0]? = some ⟨topic, .listening g.ledger.streams.length⟩ := by
        rw [hlisteners, List.getElem?_set_self (List.getElem?_eq_some_iff.1 hl).1]
      refine (Site.stream?_of_listening hfirst).trans ?_
      exact (List.getElem?_append_right le_rfl).trans (by rw [Nat.sub_self]; rfl)
    · have hfirst : g'.site.watch.listeners[0]? = g.site.watch.listeners[0]? := by
        rw [hlisteners, List.getElem?_set_ne hn]
      unfold stream? Site.stream?
      rw [hfirst]
      cases hk : g.site.watch.listeners[0]?.bind Listener.stream? with
      | none => rfl
      | some k =>
        -- the stream of the assets listener is there already
        obtain ⟨⟨topic', stage⟩, hl', hstage⟩ := Option.bind_eq_some_iff.1 hk
        cases stage with
        | listening k' =>
          obtain rfl : k' = k := Option.some.inj hstage
          obtain ⟨c, hc, -⟩ := hs.streams 0 topic' k' hl'
          exact List.getElem?_append_left (List.getElem?_eq_some_iff.1 hc).1
        | _ => cases hstage
  have hsaid : g'.said x = g.said x := by
    by_cases hn : n = 0
    · subst hn
      have hnone : g.stream? = none := by
        unfold stream? Site.stream?
        rw [hl]
        rfl
      unfold said
      rw [hstream, hnone]
      rfl
    · exact said_congr (by rw [hstream, if_neg hn])
  refine h.of_eq rfl rfl rfl hsaid (fun hnone => ?_) rfl rfl
  rw [hstream] at hnone
  split_ifs at hnone
  exact hnone

/-- the assets listener takes in a change -/
theorem Follows.read (h : Follows origin x g) (hs : Sound origin g) {k : Nat} {c : ChangeStream} {event : ChangeEvent}
    {rest : List ChangeEvent} (hl : g.site.watch.listeners[0]? = some ⟨.assets, .listening k⟩)
    (hc : g.ledger.streams[k]? = some c) (hu : c.unread = event :: rest) :
    Follows origin x (g.setSite ((g.site.read k).applyAsset event)) := by
  have hfind := Site.applyAsset_find? (g.site.read k) event x
  obtain ⟨assets, happly⟩ := Site.applyAsset_eq (g.site.read k) event
  rw [happly] at hfind ⊢
  set g' := g.setSite { g.site.read k with assets } with hg'
  have hstream : g'.stream? = some c.next := by
    refine (Site.stream?_of_listening (s := g'.site) hl).trans ?_
    show (g.ledger.updateStream k ChangeStream.next).streams[k]? = _
    rw [Ledger.updateStream_getElem?, if_pos rfl, hc]
    rfl
  have hbefore : g.stream? = some c := (Site.stream?_of_listening hl).trans hc
  have hsaid : g.said x = (event.assetOf x).toList ++ g'.said x := by
    unfold said
    rw [hstream, hbefore, Option.map_some, Option.getD_some, Option.map_some, Option.getD_some, hu,
      ChangeStream.unread_next hu, List.filterMap_cons]
    cases event.assetOf x <;> rfl
  have hlater : ∀ v, (g'.said x).getLast? = some v → v = g.ledger.assets.find? x := fun v hv =>
    h.told v (by rw [hsaid, List.getLast?_append, hv]; rfl)
  have hearly : g'.taken = false → g'.stream? = none → g'.site.assets.find? x = none := fun _ hnone => by
    rw [hstream] at hnone
    cases hnone
  refine ⟨h.pending, hlater, fun hnil => ?_, hearly⟩
  show assets.find? x = g.nearby origin (g.ledger.assets.find? x) ∨
    assets.find? x = none ∧ (g.taken = false ∨ g.Awaits x)
  cases habout : event.assetOf x with
  | some v =>
    -- this was the last change, so it says what the ledger holds
    have hv : v = g.ledger.assets.find? x := h.told v (by rw [hsaid, habout, hnil]; rfl)
    rw [habout] at hfind
    exact Or.inl (hv ▸ hfind.trans (hs.near_eq hl v))
  | none =>
    rw [habout] at hfind
    have hkept : assets.find? x = g.site.assets.find? x := hfind
    rw [hkept]
    exact h.untold (by rw [hsaid, habout, hnil]; rfl)

theorem Follows.listen (h : Follows origin x g) (hs : Sound origin g) (n : Nat) :
    Follows origin x (g.perform (.listen n)) := by
  show Follows origin x (g.setSite (g.site.listen n))
  rcases hs.listen_cases n with hsame | ⟨topic, hl, hlisten⟩ | ⟨k, c, event, rest, hl, hc, -, hu, hlisten⟩
  · rw [hsame]
    exact h
  · rw [hlisten]
    exact h.subscribed hs hl
  · rw [hlisten]
    exact h.read hs hl hc hu

/-! ## Runs -/

theorem perform_follows (h : Follows origin x g) (hs : Sound origin g) {op : Op} (hop : op.Stays origin)
    (hsettled : op.Changes x → g.Settled x) : Follows origin x (g.perform op) := by
  cases op with
  | put a => exact h.put hs hop hsettled
  | remove id => exact h.remove hs hsettled
  | start => exact h.of_eq rfl rfl rfl rfl id rfl rfl
  | proceed i => exact h.proceed i
  | poll handler => exact h.poll handler
  | listen n => exact h.listen hs n
  | adopt model => exact h.of_eq rfl rfl rfl rfl id rfl rfl
  | announce =>
    simp only [perform]
    split_ifs
    · exact h.of_eq rfl rfl rfl rfl id rfl rfl
    · exact h
  | snapshot => exact h.snapshot hs
  | warm i => exact h.warm hs i

theorem performAll_follows (h : Follows origin x g) (hs : Sound origin g) {ops : List Op}
    (hops : ∀ op ∈ ops, op.Stays origin) (hcalm : Calm x g ops) :
    Follows origin x (g.performAll ops) ∧ Sound origin (g.performAll ops) := by
  induction ops generalizing g with
  | nil => exact ⟨h, hs⟩
  | cons op ops ih =>
    have hop := hops op List.mem_cons_self
    exact ih (perform_follows h hs hop hcalm.1) (perform_sound hs hop)
      (fun op' hmem => hops op' (List.mem_cons_of_mem op hmem)) hcalm.2

/-- nothing is left to take in: a warm-up has taken place and all are through, and the assets listener has read all
that its stream has been told -/
structure Quiet (g : Intake) : Prop where
  taken : g.taken = true
  warm : ∀ w ∈ g.warmups, w.2 = []
  drained : ∃ c, g.stream? = some c ∧ c.unread = []

/-- **The assets that a site keeps are those that its ledger holds near it.** In any run in which the device stays where
it is, once nothing is left to take in, an asset is kept if and only if the ledger holds it near the device, and as the
ledger holds it; provided that the ledger only changed it when the site could follow. -/
theorem asset_kept_iff {s : Site} (h : Fresh origin s) {ops : List Op} (hops : ∀ op ∈ ops, op.Stays origin) {id : String}
    (hcalm : Calm id (new s) ops) (hquiet : ((new s).performAll ops).Quiet) :
    ((new s).performAll ops).site.assets.find? id =
      ((new s).performAll ops).site.near (((new s).performAll ops).ledger.assets.find? id) := by
  obtain ⟨hfollows, hsound⟩ := performAll_follows (new_follows h id) (new_sound h) hops hcalm
  obtain ⟨c, hc, hunread⟩ := hquiet.drained
  obtain ⟨topic, k, hl, -⟩ := Site.stream?_eq_some hc
  have hsaid : ((new s).performAll ops).said id = [] := by
    unfold said
    rw [hc, Option.map_some, Option.getD_some, hunread]
    rfl
  rw [hsound.near_eq hl]
  refine (hfollows.untold hsaid).resolve_right ?_
  rintro ⟨-, htaken | ⟨w, hw, a, ha, -⟩⟩
  · rw [hquiet.taken] at htaken
    cases htaken
  · rw [hquiet.warm w hw] at ha
    cases ha

end Intake

/-! ## Runs at one place -/

namespace Intake

/-- a device that is not logged on, and an asset in its ledger -/
def beside : Site :=
  let s := Site.new "dev-1" ⟨1000⟩ .mean 100.0
  { s with link := { s.link with ledger := s.link.ledger.putAsset (spotAsset "a1") } }

theorem beside_fresh : Fresh spot beside where
  watch := rfl
  events := rfl
  assets := rfl
  outages := rfl
  keyed id a ha := by
    have hput := Keyed.find?_insert (∅ : Keyed String Asset) "a1" id (spotAsset "a1")
    have ha : ((∅ : Keyed String Asset).insert "a1" (spotAsset "a1")).find? id = some a := ha
    rw [hput, Keyed.find?_empty] at ha
    split_ifs at ha with hid
    rw [← Option.some.inj ha, hid]
    rfl
  location l hl := by cases hl

/-- The device logs in between the two looks of a start and is warmed up; when the assets listener has its stream, the
ledger puts another asset. -/
def loginWarmPut : List Op :=
  [.start, .proceed 0, .proceed 0, .adopt spotDevice, .announce, .proceed 0, .snapshot, .warm 0, .proceed 0, .listen 0,
    .put (spotAsset "a2")]

def warmedUp : Intake := (new beside).performAll loginWarmPut

/-- the change that waits for the assets listener -/
def latePut : ChangeEvent := .of .inserted (spotAsset "a2").toJson

/-- the asset that was put late is kept, as the ledger holds it -/
theorem asset_kept_put_late :
    ((new beside).performAll (loginWarmPut ++ [.listen 0])).site.assets.find? "a2" = some (spotAsset "a2") := by
  have hstays : ∀ op ∈ loginWarmPut ++ [.listen 0], op.Stays spot := by
    simp only [loginWarmPut, List.cons_append, List.nil_append, List.forall_mem_cons]
    exact ⟨trivial, trivial, trivial, rfl, trivial, trivial, trivial, trivial, trivial, trivial, rfl, trivial,
      fun _ h => absurd h List.not_mem_nil⟩
  have hsettled : ((new beside).performAll (loginWarmPut.take 10)).Settled "a2" := by
    refine ⟨fun ⟨w, hw, a, ha, _⟩ => ?_, Or.inr rfl⟩
    obtain rfl : w = (spot, []) := List.mem_singleton.1 hw
    cases ha
  have hcalm : Calm "a2" (new beside) (loginWarmPut ++ [.listen 0]) :=
    ⟨False.elim, False.elim, False.elim, False.elim, False.elim, False.elim, False.elim, False.elim, False.elim,
      False.elim, fun _ => hsettled, False.elim, trivial⟩
  obtain ⟨assets, happly⟩ := Site.applyAsset_eq (warmedUp.site.read 0) latePut
  have hrun : (new beside).performAll (loginWarmPut ++ [.listen 0]) =
      warmedUp.setSite { warmedUp.site.read 0 with assets } := by
    have hl : warmedUp.site.watch.listeners[0]? = some ⟨.assets, .listening 0⟩ := rfl
    have hc : warmedUp.site.link.ledger.streams[0]? = some ⟨.assets, [latePut], 0, false, false⟩ := rfl
    have hlisten : warmedUp.site.listen 0 = (warmedUp.site.read 0).applyAsset latePut := Site.listen_of_unread hl hc rfl
    show warmedUp.setSite (warmedUp.site.listen 0) = _
    rw [hlisten, happly]
  have hquiet : ((new beside).performAll (loginWarmPut ++ [.listen 0])).Quiet := by
    rw [hrun]
    refine ⟨rfl, fun w hw => ?_, ⟨.assets, [latePut], 1, false, false⟩, rfl, rfl⟩
    obtain rfl : w = (spot, []) := List.mem_singleton.1 hw
    rfl
  have hnear : warmedUp.site.near (warmedUp.ledger.assets.find? "a2") = some (spotAsset "a2") := by rfl
  have hkept := asset_kept_iff beside_fresh hstays hcalm hquiet
  rw [hrun] at hkept ⊢
  exact hkept.trans hnear

end Intake

namespace Device

/-- a device that its ledger knows, with an asset at the same place -/
def besideAsset : Device :=
  let d := Device.new "dev-1" ⟨1000⟩ ⟨500⟩ .mean 100.0
  { d with link := { d.link with ledger := (d.link.ledger.putDevice spotDevice).putAsset (spotAsset "a1") } }

def changeLedger (d : Device) (change : Ledger → Ledger) : Device :=
  { d with link := { d.link with ledger := change d.link.ledger } }

/-- A login puts the asset; before the device is initialised the ledger removes it, and right after that the ledger puts
another. Then all tasks have their turns. -/
def betweenSnapshots : Turns :=
  let d := (besideAsset.login spotDevice).1
  let d := (d.changeLedger (Ledger.removeAsset · "a1")).init.1
  (Turns.new (d.changeLedger (Ledger.putAsset · (spotAsset "a2")))).settle

/-- Changes are lost that come before the assets listener has its stream: when no task is ready any more, the device keeps
an asset that the ledger does not hold, and does not keep one that the ledger holds at the place of the device. -/
theorem login_loses_changes :
    betweenSnapshots.queue = [] ∧ betweenSnapshots.device.lifecycle = .initialized ∧
      betweenSnapshots.device.identity.location? = some spot ∧
      betweenSnapshots.device.link.ledger.assets.find? "a1" = none ∧
      betweenSnapshots.device.assets.find? "a1" = some (spotAsset "a1") ∧
      betweenSnapshots.device.link.ledger.assets.find? "a2" = some (spotAsset "a2") ∧
      betweenSnapshots.device.assets.find? "a2" = none :=
  ⟨rfl, rfl, rfl, rfl, rfl, rfl, rfl⟩

end Device

end SensorNode
