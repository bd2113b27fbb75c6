/-
The removal of a device by the ledger. Once a listener has taken in that the device itself is gone, the handler of the
removal has an event to look at (`Told`), whatever else is published or taken in before or behind it, and it resets the
device and closes it when it comes to that event (`undergo_told`). So wherever nothing can go on any more the device is
shut, and it stays shut until someone logs it in (`removal_shuts_down`).
-/
import SensorNode.Proofs.Device.Lifecycle

namespace SensorNode.Device

variable {d d' : Device} {n : Nat}

def Op.isLogin : Op → Bool
  | .carryOut (.login _) => true
  | _ => false

/-- no task can go on -/
def IsQuiet (d : Device) : Prop := ∀ t ∈ d.tasks, d.isReady t = false

/-- the device is closed and logged off, keeps nothing and has ordered nothing -/
structure IsShut (d : Device) : Prop where
  lifecycle : d.lifecycle = .closed
  identity : d.identity.isLoggedOn = false
  assets : d.assets = ∅
  requests : d.requests = ∅
  subscriptions : d.engine.activeSubscriptions = 0

/-- the device has begun, and among the events that the handler has still to look at is the removal -/
structure Told (d : Device) (handler : Nat) : Prop where
  begun : d.lifecycle ≠ .uninitialized
  awaits : ∃ ahead, d.bus.Awaits handler .removed ahead ∧ .removed ∈ ahead

theorem removed_of_kind {event : DomainEvent} (h : event.kind = .removed) : event = .removed := by
  cases event <;> first | rfl | cases h

/-! ## Someone waits for the removal -/

/-- whoever has begun and is not closed has a handler of its removal -/
def IsGuarded (d : Device) : Prop :=
  d.lifecycle = .initialized ∨ d.lifecycle = .operating → ∃ handler, d.bus.WaitsFor handler .removed

theorem isGuarded_of_waits (h : d.IsGuarded) (hlife : d'.lifecycle = d.lifecycle)
    (hwaits : ∀ handler, d.bus.WaitsFor handler .removed → d'.bus.WaitsFor handler .removed) : d'.IsGuarded := by
  intro hbegun
  rw [hlife] at hbegun
  obtain ⟨handler, hhandler⟩ := h hbegun
  exact ⟨handler, hwaits handler hhandler⟩

theorem isGuarded_of_closed (h : d.lifecycle = .closed) : d.IsGuarded := by
  rintro (hlife | hlife) <;> cases h.symm.trans hlife

theorem IsGuarded.spares (h : d.IsGuarded) (hs : Spares d d') : d'.IsGuarded := by
  obtain ⟨events, hbus⟩ := hs.bus
  exact isGuarded_of_waits h hs.lifecycle fun handler => (waitsFor_emitAll hbus).2

/-- a handler that looks at an event other than a removal leaves the others waiting, and itself if it waits for that -/
theorem waitsFor_polled {handler : Nat} (hevent : (d.bus.poll n).1 ≠ some .removed)
    (h : d.bus.WaitsFor handler .removed) : (d.polled n).bus.WaitsFor handler .removed := by
  refine Bus.waitsFor_poll.2 ⟨h, fun hsome => ?_⟩
  rintro rfl
  obtain ⟨event, he⟩ := Option.isSome_iff_exists.1 hsome
  have hkind : event.kind = .removed := Option.some.inj ((Bus.waitsFor_of_poll he).2.symm.trans h.2)
  exact hevent (he.trans (congrArg some (removed_of_kind hkind)))

theorem init_guarded (h : Sound d) (hg : d.IsGuarded) : d.init.1.IsGuarded := by
  by_cases hlife : d.lifecycle = .uninitialized
  swap
  · rw [init_refused hlife]
    exact hg
  obtain ⟨d', hspares, hd | hd⟩ := init_cases hlife <;> rw [hd]
  · rintro (hbegun | hbegun) <;> cases (hspares.lifecycle.trans hlife).symm.trans hbegun
  · intro _
    obtain ⟨events, hbus⟩ := hspares.bus
    have hinstalled : d'.bus.WaitsFor d.bus.handlers.length .removed :=
      (waitsFor_emitAll (d := { d with bus := (d.bus.once .removed).2 }) hbus).2
        (Bus.waitsFor_once.2 (Or.inr ⟨rfl, rfl⟩))
    have hwatch : d'.watch = .new := hspares.watch.trans (h.unbegun hlife)
    refine ⟨d.bus.handlers.length, ?_⟩
    rcases runCall_start hwatch with ⟨listeners, hstart⟩ | hstart <;> rw [hstart]
    · exact hinstalled
    · exact Bus.waitsFor_once.2 (Or.inl hinstalled)

theorem undergo_guarded (h : Sound d) (hg : d.IsGuarded) (op : Op) : (d.undergo op).IsGuarded := by
  rcases undergo_cases d op with hspares | rfl | rfl | rfl | ⟨n, rfl⟩ | ⟨n, rfl⟩
  · exact hg.spares hspares
  · exact init_guarded h hg
  · show d.operate.1.IsGuarded
    by_cases hlife : d.lifecycle = .initialized
    · refine IsGuarded.spares ?_ (operate_of_initialized hlife)
      exact fun _ => hg (Or.inl hlife)
    · rw [operate_refused hlife]
      exact hg
  · exact isGuarded_of_closed (close_lifecycle d)
  · obtain ⟨-, events, hbus⟩ := listen_frame d.toSite n
    exact isGuarded_of_waits hg rfl fun handler => (waitsFor_emitAll hbus).2
  · show (d.handle n).IsGuarded
    rcases h.handle_cases n with ⟨-, hd⟩ | ⟨hevent, hd | ⟨-, -, state, listeners, hd⟩⟩ <;> rw [hd]
    · exact isGuarded_of_closed (close_lifecycle _)
    · exact isGuarded_of_waits hg rfl fun handler => waitsFor_polled hevent
    · exact isGuarded_of_waits hg rfl fun handler => waitsFor_polled hevent

theorem undergoAll_guarded (h : Sound d) (hg : d.IsGuarded) (ops : List Op) : (d.undergoAll ops).IsGuarded := by
  induction ops generalizing d with
  | nil => exact hg
  | cons op ops ih => exact ih (undergo_sound h op) (undergo_guarded h hg op)

/-! ## Shut -/

theorem shut_of_sound (h : Sound d) (hlife : d.lifecycle = .closed) (hidentity : d.identity.isLoggedOn = false)
    (hassets : d.assets = ∅) (hrequests : d.requests = ∅) : d.IsShut := by
  refine ⟨hlife, hidentity, hassets, hrequests, ?_⟩
  rw [Engine.activeSubscriptions, (h.still hlife).subscriptions]
  rfl

/-- a reset and a close shut a device -/
theorem reset_close_shut (h : Sound d) : d.reset.close.IsShut := by
  have hsound : Sound d.reset := h.spares (reset_spares d)
  have hreset : d.reset.identity.isLoggedOn = false ∧ d.reset.assets = ∅ ∧ d.reset.requests = ∅ :=
    ⟨rfl, rfl, clear_requests d.toPlanner⟩
  obtain ⟨hidentity, hassets, hrequests, -⟩ := close_kept d.reset
  refine shut_of_sound hsound.close (close_lifecycle _) ?_ (hassets.trans hreset.2.1) (hrequests.trans hreset.2.2)
  rw [hidentity]
  exact hreset.1

theorem enrol_of_closed (h : d.lifecycle = .closed) (partition : Partition) (added : List Sensor)
    (removed : List String) : d.run [.enrol partition added removed] = (d, none) := by
  have hact : d.act (.enrol partition added removed) = (d, .ok []) := by simp only [act, if_pos h]
  exact run_of_ok hact

theorem discover_of_closed (h : d.lifecycle = .closed) (scan : Scan) : (d.discover scan).1 = d := by
  unfold discover
  split_ifs
  · rfl
  · split
    · rfl
    · dsimp only
      split_ifs
      · rfl
      · exact congrArg Prod.fst (enrol_of_closed h .discovered _ _)

theorem push_of_logged_off (h : d.identity.isLoggedOn = false) : (d.run pushActs).1 = d := by
  have hnone : d.identity.model = none := Option.not_isSome_iff_eq_none.1 (by rw [← Identity.isLoggedOn, h]; decide)
  have hact : d.act .readModel = (d, .ok []) := by simp only [act, hnone]
  exact congrArg Prod.fst (run_of_ok hact)

/-- nothing but a login opens a device again that is shut -/
theorem undergo_shut (h : Sound d) (hs : d.IsShut) {op : Op} (hop : op.isLogin = false) : (d.undergo op).IsShut := by
  have stays : ∀ {d'}, d' = d → d'.IsShut := fun hd => hd ▸ hs
  have open_ne : ∀ {lifecycle}, lifecycle ≠ .closed → d.lifecycle ≠ lifecycle := fun hne he =>
    hne (he.symm.trans hs.lifecycle)
  have hsound := undergo_sound h op
  cases op with
  | discover scan => exact stays (discover_of_closed hs.lifecycle scan)
  | carryOut p =>
    cases p with
    | init => exact stays (congrArg Prod.fst (init_refused (open_ne (by decide))))
    | operate => exact stays (congrArg Prod.fst (operate_refused (open_ne (by decide))))
    | close => exact stays (close_of_closed hs.lifecycle)
    | push => exact stays (push_of_logged_off hs.identity)
    | enrol partition added removed => exact stays (congrArg Prod.fst (enrol_of_closed hs.lifecycle _ _ _))
    | reset => exact shut_of_sound hsound hs.lifecycle rfl rfl (clear_requests d.toPlanner)
    | login model => cases hop
  | besides b =>
    rcases besides_cases d b with ⟨m, hm, hb⟩ | ⟨n, rfl⟩ | ⟨n, rfl⟩ | ⟨event, rfl⟩ | ⟨change, rfl⟩
    · obtain ⟨posted, postings, hstep⟩ := Planner.step_reader d.toPlanner m
      have hmove : d.undergo (.besides b) = _ := hb.trans (congrArg d.setPlanner hstep)
      rw [hmove] at hsound ⊢
      exact shut_of_sound hsound hs.lifecycle hs.identity hs.assets hs.requests
    · exact stays (congrArg d.setSite (h.listen_eq (Or.inr hs.lifecycle) n))
    · show (d.handle n).IsShut
      rcases h.handle_cases n with ⟨-, hd⟩ | ⟨-, hd | ⟨hlife, -⟩⟩
      · rw [hd]
        exact reset_close_shut (h.polled n)
      · rw [hd]
        exact { hs with }
      · exact absurd hlife (by rw [hs.lifecycle]; decide)
    · exact { hs with }
    · exact { hs with }

theorem undergoAll_shut (h : Sound d) (hs : d.IsShut) {ops : List Op} (hops : ∀ op ∈ ops, op.isLogin = false) :
    (d.undergoAll ops).IsShut := by
  induction ops generalizing d with
  | nil => exact hs
  | cons op ops ih =>
    exact ih (undergo_sound h op) (undergo_shut h hs (hops op List.mem_cons_self)) fun op' hop' =>
      hops op' (List.mem_cons_of_mem op hop')

/-! ## Told -/

theorem Told.of_emitAll {handler : Nat} (h : d.Told handler) (hbegun : d'.lifecycle ≠ .uninitialized)
    {events : List DomainEvent} (hbus : d'.bus = d.bus.emitAll events) : d'.Told handler := by
  obtain ⟨ahead, hahead, hmem⟩ := h.awaits
  exact ⟨hbegun, ahead ++ events, hbus ▸ hahead.emitAll events, List.mem_append_left events hmem⟩

/-- the handler that is stopped with the watch waits for a login -/
theorem Told.close {handler : Nat} (h : Sound d) (ht : d.Told handler) : d.close.Told handler := by
  by_cases hclosed : d.lifecycle = .closed
  · rw [close_of_closed hclosed]
    exact ht
  obtain ⟨ahead, hahead, hmem⟩ := ht.awaits
  obtain ⟨flags, fleet, listeners, ledger, -, hd⟩ := close_eq hclosed
  rw [hd]
  refine ⟨(by rintro ⟨⟩), ahead, ?_, hmem⟩
  show (d.watch.resumption.elim d.bus d.bus.abort).Awaits handler .removed ahead
  cases hresumption : d.watch.resumption with
  | none => exact hahead
  | some m =>
    refine hahead.abort ?_
    rintro rfl
    cases (h.resumes m hresumption).symm.trans hahead.waitsFor.2

/-- A handler that has been told comes to the removal sooner or later: each look at the bus takes it nearer, unless the
look of another handler has shut the device already. -/
theorem Told.handle {handler : Nat} (h : Sound d) (ht : d.Told handler) (hlags : d.bus.lags handler = false) (n : Nat) :
    (d.handle n).Told handler ∨ (d.handle n).IsShut := by
  obtain ⟨ahead, hahead, hmem⟩ := ht.awaits
  have goes_on : ∀ {ahead'}, (d.polled n).bus.Awaits handler .removed ahead' → .removed ∈ ahead' →
      (d.bus.poll n).1 ≠ some .removed → (d.handle n).Told handler ∨ (d.handle n).IsShut := by
    intro ahead' hahead' hmem' hevent
    rcases h.handle_cases n with ⟨hremoved, -⟩ | ⟨-, hd | ⟨-, -, state, listeners, hd⟩⟩
    · exact absurd hremoved hevent
    · exact Or.inl (hd ▸ ⟨ht.begun, ahead', hahead', hmem'⟩)
    · exact Or.inl (hd ▸ ⟨ht.begun, ahead', hahead', hmem'⟩)
  by_cases hevent : (d.bus.poll n).1 = some .removed
  · -- this handler or another has come to a removal
    rcases h.handle_cases n with ⟨-, hd⟩ | ⟨hnot, -⟩
    · exact Or.inr (hd ▸ reset_close_shut (h.polled n))
    · exact absurd hevent hnot
  by_cases hn : n = handler
  · subst hn
    rcases hahead.poll h.bus hlags with ⟨event, rest, -, hkind, hpoll⟩ | ⟨hhead, -, htail⟩
    · exact absurd (hpoll.trans (congrArg some (removed_of_kind hkind))) hevent
    · refine goes_on htail ?_ hevent
      cases ahead with
      | nil => cases hmem
      | cons event rest =>
        refine (List.mem_cons.1 hmem).resolve_left fun he => ?_
        exact hhead event rfl (he ▸ rfl)
  · exact goes_on (hahead.poll_of_ne h.bus hn) hmem hevent

theorem undergo_told {handler : Nat} (h : Sound d) (ht : d.Told handler) (hlags : d.bus.lags handler = false) (op : Op) :
    (d.undergo op).Told handler ∨ (d.undergo op).IsShut := by
  rcases undergo_cases d op with hspares | rfl | rfl | rfl | ⟨n, rfl⟩ | ⟨n, rfl⟩
  · obtain ⟨events, hbus⟩ := hspares.bus
    exact Or.inl (ht.of_emitAll (by rw [hspares.lifecycle]; exact ht.begun) hbus)
  · exact Or.inl (by rw [undergo, Procedure.acts, ← init, init_refused ht.begun]; exact ht)
  · show (d.operate.1).Told handler ∨ _
    by_cases hlife : d.lifecycle = .initialized
    · have hspares := operate_of_initialized hlife
      obtain ⟨events, hbus⟩ := hspares.bus
      exact Or.inl (ht.of_emitAll (by rw [hspares.lifecycle]; rintro ⟨⟩) hbus)
    · rw [operate_refused hlife]
      exact Or.inl ht
  · exact Or.inl (ht.close h)
  · obtain ⟨-, events, hbus⟩ := listen_frame d.toSite n
    exact Or.inl (ht.of_emitAll ht.begun hbus)
  · exact ht.handle h hlags n

/-- As long as the handler loses nothing, it has been told, or the device has been shut meanwhile. -/
theorem undergoAll_told {handler : Nat} (h : Sound d) (ht : d.Told handler) (ops : List Op)
    (hops : ∀ op ∈ ops, op.isLogin = false)
    (hlags : ∀ k, (d.undergoAll (ops.take k)).bus.lags handler = false) :
    (d.undergoAll ops).Told handler ∨ (d.undergoAll ops).IsShut := by
  induction ops generalizing d with
  | nil => exact Or.inl ht
  | cons op ops ih =>
    have hsound := undergo_sound h op
    have hrest : ∀ op' ∈ ops, op'.isLogin = false := fun op' hop' => hops op' (List.mem_cons_of_mem op hop')
    rcases undergo_told h ht (hlags 0) op with ht' | hshut
    · exact ih hsound ht' hrest fun k => hlags (k + 1)
    · exact Or.inr (undergoAll_shut hsound hshut hrest)

/-- a handler that has been told can go on -/
theorem Told.not_quiet {handler : Nat} (h : Sound d) (ht : d.Told handler) : ¬d.IsQuiet := by
  intro hquiet
  obtain ⟨ahead, hahead, hmem⟩ := ht.awaits
  have hlt : handler < d.bus.handlers.length := by
    obtain ⟨receiver, hn⟩ := Bus.waitsFor_iff.1 hahead.waitsFor
    exact (List.getElem?_eq_some_iff.1 hn).1
  have htask : .handler handler ∈ d.tasks := by
    simp [tasks, hlt]
  have hready : d.bus.handlerIsReady handler = false := hquiet _ htask
  rw [hahead.isReady h.bus] at hready
  cases ahead with
  | nil => cases hmem
  | cons event rest => cases hready

/-! ## The removal -/

/-- a listener that hears something belongs to a device that has begun and is not closed -/
theorem begun_of_hears (h : Sound d) {topic : Topic} {event : ChangeEvent} (hhears : d.hears n = some (topic, event)) :
    d.lifecycle = .initialized ∨ d.lifecycle = .operating := by
  unfold hears at hhears
  split at hhears
  · rename_i stream hl
    have hmem := List.mem_of_getElem? hl
    cases hlife : d.lifecycle with
    | uninitialized =>
      rw [h.unbegun hlife] at hmem
      cases hmem
    | closed => cases (h.still hlife).listeners _ hmem
    | initialized => exact Or.inl rfl
    | operating => exact Or.inr rfl
  · cases hhears

/-- whoever waits for the removal is told of it -/
theorem told_of_removed (h : Sound d) {event : ChangeEvent} (hhears : d.hears n = some (.devices, event))
    (hremoved : event.kind = .removed) (hown : event.decode? Entity.idOfRaw? = some d.identity.id) {handler : Nat}
    (hwaits : d.bus.WaitsFor handler .removed) : (d.setSite (d.listen n)).Told handler := by
  obtain ⟨link, hlisten⟩ := listen_of_hears hhears
  have hbus : (d.listen n).bus = d.bus.emit .removed := by
    rw [hlisten]
    simp only [Site.applyChange, Site.applyDevice, hremoved, hown, if_true]
    rfl
  obtain ⟨ahead, hahead⟩ := h.bus.awaits hwaits
  refine ⟨?_, ahead ++ [.removed], ?_, by simp⟩
  · rcases begun_of_hears h hhears with hlife | hlife <;>
      exact fun hnew => by cases hlife.symm.trans hnew
  · show (d.listen n).bus.Awaits handler .removed (ahead ++ [.removed])
    rw [hbus]
    exact hahead.emit .removed

/-- **Removal.** In every run, once a listener has taken in that the device itself is gone from the ledger, there is a
handler of the removal. As long as that handler loses no event and nobody logs the device in, whatever is heard,
published or asked of it in any order: when no task can go on, the device is closed and logged off, keeps no asset and no
request, and has no live subscription; and so it stays. -/
theorem removal_shuts_down (id : String) (harvestTimeout scanTimeout : Duration) (policy : Reduction) (threshold : Float)
    (before after later : List Op) (n : Nat) (event : ChangeEvent) :
    let d := (new id harvestTimeout scanTimeout policy threshold).undergoAll before
    let told := d.undergo (.besides (.task (.listener n)))
    d.hears n = some (.devices, event) → event.kind = .removed →
      event.decode? Entity.idOfRaw? = some d.identity.id → (∀ op ∈ after ++ later, op.isLogin = false) →
      (∃ handler, told.bus.WaitsFor handler .removed) ∧
        ∀ handler, told.bus.WaitsFor handler .removed →
          (∀ k, (told.undergoAll (after.take k)).bus.lags handler = false) → (told.undergoAll after).IsQuiet →
          (told.undergoAll (after ++ later)).IsShut := by
  intro d told hhears hremoved hown hops
  have h : Sound d := undergoAll_sound (new_sound id harvestTimeout scanTimeout policy threshold) before
  have hg : d.IsGuarded := undergoAll_guarded (new_sound id harvestTimeout scanTimeout policy threshold)
    (by rintro (hlife | hlife) <;> cases hlife) before
  have htold : Sound told := undergo_sound h _
  obtain ⟨-, events, hbus⟩ := listen_frame d.toSite n
  have hwaits : ∀ {handler}, told.bus.WaitsFor handler .removed ↔ d.bus.WaitsFor handler .removed :=
    waitsFor_emitAll hbus
  refine ⟨?_, fun handler hhandler hlags hquiet => ?_⟩
  · obtain ⟨handler, hhandler⟩ := hg (begun_of_hears h hhears)
    exact ⟨handler, hwaits.2 hhandler⟩
  · have hfirst := told_of_removed h hhears hremoved hown (hwaits.1 hhandler)
    have hafter := undergoAll_sound htold after
    rw [undergoAll_append]
    refine undergoAll_shut hafter ?_ fun op hop => hops op (List.mem_append_right after hop)
    refine (undergoAll_told htold hfirst after (fun op hop => hops op (List.mem_append_left later hop)) hlags).resolve_left ?_
    exact fun ht => ht.not_quiet hafter hquiet

/-- the device waits for its login and listens from then on; then the ledger drops it -/
def pairedThenRemoved : List Op :=
  [.carryOut .init, .carryOut (.login spotDevice),
    .besides (.link fun k => { k with ledger := k.ledger.putDevice spotDevice }), .besides (.task (.handler 1)),
    .besides (.task (.listener 0)), .besides (.task (.listener 1)), .besides (.task (.listener 2)),
    .besides (.link fun k => { k with ledger := k.ledger.removeDevice "dev-1" })]

/-- the handler of the removal looks at the login first, and a move is published in between -/
def looksAtBoth : List Op :=
  [.besides (.task (.handler 0)), .besides (.emit (.moved spot spot)), .besides (.task (.handler 0))]

def paired : Device := (new "dev-1" ⟨500⟩ ⟨1000⟩ .mean 10.0).undergoAll pairedThenRemoved

/-- what waits for the devices listener -/
def dropped : ChangeEvent := .of .removed spotDevice.toJson

theorem dropped_id : dropped.decode? Entity.idOfRaw? = some "dev-1" :=
  Entity.decode_id (by decide) List.mem_cons_self .removed

theorem paired_listen : paired.undergo (.besides (.task (.listener 1))) =
    paired.setSite ((paired.read 1).emit .removed) := by
  have hl : paired.watch.listeners[1]? = some ⟨.devices, .listening 1⟩ := rfl
  have hc : paired.link.ledger.streams[1]? = some ⟨.devices, [dropped], 0, false, false⟩ := rfl
  have hlisten : paired.listen 1 = (paired.read 1).applyDevice dropped := Site.listen_of_unread hl hc rfl
  have hkind : dropped.kind = .removed := rfl
  have hown : "dev-1" = (paired.read 1).identity.id := rfl
  show paired.setSite (paired.listen 1) = _
  rw [hlisten]
  simp only [Site.applyDevice, hkind, dropped_id, ← hown, if_true]

theorem removal_shuts_down_paired :
    let told := paired.undergo (.besides (.task (.listener 1)))
    paired.identity.isLoggedOn = true ∧ (told.undergoAll (looksAtBoth.take 2)).lifecycle = .initialized ∧
      (told.undergoAll (looksAtBoth ++ [.besides (.task (.listener 1)), .carryOut .push])).IsShut := by
  intro told
  have htold : told = paired.setSite ((paired.read 1).emit .removed) := paired_listen
  have hmiddle : (told.undergoAll (looksAtBoth.take 2)).lifecycle = .initialized := by
    rw [htold]
    rfl
  have hlags : ∀ k, (told.undergoAll (looksAtBoth.take k)).bus.lags 0 = false := by
    rw [htold]
    intro k
    match k with
    | 0 | 1 | 2 => decide +kernel
    | k + 3 =>
      have htake : looksAtBoth.take (k + 3) = looksAtBoth := List.take_of_length_le (by simp [looksAtBoth])
      rw [htake]
      decide +kernel
  have hquiet : (told.undergoAll looksAtBoth).IsQuiet := by
    rw [htold]
    unfold IsQuiet
    decide +kernel
  refine ⟨rfl, hmiddle, ?_⟩
  refine (removal_shuts_down "dev-1" ⟨500⟩ ⟨1000⟩ .mean 10.0 pairedThenRemoved looksAtBoth
    [.besides (.task (.listener 1)), .carryOut .push] 1 dropped rfl rfl dropped_id (by decide)).2 0 ?_ hlags hquiet
  show told.bus.WaitsFor 0 .removed
  rw [htold]
  exact ⟨rfl, rfl⟩

end SensorNode.Device
