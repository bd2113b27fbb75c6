/-
What the procedures of a device come to when they are carried out without a break: a reset and a close (`reset_spares`,
`close_eq`), an init and an operate, which are refused or not (`init_cases`, `operate_of_initialized`), and the calls
that start the watch or resume it.
-/
import SensorNode.Proofs.Device.Run

namespace SensorNode.Device

variable {d d' : Device}

/-! ## Act by act -/

theorem inTurn_of_ok {n : Nat} {a : Act} {acts : List Act} (h : d.act a = (d', .ok [])) :
    inTurn (perform (n + 1)) d (a :: acts) = inTurn (perform (n + 1)) d' acts := by
  rw [inTurn_cons, perform_of_ok h]

theorem run_of_ok {a : Act} {acts : List Act} (h : d.act a = (d', .ok [])) : d.run (a :: acts) = d'.run acts := by
  obtain ⟨n, hn⟩ := depth_pos a
  rw [run_eq, inTurn_cons, hn, perform_of_ok h]
  rfl

theorem run_of_error {a : Act} {acts : List Act} {e : Failure} (h : d.act a = (d', .error e)) :
    d.run (a :: acts) = (d', some e) := by
  obtain ⟨n, hn⟩ := depth_pos a
  rw [run_eq, inTurn_cons, hn, perform_of_error h]

theorem run_startWatch (call : Watch.Call) (acts : List Act) :
    d.run (.startWatch call :: acts) = (d.setSite (d.toSite.runCall 8 call)).run acts := by
  rw [run_eq, inTurn_cons, show depth (.startWatch call) = 8 from rfl, perform_startWatch]
  rfl

theorem inTurn_release (n : Nat) (d : Device) (sensors : List Sensor) :
    inTurn (perform (n + 1)) d (sensors.map .release) = (d.updateFleet fun f => sensors.foldl Fleet.close f, none) := by
  induction sensors generalizing d with
  | nil => rfl
  | cons sensor sensors ih =>
    rw [List.map_cons, inTurn_of_ok (show d.act (.release sensor) = (_, .ok []) from rfl), ih]
    rfl

/-! ## Reset and close -/

theorem reset_spares (d : Device) : Spares d d.reset := run_spares (by simp [resetActs, IsMild])

theorem endListener_eq (s : Site) (n : Nat) :
    ∃ ledger, s.endListener n =
      { s with
        watch := { s.watch with listeners := s.watch.listeners.modify n fun l => { l with stage := .ended } }
        link := { s.link with ledger } } := by
  unfold Site.endListener
  split
  · rename_i l hl
    have hset : s.watch.listeners.set n { l with stage := .ended } =
        s.watch.listeners.modify n fun l => { l with stage := .ended } := by
      rw [List.modify_eq_set_getElem?, hl]
      rfl
    rw [hset]
    dsimp only
    split <;> exact ⟨_, rfl⟩
  · rename_i hnone
    rw [List.modify_eq_self (List.getElem?_eq_none_iff.1 hnone)]
    exact ⟨s.link.ledger, rfl⟩

/-- items that are made over one after the other, those of these places -/
theorem foldl_modify_getElem? {α : Type} (f : α → α) (hf : ∀ x, f (f x) = f x) (ns : List Nat) (l : List α) (k : Nat) :
    (ns.foldl (fun l n => l.modify n f) l)[k]? = if k ∈ ns then l[k]?.map f else l[k]? := by
  induction ns generalizing l with
  | nil => rfl
  | cons n ns ih =>
    rw [List.foldl_cons, ih, List.getElem?_modify]
    by_cases hn : n = k
    · subst hn
      cases l[n]? <;> simp [hf]
    · simp [hn, Ne.symm hn]

theorem stopListeners_eq (s : Site) :
    ∃ listeners ledger, (∀ l ∈ listeners, l.stage = .ended) ∧ s.stopListeners =
      { s with watch := { s.watch with listeners }, link := { s.link with ledger } } := by
  have hfold : ∀ (ns : List Nat) (s : Site), ∃ ledger, ns.foldl Site.endListener s =
      { s with
        watch := { s.watch with
          listeners := ns.foldl (fun ls n => ls.modify n fun l => { l with stage := .ended }) s.watch.listeners }
        link := { s.link with ledger } } := by
    intro ns
    induction ns with
    | nil => exact fun s => ⟨s.link.ledger, rfl⟩
    | cons n ns ih =>
      intro s
      obtain ⟨ledger, h⟩ := endListener_eq s n
      obtain ⟨ledger', h'⟩ := ih (s.endListener n)
      refine ⟨ledger', ?_⟩
      rw [List.foldl_cons, h', h]
      rfl
  obtain ⟨ledger, h⟩ := hfold (List.range s.watch.listeners.length) s
  refine ⟨_, ledger, fun l hl => ?_, h⟩
  obtain ⟨k, hk⟩ := List.mem_iff_getElem?.1 hl
  rw [foldl_modify_getElem? (fun l : Listener => { l with stage := .ended }) fun _ => rfl] at hk
  split_ifs at hk with hrange
  · obtain ⟨l', -, rfl⟩ := Option.map_eq_some_iff.1 hk
    rfl
  · have := (List.getElem?_eq_some_iff.1 hk).1
    simp at hrange
    omega

theorem stopResumption_eq (s : Site) : s.stopResumption =
    { s with bus := s.watch.resumption.elim s.bus s.bus.abort, watch := { s.watch with resumption := none } } := by
  unfold Site.stopResumption
  split
  · rename_i n h
    rw [h]
    rfl
  · rename_i h
    rw [h, Option.elim_none, ← h]

theorem close_of_closed (h : d.lifecycle = .closed) : d.close = d := by
  have hact : d.act .close = (d, .ok []) := if_pos h
  rw [close, closeActs, run_of_ok hact]
  rfl

/-- all is stopped that a close stops, and the sensors are not released yet -/
def halted (d : Device) : Device :=
  let s := ({ d.toSite with toPlanner := d.toPlanner.cancelAll.2 } : Site).stop
  ({ d with lifecycle := .closed }).setSite { s with engine := s.engine.shutdown }

/-- The sensors in use are released, each in turn. -/
theorem close_of_open (h : d.lifecycle ≠ .closed) :
    d.close = d.halted.updateFleet fun f => d.halted.supportedSensors.foldl Fleet.close f := by
  have hact : d.act .close = ({ d with lifecycle := .closed },
      .ok [.cancelRequests, .stopResumption, .stopListeners, .shutdown, .releaseAll]) := if_neg h
  have hhalted : d.perform 8 .close = inTurn (perform 7) d.halted [.releaseAll] := by
    rw [perform_succ, hact]
    dsimp only
    iterate 4 rw [inTurn_of_ok rfl]
    rfl
  have hlast : d.halted.perform 7 .releaseAll =
      (d.halted.updateFleet fun f => d.halted.supportedSensors.foldl Fleet.close f, none) :=
    inTurn_release 5 d.halted d.halted.supportedSensors
  rw [close, closeActs, run_eq, inTurn_cons, show depth .close = 8 from rfl, hhalted, inTurn_cons, hlast]
  rfl

theorem halted_eq (d : Device) :
    ∃ flags listeners ledger, (∀ l ∈ listeners, l.stage = .ended) ∧ d.halted =
      { d with
        lifecycle := .closed
        engine := ({ d.engine with flags } : Engine).shutdown
        bus := d.watch.resumption.elim d.bus d.bus.abort
        watch := { d.watch with resumption := none, listeners }
        link := { d.link with ledger } } := by
  obtain ⟨flags, hcancel⟩ := foldl_cancelRequest_eq d.toPlanner d.requests.values
  have hcancel : d.toPlanner.cancelAll.2 = { d.toPlanner with engine := { d.engine with flags } } := hcancel
  obtain ⟨listeners, ledger, hended, hstop⟩ :=
    stopListeners_eq ({ d.toSite with toPlanner := d.toPlanner.cancelAll.2 } : Site).stopResumption
  refine ⟨flags, listeners, ledger, hended, ?_⟩
  rw [halted, Site.stop, hstop, stopResumption_eq, hcancel]
  rfl

/-- a close of a device that is not closed -/
theorem close_eq (h : d.lifecycle ≠ .closed) :
    ∃ flags fleet listeners ledger, (∀ l ∈ listeners, l.stage = .ended) ∧ d.close =
      { d with
        lifecycle := .closed
        engine := { ({ d.engine with flags } : Engine).shutdown with fleet }
        bus := d.watch.resumption.elim d.bus d.bus.abort
        watch := { d.watch with resumption := none, listeners }
        link := { d.link with ledger } } := by
  obtain ⟨flags, listeners, ledger, hended, hhalted⟩ := halted_eq d
  refine ⟨flags, d.halted.supportedSensors.foldl Fleet.close d.halted.engine.fleet, listeners, ledger, hended, ?_⟩
  rw [close_of_open h, updateFleet, hhalted]

theorem close_lifecycle (d : Device) : d.close.lifecycle = .closed := by
  by_cases hclosed : d.lifecycle = .closed
  · rw [close_of_closed hclosed]
    exact hclosed
  · obtain ⟨flags, fleet, listeners, ledger, -, h⟩ := close_eq hclosed
    rw [h]

/-- a close concerns neither the identity, nor what the device keeps, nor its registers -/
theorem close_kept (d : Device) :
    d.close.identity = d.identity ∧ d.close.assets = d.assets ∧ d.close.requests = d.requests ∧
      d.close.fixed = d.fixed ∧ d.close.discovered = d.discovered := by
  by_cases hclosed : d.lifecycle = .closed
  · rw [close_of_closed hclosed]
    exact ⟨rfl, rfl, rfl, rfl, rfl⟩
  · obtain ⟨flags, fleet, listeners, ledger, -, hd⟩ := close_eq hclosed
    rw [hd]
    exact ⟨rfl, rfl, rfl, rfl, rfl⟩

/-! ## Init and operate -/

theorem init_refused (h : d.lifecycle ≠ .uninitialized) : d.init = (d, some (.of "Device is already initialized")) := by
  have hact : d.act .checkUninitialized = (d, .error (.of "Device is already initialized")) := by
    simp only [act, if_neg h]
  exact run_of_error hact

theorem operate_refused (h : d.lifecycle ≠ .initialized) :
    d.operate = (d, some (.of ("Device is " ++ d.lifecycle.name ++ ", expected " ++ Lifecycle.initialized.name))) := by
  have hact : d.act (.transition .initialized .operating) =
      (d, .error (.of ("Device is " ++ d.lifecycle.name ++ ", expected " ++ Lifecycle.initialized.name))) := by
    simp only [act, if_neg h]
  exact run_of_error hact

/-- what starts a device to operate may fail afterwards, and the device is operating then all the same -/
theorem operate_of_initialized (h : d.lifecycle = .initialized) :
    Spares { d with lifecycle := .operating } d.operate.1 := by
  have hact : d.act (.transition .initialized .operating) = ({ d with lifecycle := .operating }, .ok []) := by
    simp only [act, if_pos h]
  rw [operate, operateActs, run_of_ok hact]
  exact run_spares (by simp [IsMild])

/-- A first init installs the handler of the device's removal. Then it fails, or it starts the watch. -/
theorem init_cases (h : d.lifecycle = .uninitialized) :
    ∃ d', Spares { d with bus := (d.bus.once .removed).2 } d' ∧
      (d.init.1 = d' ∨
        d.init.1 = { d'.setSite (d'.toSite.runCall 8 .start) with lifecycle := .initialized }) := by
  have hcheck : d.act .checkUninitialized = (d, .ok []) := by simp only [act, if_pos h]
  have hspares := perform_spares (d := { d with bus := (d.bus.once .removed).2 }) 8 (a := .queryDevice) trivial
  rw [init, initActs, run_of_ok hcheck, run_of_ok rfl, run_eq, inTurn_cons, show depth .queryDevice = 8 from rfl]
  rcases hquery : perform 8 { d with bus := (d.bus.once .removed).2 } .queryDevice with ⟨d', _ | e⟩ <;>
    rw [hquery] at hspares
  · refine ⟨d', hspares, Or.inr ?_⟩
    have htransition : (d'.setSite (d'.toSite.runCall 8 .start)).act (.transition .uninitialized .initialized) =
        ({ d'.setSite (d'.toSite.runCall 8 .start) with lifecycle := .initialized }, .ok []) :=
      if_pos (hspares.lifecycle.trans h)
    show (d'.run [.startWatch .start, .transition .uninitialized .initialized]).1 = _
    rw [run_startWatch, run_of_ok htransition]
    rfl
  · exact ⟨d', hspares, Or.inl rfl⟩

/-- a start of a watch that has not begun -/
theorem runCall_start {s : Site} (h : s.watch = .new) :
    (∃ listeners, s.runCall 8 .start = s.setWatch ⟨.running, false, none, listeners⟩) ∨
      s.runCall 8 .start =
        { s with bus := (s.bus.once .loggedOn).2, watch := ⟨.awaitingLogin, false, some s.bus.handlers.length, []⟩ } := by
  cases hlogged : s.identity.isLoggedOn with
  | true =>
    refine Or.inl ⟨[Topic.assets, .devices, .requirements].map fun topic => ⟨topic, .spawned⟩, ?_⟩
    simp [Site.runCall, Site.stepCall, h, hlogged, Watch.new, Site.setWatch]
  | false =>
    refine Or.inr ?_
    simp [Site.runCall, Site.stepCall, h, hlogged, Watch.new, Site.setWatch]

theorem resume_eq {s : Site} (h : s.watch.locked = false) :
    ∃ state listeners, s.resume = s.setWatch { s.watch with state, listeners } := by
  unfold Site.resume
  by_cases hstate : s.watch.state = .awaitingLogin
  · refine ⟨.running, s.watch.listeners ++ [Topic.assets, .devices, .requirements].map fun topic => ⟨topic, .spawned⟩, ?_⟩
    simp [Site.runCall, Site.stepCall, h, hstate, Site.setWatch]
  · refine ⟨s.watch.state, s.watch.listeners, ?_⟩
    have hcall : s.runCall 2 .resume = s := by simp [Site.runCall, Site.stepCall, h, hstate]
    exact hcall

end SensorNode.Device
