/-
Runs of a device. What is asked of it is a procedure (`Procedure`), carried out without a break, or a scan of its sensor
buses. Before, between and after, anything else may go on in it, in any order (`Besides`): its tasks take steps, events
are published, time passes, and the ledger and the link to it become anything at all.

- `run_keeps`: what every act of a procedure keeps, the whole procedure keeps.
- `besides_cases`: what can go on besides procedures.
- `Spares`: what all acts leave alone but the few that begin or end something, and what is left alone by every act
  once the device is closed (`act_spares`).
-/
import SensorNode.Device.Turns
import SensorNode.Proofs.Receivers
import SensorNode.Proofs.Site.Changes

namespace SensorNode

/-- what can be asked of a device -/
inductive Procedure
  | init
  | login (model : DeviceModel)
  | operate
  | reset
  | close
  /-- tells the ledger what the sensors can read -/
  | push
  /-- changes a register -/
  | enrol (partition : Partition) (added : List Sensor) (removed : List String)

def Procedure.acts : Procedure → List Act
  | .init => Device.initActs
  | .login model => Device.loginActs model
  | .operate => Device.operateActs
  | .reset => Device.resetActs
  | .close => Device.closeActs
  | .push => Device.pushActs
  | .enrol partition added removed => [.enrol partition added removed]

namespace Device

/-- what goes on in a device besides its procedures -/
inductive Besides
  /-- a task goes on -/
  | task (t : Task)
  /-- The drive loop takes the next order. It may do so even when it has been told to stop, if it looks at the queue
  first. -/
  | dispatch
  /-- the sensors of a job's cycle do whatever they do -/
  | sense (job : Nat) (events : List (Nat × Cycle.Event)) (players : List Player) (fleet : Fleet)
  | wait (span : Duration)
  /-- someone publishes an event -/
  | emit (event : DomainEvent)
  /-- the ledger changes, or the link to it -/
  | link (change : LedgerLink → LedgerLink)

inductive Op
  | carryOut (p : Procedure)
  | discover (scan : Scan)
  | besides (b : Besides)

def setSite (d : Device) (site : Site) : Device := { d with toSite := site }

def setEngine (d : Device) (engine : Engine) : Device := { d with engine }

def besides (d : Device) : Besides → Device
  | .task t => (d.step t).1
  | .dispatch => d.setEngine d.engine.dispatch
  | .sense job events players fleet => d.setEngine (d.engine.sense job events players fleet)
  | .wait span => d.setEngine { d.engine with now := d.engine.now + span.millis }
  | .emit event => { d with toSite := d.emit event }
  | .link change => { d with link := change d.link }

def undergo (d : Device) : Op → Device
  | .carryOut p => (d.run p.acts).1
  | .discover scan => (d.discover scan).1
  | .besides b => d.besides b

def undergoAll (d : Device) (ops : List Op) : Device := ops.foldl undergo d

variable {d d' : Device}

theorem undergoAll_append (d : Device) (ops ops' : List Op) :
    d.undergoAll (ops ++ ops') = (d.undergoAll ops).undergoAll ops' := List.foldl_append

/-! ## Procedures as sequences of acts -/

/-- things that may fail are done one after the other, up to the first that fails -/
def inTurn (f : Device → Act → Device × Option Failure) (d : Device) (acts : List Act) : Device × Option Failure :=
  acts.foldl (fun r a =>
    match r with
    | (d, none) => f d a
    | (d, some e) => (d, some e)) (d, none)

section

variable (f : Device → Act → Device × Option Failure)

theorem inTurn_cons (d : Device) (a : Act) (acts : List Act) :
    inTurn f d (a :: acts) =
      match f d a with
      | (d, none) => inTurn f d acts
      | (d, some e) => (d, some e) := by
  unfold inTurn
  rw [List.foldl_cons]
  show acts.foldl _ (f d a) = _
  rcases f d a with ⟨d', _ | e⟩
  · rfl
  · induction acts with
    | nil => rfl
    | cons a acts ih => exact ih

variable {f}

theorem inTurn_keeps {P : Device → Prop} {S : Act → Prop} (hf : ∀ d a, P d → S a → P (f d a).1) (hd : P d)
    {acts : List Act} (hacts : ∀ a ∈ acts, S a) : P (inTurn f d acts).1 := by
  induction acts generalizing d with
  | nil => exact hd
  | cons a acts ih =>
    rw [inTurn_cons]
    have hone := hf d a hd (hacts a List.mem_cons_self)
    rcases hfa : f d a with ⟨d', _ | e⟩ <;> rw [hfa] at hone
    · exact ih hone fun a' ha' => hacts a' (List.mem_cons_of_mem a ha')
    · exact hone

end

theorem run_eq (d : Device) (acts : List Act) : d.run acts = inTurn (fun d a => d.perform (depth a) a) d acts := rfl

theorem perform_succ (n : Nat) (d : Device) (a : Act) :
    d.perform (n + 1) a =
      match d.act a with
      | (d, .error e) => (d, some e)
      | (d, .ok next) => inTurn (perform n) d next := rfl

theorem depth_pos (a : Act) : ∃ n, depth a = n + 1 := by cases a <;> exact ⟨_, rfl⟩

/-- an act that calls for nothing and does not fail -/
theorem perform_of_ok {a : Act} (h : d.act a = (d', .ok [])) (n : Nat) : d.perform (n + 1) a = (d', none) := by
  rw [perform_succ, h]
  rfl

theorem perform_of_error {a : Act} {e : Failure} (h : d.act a = (d', .error e)) (n : Nat) :
    d.perform (n + 1) a = (d', some e) := by
  rw [perform_succ, h]

/-- what every act keeps that may be called for -/
structure Kept (P : Device → Prop) (S : Act → Prop) : Prop where
  act : ∀ d a, P d → S a → P (d.act a).1
  next : ∀ d a next, P d → S a → (d.act a).2 = .ok next → ∀ a' ∈ next, S a'

theorem perform_keeps {P : Device → Prop} {S : Act → Prop} (h : Kept P S) (n : Nat) (d : Device) (a : Act) (hd : P d)
    (ha : S a) : P (d.perform n a).1 := by
  induction n generalizing d a with
  | zero => exact hd
  | succ n ih =>
    have hact := h.act d a hd ha
    have hnext := h.next d a
    rw [perform_succ]
    rcases hda : d.act a with ⟨d', e | next⟩ <;> rw [hda] at hact hnext
    · exact hact
    · exact inTurn_keeps (fun d a => ih d a) hact (hnext next hd ha rfl)

/-- what every act keeps, a procedure keeps -/
theorem run_keeps {P : Device → Prop} {S : Act → Prop} (h : Kept P S) (hd : P d) {acts : List Act}
    (hacts : ∀ a ∈ acts, S a) : P (d.run acts).1 :=
  inTurn_keeps (fun d a => perform_keeps h (depth a) d a) hd hacts

/-- a call that starts the watch goes through all its steps -/
theorem perform_startWatch (n : Nat) (d : Device) (call : Watch.Call) :
    d.perform n (.startWatch call) = (d.setSite (d.toSite.runCall n call), none) := by
  induction n generalizing d call with
  | zero => rfl
  | succ n ih =>
    have hact : d.act (.startWatch call) =
      (d.setSite (d.stepCall call).1, .ok ((d.stepCall call).2.toList.map .startWatch)) := rfl
    rw [perform_succ, hact]
    simp only [Site.runCall]
    rcases d.stepCall call with ⟨site, _ | next⟩
    · rfl
    · show inTurn (perform n) (d.setSite site) [.startWatch next] = _
      rw [inTurn_cons, ih]
      rfl

/-! ## What acts call for -/

/-- which acts an act may call for -/
inductive Calls : Act → Act → Prop
  | send (model : DeviceModel) (supports : List Metric) : Calls .readModel (.sendMetrics model supports)
  | write (model : DeviceModel) (supports : List Metric) :
    Calls (.sendMetrics model supports) (.writeModel model supports)
  | survey (origin : Location) : Calls .readOrigin (.queryAssets origin)
  | keep (asset : Asset) (origin : Location) : Calls (.queryAssets origin) (.putNear asset origin)
  | list (origin : Location) : Calls (.queryAssets origin) .listAssets
  | inquire (assetIds : List String) : Calls .listAssets (.queryRequirements assetIds)
  | store (assetIds : List String) (q : Requirements) : Calls (.queryRequirements assetIds) (.storePending q)
  | order : Calls .checkOperating .replay
  | login (model : DeviceModel) {a : Act} (h : a ∈ loginActs model) : Calls .queryDevice a
  | watch (call next : Watch.Call) : Calls (.startWatch call) (.startWatch next)
  | close {a : Act} (h : a ∈ [.cancelRequests, .stopResumption, .stopListeners, .shutdown, .releaseAll]) : Calls .close a
  | release (sensor : Sensor) : Calls .releaseAll (.release sensor)
  | enrol (partition : Partition) (added : List Sensor) (removed : List String) :
    Calls (.enrol partition added removed) (.prepare partition added [] removed)
  | prepare (partition : Partition) (sensor : Sensor) (waiting ready ready' : List Sensor) (removed : List String) :
    Calls (.prepare partition (sensor :: waiting) ready removed) (.prepare partition waiting ready' removed)
  | place (partition : Partition) (ready : List Sensor) (removed : List String) {a : Act}
    (h : a ∈ [.place partition ready removed, .syncPool, .readModel]) : Calls (.prepare partition [] ready removed) a

theorem calls_of_mem {a a' : Act} {next : List Act} (hnext : (d.act a).2 = .ok next) (h : a' ∈ next) : Calls a a' := by
  cases a with
  | readModel =>
    simp only [act] at hnext
    split at hnext <;> cases hnext
    · cases List.mem_singleton.1 h
      exact .send _ _
    · cases h
  | sendMetrics model supports =>
    simp only [act] at hnext
    split at hnext <;> cases hnext
    · cases List.mem_singleton.1 h
      exact .write model supports
    · cases h
  | readOrigin =>
    simp only [act] at hnext
    split at hnext <;> cases hnext
    · cases List.mem_singleton.1 h
      exact .survey _
    · cases h
  | queryAssets origin =>
    simp only [act] at hnext
    split at hnext <;> cases hnext
    rcases List.mem_append.1 h with h | h
    · obtain ⟨asset, -, rfl⟩ := List.mem_map.1 h
      exact .keep asset origin
    · cases List.mem_singleton.1 h
      exact .list origin
  | listAssets =>
    cases hnext
    split_ifs at h
    · cases h
    · cases List.mem_singleton.1 h
      exact .inquire _
  | queryRequirements assetIds =>
    simp only [act] at hnext
    split at hnext <;> cases hnext
    obtain ⟨q, -, rfl⟩ := List.mem_map.1 h
    exact .store assetIds q
  | checkOperating =>
    cases hnext
    split_ifs at h
    · cases List.mem_singleton.1 h
      exact .order
    · cases h
  | queryDevice =>
    simp only [act] at hnext
    split at hnext <;> cases hnext
    · exact .login _ h
    · cases h
  | startWatch call =>
    cases hnext
    obtain ⟨call', -, rfl⟩ := List.mem_map.1 h
    exact .watch call call'
  | close =>
    simp only [act] at hnext
    split_ifs at hnext <;> cases hnext
    · cases h
    · exact .close h
  | releaseAll =>
    cases hnext
    obtain ⟨sensor, -, rfl⟩ := List.mem_map.1 h
    exact .release sensor
  | enrol partition added removed =>
    cases hnext
    split_ifs at h
    · cases h
    · cases List.mem_singleton.1 h
      exact .enrol partition added removed
  | prepare partition waiting ready removed =>
    cases waiting with
    | nil =>
      cases hnext
      exact .place partition ready removed h
    | cons sensor waiting =>
      cases hnext
      cases List.mem_singleton.1 h
      exact .prepare ..
  | process =>
    simp only [act] at hnext
    split at hnext <;> cases hnext
    cases h
  | adopt _ | checkUninitialized | transition _ _ =>
    simp only [act] at hnext
    split_ifs at hnext
    cases hnext
    cases h
  | _ =>
    cases hnext
    cases h

/-! ## What goes on besides -/

/-- the engine goes on of itself -/
inductive IsOwn : Engine.Move → Prop
  | dispatch : IsOwn .dispatch
  | endLoop : IsOwn .endLoop
  | advance (job : Nat) : IsOwn (.advance job)
  | sense (job : Nat) (events : List (Nat × Cycle.Event)) (players : List Player) (fleet : Fleet) :
    IsOwn (.sense job events players fleet)
  | wait (span : Duration) : IsOwn (.wait span)

/-- the engine makes a move, and what it delivers is taken -/
def move (d : Device) (m : Engine.Move) : Device := d.setPlanner (d.toPlanner.step (.reader m)).1

/-- Besides procedures the engine goes on of itself, a listener takes in a change, a handler looks at an event, or
something comes from outside. -/
theorem besides_cases (d : Device) (b : Besides) :
    (∃ m, IsOwn m ∧ d.besides b = d.move m) ∨ (∃ n, b = .task (.listener n)) ∨ (∃ n, b = .task (.handler n)) ∨
      (∃ event, b = .emit event) ∨ ∃ change, b = .link change := by
  cases b with
  | emit event => exact Or.inr (Or.inr (Or.inr (Or.inl ⟨event, rfl⟩)))
  | link change => exact Or.inr (Or.inr (Or.inr (Or.inr ⟨change, rfl⟩)))
  | dispatch => exact Or.inl ⟨.dispatch, .dispatch, rfl⟩
  | sense job events players fleet => exact Or.inl ⟨_, .sense job events players fleet, rfl⟩
  | wait span => exact Or.inl ⟨_, .wait span, rfl⟩
  | task t =>
    cases t with
    | listener n => exact Or.inr (Or.inl ⟨n, rfl⟩)
    | handler n => exact Or.inr (Or.inr (Or.inl ⟨n, rfl⟩))
    | driveLoop =>
      have hstep : d.besides (.task .driveLoop) = d.setEngine d.engine.stepLoop := rfl
      rw [hstep, Engine.stepLoop]
      split_ifs
      · exact Or.inl ⟨.endLoop, .endLoop, rfl⟩
      · exact Or.inl ⟨.dispatch, .dispatch, rfl⟩
    | job name =>
      refine Or.inl ⟨_, .advance name, ?_⟩
      rw [move, Planner.step_advance]
      rfl
    | player job seat =>
      obtain ⟨events, players, fleet, hplay⟩ := Engine.play_eq_sense d.engine job seat
      refine Or.inl ⟨_, .sense job events players fleet, ?_⟩
      show d.setEngine (d.engine.play job seat) = _
      rw [hplay]
      rfl

/-! ## What is left alone -/

/-- The device is where it was in its life, with the watch that it had, and events have been published or not. Closed,
it has the sensors that it had, and no subscription is new. -/
structure Spares (d d' : Device) : Prop where
  lifecycle : d'.lifecycle = d.lifecycle
  watch : d'.watch = d.watch
  bus : ∃ events, d'.bus = d.bus.emitAll events
  closed : d.lifecycle = .closed → d'.fixed = d.fixed ∧ d'.discovered = d.discovered ∧
    d'.engine.pool = d.engine.pool ∧ d'.engine.subscriptions.Sublist d.engine.subscriptions

theorem Spares.refl (d : Device) : Spares d d := ⟨rfl, rfl, ⟨[], rfl⟩, fun _ => ⟨rfl, rfl, rfl, List.Sublist.refl _⟩⟩

theorem Spares.trans {d'' : Device} (h : Spares d d') (h' : Spares d' d'') : Spares d d'' where
  lifecycle := h'.lifecycle.trans h.lifecycle
  watch := h'.watch.trans h.watch
  bus := by
    obtain ⟨events, hevents⟩ := h.bus
    obtain ⟨events', hevents'⟩ := h'.bus
    exact ⟨events ++ events', by rw [hevents', hevents, Bus.emitAll, Bus.emitAll, Bus.emitAll, List.foldl_append]⟩
  closed hclosed := by
    obtain ⟨hfixed, hdiscovered, hpool, hsublist⟩ := h.closed hclosed
    obtain ⟨hfixed', hdiscovered', hpool', hsublist'⟩ := h'.closed (h.lifecycle.trans hclosed)
    exact ⟨hfixed'.trans hfixed, hdiscovered'.trans hdiscovered, hpool'.trans hpool, hsublist'.trans hsublist⟩

/-- something becomes of the rest -/
theorem Spares.of_eq (hlifecycle : d'.lifecycle = d.lifecycle) (hwatch : d'.watch = d.watch) (hbus : d'.bus = d.bus)
    (hfixed : d'.fixed = d.fixed) (hdiscovered : d'.discovered = d.discovered)
    (hpool : d'.engine.pool = d.engine.pool) (hsubscriptions : d'.engine.subscriptions = d.engine.subscriptions) :
    Spares d d' :=
  ⟨hlifecycle, hwatch, ⟨[], hbus⟩, fun _ => ⟨hfixed, hdiscovered, hpool, hsubscriptions ▸ List.Sublist.refl _⟩⟩

/-- an open device does anything with its sensors and subscriptions -/
theorem Spares.of_open (hlifecycle : d'.lifecycle = d.lifecycle) (hwatch : d'.watch = d.watch) (hbus : d'.bus = d.bus)
    (hopen : d.lifecycle ≠ .closed) : Spares d d' :=
  ⟨hlifecycle, hwatch, ⟨[], hbus⟩, fun hclosed => absurd hclosed hopen⟩

theorem Spares.emit (d : Device) (event : DomainEvent) : Spares d { d with toSite := d.emit event } :=
  ⟨rfl, rfl, ⟨[event], rfl⟩, fun _ => ⟨rfl, rfl, rfl, List.Sublist.refl _⟩⟩

/-- an act that, in this part of life, neither begins nor ends anything -/
def IsMild (lifecycle : Lifecycle) : Act → Prop
  | .installRemoval | .startWatch _ | .transition .. | .close | .stopResumption | .stopListeners | .shutdown => False
  | .replay | .prepare .. | .place .. => lifecycle ≠ .closed
  | _ => True

theorem isMild_loginActs (lifecycle : Lifecycle) (model : DeviceModel) : ∀ a ∈ loginActs model, IsMild lifecycle a := by
  simp [loginActs, IsMild]

/-- cancelling requests raises flags -/
theorem foldl_cancelRequest_eq (p : Planner) (rs : List ReadingsRequest) :
    ∃ flags, rs.foldl Planner.cancelRequest p = { p with engine := { p.engine with flags } } := by
  induction rs generalizing p with
  | nil => exact ⟨p.engine.flags, rfl⟩
  | cons r rs ih => exact ih (p.cancelRequest r)

theorem clear_requests (p : Planner) : p.clear.requests = ∅ := by
  obtain ⟨flags, h⟩ := foldl_cancelRequest_eq { p with requests := ∅ } p.requests.values
  rw [Planner.clear, h]

theorem storePending_eq (p : Planner) (q : Requirements) :
    ∃ requests, (p.storePending q).2 = { p with requests } := by
  unfold Planner.storePending
  split_ifs
  · exact ⟨_, rfl⟩
  · exact ⟨p.requests, rfl⟩

theorem act_spares {a : Act} (ha : IsMild d.lifecycle a) : Spares d (d.act a).1 := by
  cases a with
  | adopt model =>
    simp only [act]
    split_ifs
    · exact Spares.of_eq rfl rfl rfl rfl rfl rfl rfl
    · exact Spares.refl d
  | announceLogin => exact Spares.emit d .loggedOn
  | readModel =>
    simp only [act]
    split <;> exact Spares.refl d
  | sendMetrics model supports =>
    simp only [act]
    split
    · exact Spares.of_eq rfl rfl rfl rfl rfl rfl rfl
    · exact Spares.refl d
  | readOrigin =>
    simp only [act]
    split <;> exact Spares.refl d
  | queryAssets origin =>
    simp only [act]
    split <;> exact Spares.refl d
  | queryRequirements assetIds =>
    simp only [act]
    split <;> exact Spares.refl d
  | storePending q =>
    obtain ⟨requests, h⟩ := storePending_eq d.toPlanner q
    simp only [act, h]
    exact Spares.of_eq rfl rfl rfl rfl rfl rfl rfl
  | replay => exact Spares.of_open rfl rfl rfl ha
  | queryDevice =>
    simp only [act]
    split <;> exact Spares.refl d
  | syncPool =>
    simp only [act, syncPool]
    split_ifs with hoperating
    · exact Spares.of_open rfl rfl rfl (by rw [hoperating]; decide)
    · exact Spares.refl d
  | process =>
    simp only [act, Engine.process]
    split_ifs
    · exact Spares.of_eq rfl rfl rfl rfl rfl rfl rfl
    · exact Spares.refl d
  | clearRequests =>
    obtain ⟨flags, h⟩ := foldl_cancelRequest_eq { d.toPlanner with requests := ∅ } d.requests.values
    simp only [act, Planner.clear, h]
    exact Spares.of_eq rfl rfl rfl rfl rfl rfl rfl
  | cancelRequests =>
    obtain ⟨flags, h⟩ := foldl_cancelRequest_eq d.toPlanner d.requests.values
    simp only [act, Planner.cancelAll, h]
    exact Spares.of_eq rfl rfl rfl rfl rfl rfl rfl
  | prepare partition waiting ready removed =>
    cases waiting with
    | nil => exact Spares.refl d
    | cons sensor waiting => exact Spares.of_open rfl rfl rfl ha
  | place partition added removed => cases partition <;> exact Spares.of_open rfl rfl rfl ha
  | installRemoval | startWatch _ | transition _ _ | close | stopResumption | stopListeners | shutdown => exact ha.elim
  | _ => exact Spares.of_eq rfl rfl rfl rfl rfl rfl rfl

/-- what a mild act calls for is mild -/
theorem act_isMild {a : Act} (ha : IsMild d.lifecycle a) {next : List Act} (hnext : (d.act a).2 = .ok next) :
    ∀ a' ∈ next, IsMild d.lifecycle a' := by
  cases a with
  | readModel | sendMetrics _ _ | readOrigin | queryRequirements _ | process =>
    simp only [act] at hnext
    split at hnext <;> cases hnext <;> simp [IsMild]
  | adopt model | checkUninitialized =>
    simp only [act] at hnext
    split_ifs at hnext
    cases hnext
    simp
  | queryAssets origin =>
    simp only [act] at hnext
    split at hnext <;> cases hnext
    intro a' ha'
    rcases List.mem_append.1 ha' with ha' | ha'
    · obtain ⟨asset, -, rfl⟩ := List.mem_map.1 ha'
      trivial
    · rw [List.mem_singleton.1 ha']
      trivial
  | listAssets =>
    cases hnext
    split_ifs <;> simp [IsMild]
  | checkOperating =>
    cases hnext
    split_ifs with hoperating <;> simp [IsMild, hoperating]
  | queryDevice =>
    simp only [act] at hnext
    split at hnext <;> cases hnext
    · exact isMild_loginActs _ _
    · simp
  | enrol partition added removed =>
    cases hnext
    split_ifs with hclosed <;> simp [IsMild, hclosed]
  | prepare partition waiting ready removed =>
    cases waiting <;> cases hnext <;> simpa [IsMild] using ha
  | releaseAll =>
    cases hnext
    simp [IsMild]
  | startWatch _ | transition _ _ | close => exact ha.elim
  | _ =>
    cases hnext
    simp

theorem spares_kept (d : Device) : Kept (Spares d) (IsMild d.lifecycle) where
  act _ _ h ha := h.trans (act_spares (h.lifecycle ▸ ha))
  next _ _ _ h ha hnext := h.lifecycle ▸ act_isMild (h.lifecycle ▸ ha) hnext

theorem perform_spares (n : Nat) {a : Act} (ha : IsMild d.lifecycle a) : Spares d (d.perform n a).1 :=
  perform_keeps (spares_kept d) n d a (Spares.refl d) ha

/-- a procedure of mild acts leaves alone what they leave alone -/
theorem run_spares {acts : List Act} (hacts : ∀ a ∈ acts, IsMild d.lifecycle a) : Spares d (d.run acts).1 :=
  run_keeps (spares_kept d) (Spares.refl d) hacts

/-! ## What the engine, the listeners and the procedures come to -/

/-- a job that goes on leaves the pool, the queue and the drive loop alone -/
theorem advance_frame (e : Engine) (job : Nat) :
    (e.advance job).1.pool = e.pool ∧ (e.advance job).1.queue = e.queue ∧ (e.advance job).1.loop = e.loop ∧
      (e.advance job).1.stopping = e.stopping := by
  cases hj : e.jobs.find? job with
  | none =>
    rw [Engine.advance_of_none e job hj]
    exact ⟨rfl, rfl, rfl, rfl⟩
  | some x =>
    obtain ⟨errors, cycles, h⟩ := Engine.advance_outcome e job x hj
    generalize (e.advance job).1 = e' at h ⊢
    cases h with
    | ends =>
      unfold Engine.endJob
      dsimp only
      split <;> exact ⟨rfl, rfl, rfl, rfl⟩
    | _ => exact ⟨rfl, rfl, rfl, rfl⟩

/-- the engine's own moves leave its pool alone -/
theorem own_pool {m : Engine.Move} (hm : IsOwn m) (e : Engine) : (e.move m).1.pool = e.pool := by
  cases hm with
  | dispatch =>
    show e.dispatch.pool = e.pool
    rcases Engine.dispatch_cases e with h | ⟨order, rest, -, -, ⟨h, -⟩ | ⟨period, handle, -, -, h⟩⟩ <;> rw [h]
  | endLoop =>
    simp only [Engine.move, Engine.endLoop]
    split_ifs <;> rfl
  | advance job => exact (advance_frame e job).1
  | sense job events players fleet =>
    simp only [Engine.move, Engine.sense]
    split <;> rfl
  | wait span => rfl

theorem move_spares {m : Engine.Move} (hm : IsOwn m) : Spares d (d.move m) := by
  obtain ⟨posted, postings, h⟩ := Planner.step_reader d.toPlanner m
  unfold move
  rw [h]
  exact ⟨rfl, rfl, ⟨[], rfl⟩, fun _ => ⟨rfl, rfl, own_pool hm d.engine, (Engine.move_onward d.engine m).table⟩⟩

/-- a change in the ledger leaves the watch alone -/
theorem applyChange_frame (s : Site) (topic : Topic) (event : ChangeEvent) :
    (s.applyChange topic event).watch = s.watch ∧ ∃ events, (s.applyChange topic event).bus = s.bus.emitAll events := by
  have quiet : ∀ s' : Site, s'.watch = s.watch → s'.bus = s.bus →
      s'.watch = s.watch ∧ ∃ events, s'.bus = s.bus.emitAll events := fun s' hwatch hbus => ⟨hwatch, [], hbus⟩
  cases topic with
  | assets =>
    obtain ⟨assets, h⟩ := Site.applyAsset_eq s event
    rw [show s.applyChange .assets event = _ from h]
    exact quiet _ rfl rfl
  | devices =>
    show (s.applyDevice event).watch = s.watch ∧ ∃ events, (s.applyDevice event).bus = s.bus.emitAll events
    unfold Site.applyDevice
    split
    · split
      · split_ifs
        · exact ⟨rfl, [.removed], rfl⟩
        · exact quiet s rfl rfl
      · exact quiet s rfl rfl
    all_goals
      split
      · split_ifs
        · dsimp only
          split
          · split_ifs
            · exact ⟨rfl, [.moved _ _], rfl⟩
            · exact quiet _ rfl rfl
          · exact quiet _ rfl rfl
        · exact quiet s rfl rfl
      · exact quiet s rfl rfl
  | requirements =>
    show (s.applyRequirements event).watch = s.watch ∧ ∃ events, (s.applyRequirements event).bus = s.bus.emitAll events
    rw [Site.applyRequirements_eq_ordered]
    match event.requirements? with
    | none => exact quiet s rfl rfl
    | some (id, none) => exact quiet _ rfl rfl
    | some (id, some q) =>
      unfold Site.ordered
      dsimp only
      split
      · exact ⟨rfl, [.submitted _], rfl⟩
      · exact quiet _ rfl rfl

theorem endListener_frame (s : Site) (n : Nat) :
    (∃ listeners, (s.endListener n).watch = { s.watch with listeners }) ∧ (s.endListener n).bus = s.bus := by
  unfold Site.endListener
  split
  · dsimp only
    split <;> exact ⟨⟨_, rfl⟩, rfl⟩
  · exact ⟨⟨s.watch.listeners, rfl⟩, rfl⟩

/-- of the watch a listener changes the listeners at most -/
theorem listen_frame (s : Site) (n : Nat) :
    (∃ listeners, (s.listen n).watch = { s.watch with listeners }) ∧ ∃ events, (s.listen n).bus = s.bus.emitAll events := by
  have ends : (∃ listeners, (s.endListener n).watch = { s.watch with listeners }) ∧
      ∃ events, (s.endListener n).bus = s.bus.emitAll events :=
    ⟨(endListener_frame s n).1, [], (endListener_frame s n).2⟩
  have stays : (∃ listeners, s.watch = { s.watch with listeners }) ∧ ∃ events, s.bus = s.bus.emitAll events :=
    ⟨⟨s.watch.listeners, rfl⟩, [], rfl⟩
  unfold Site.listen
  split
  · split
    · exact ⟨⟨_, rfl⟩, [], rfl⟩
    · exact ends
  · split
    · rename_i event ledger _
      obtain ⟨hwatch, hbus⟩ := applyChange_frame { s with link := { s.link with ledger } } _ event
      exact ⟨⟨s.watch.listeners, hwatch⟩, hbus⟩
    · split_ifs
      · exact ends
      · exact stays
  · exact stays

/-- the change that a listener would take in next, and its topic -/
def hears (d : Device) (n : Nat) : Option (Topic × ChangeEvent) :=
  match d.watch.listeners[n]? with
  | some ⟨topic, .listening stream⟩ => (d.link.ledger.next? stream).map fun read => (topic, read.1)
  | _ => none

/-- what a listener hears it takes in -/
theorem listen_of_hears {topic : Topic} {event : ChangeEvent} (hhears : d.hears n = some (topic, event)) :
    ∃ link, d.listen n = { d.toSite with link }.applyChange topic event := by
  unfold hears at hhears
  split at hhears
  · rename_i topic' stream hl
    obtain ⟨⟨event', ledger⟩, hnext, he⟩ := Option.map_eq_some_iff.1 hhears
    obtain ⟨rfl, rfl⟩ := Prod.mk.inj he
    refine ⟨{ d.link with ledger }, ?_⟩
    simp only [Site.listen, hl, hnext]
  · cases hhears

/-- a listener that has ended, or that there is not, does nothing -/
theorem listen_of_ended {s : Site} (h : ∀ l ∈ s.watch.listeners, l.stage = .ended) (n : Nat) : s.listen n = s := by
  unfold Site.listen
  split
  · rename_i topic hl
    cases h _ (List.mem_of_getElem? hl)
  · rename_i topic stream hl
    cases h _ (List.mem_of_getElem? hl)
  · rfl

end Device

end SensorNode
