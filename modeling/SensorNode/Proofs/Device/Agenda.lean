/-
Procedures of a device that are under way at the same time. An agenda is a device with every procedure that has begun,
each with the acts that it has still to do; any of them may do its next act, and anything else may go on in between.

- `proceed_cases`: what it comes to when a procedure does its next act.
- `act_cases`: which acts concern the requests.
- `Sound`: what holds throughout. Whoever leaves a request pending in a device that operates has the replay still to do
  (`covers`), so that when all procedures are through no request is pending (`Sound.none_pending`).
-/
import SensorNode.Proofs.Device.Procedures
import SensorNode.Proofs.Planning.Activation
import SensorNode.Proofs.Watch.Run

namespace SensorNode

/-- a device with the procedures that have begun, each with the acts that it has still to do -/
structure Agenda where
  device : Device
  lists : List (List Act)

namespace Device

variable {d : Device}

/-! ## What acts do to the requests and the engine -/

/-- the engine's own moves order nothing, and end the drive loop only when it has been told to stop -/
theorem own_orders {m : Engine.Move} (hm : IsOwn m) (e : Engine) :
    (e.move m).1.queue.length ≤ e.queue.length ∧ (e.TakesOrders → (e.move m).1.TakesOrders) := by
  cases hm with
  | dispatch =>
    show e.dispatch.queue.length ≤ e.queue.length ∧ (e.TakesOrders → e.dispatch.TakesOrders)
    rcases Engine.dispatch_cases e with h | ⟨order, rest, -, hq, ⟨h, -⟩ | ⟨period, handle, -, -, h⟩⟩ <;> rw [h]
    · exact ⟨le_rfl, id⟩
    · exact ⟨by rw [hq]; simp, fun ht => ⟨ht.isOpen, ht.stopping⟩⟩
    · exact ⟨by rw [hq]; simp, fun ht => ⟨ht.isOpen, ht.stopping⟩⟩
  | endLoop =>
    simp only [Engine.move, Engine.endLoop]
    split_ifs with hstop
    · exact ⟨Nat.zero_le _, fun ht => absurd (ht.stopping.symm.trans hstop.2) (by decide)⟩
    · exact ⟨le_rfl, id⟩
  | advance job =>
    obtain ⟨-, hqueue, hloop, hstopping⟩ := advance_frame e job
    exact ⟨le_of_eq (congrArg List.length hqueue), fun ht => ht.of_eq hloop hstopping⟩
  | sense job events players fleet =>
    simp only [Engine.move, Engine.sense]
    split <;> exact ⟨le_rfl, fun ht => ⟨ht.isOpen, ht.stopping⟩⟩
  | wait span => exact ⟨le_rfl, fun ht => ⟨ht.isOpen, ht.stopping⟩⟩

theorem move_quiet {m : Engine.Move} (hm : IsOwn m) (d : Device) : Planner.Quiet d.toPlanner (d.move m).toPlanner := by
  obtain ⟨posted, postings, h⟩ := Planner.step_reader d.toPlanner m
  have hmove : (d.move m).toPlanner = _ := h
  rw [hmove]
  obtain ⟨hqueue, hopen⟩ := own_orders hm d.engine
  exact ⟨rfl, hqueue, Engine.move_onward _ m, fun hr => Engine.move_regular hr m, hopen⟩

/-- an act stores requirements, orders what is pending, clears the requests, tells the engine to stop, or leaves the
requests alone -/
theorem act_cases (d : Device) (a : Act) :
    Planner.Quiet d.toPlanner (d.act a).1.toPlanner ∨ (∃ q, a = .storePending q) ∨ a = .replay ∨ a = .clearRequests ∨
      a = .shutdown := by
  have same : (d.act a).1.requests = d.requests → (d.act a).1.engine = d.engine →
      Planner.Quiet d.toPlanner (d.act a).1.toPlanner := Planner.Quiet.of_eq
  cases a with
  | storePending q => exact Or.inr (Or.inl ⟨q, rfl⟩)
  | replay => exact Or.inr (Or.inr (Or.inl rfl))
  | clearRequests => exact Or.inr (Or.inr (Or.inr (Or.inl rfl)))
  | shutdown => exact Or.inr (Or.inr (Or.inr (Or.inr rfl)))
  | cancelRequests => exact Or.inl (Planner.Quiet.cancelRequests d.toPlanner d.requests.values)
  | syncPool =>
    refine Or.inl ?_
    simp only [act, syncPool]
    split_ifs
    · exact Planner.Quiet.refit_sensors d.toPlanner _ _
    · exact Planner.Quiet.refl _
  | process =>
    refine Or.inl ?_
    simp only [act, Engine.process]
    split_ifs
    · exact Planner.Quiet.refit d.toPlanner _ _ fun _ => by decide
    · exact Planner.Quiet.refl _
  | release sensor => exact Or.inl (Planner.Quiet.refit_sensors d.toPlanner _ _)
  | prepare partition waiting ready removed =>
    cases waiting with
    | nil => exact Or.inl (Planner.Quiet.refl _)
    | cons sensor waiting => exact Or.inl (Planner.Quiet.refit_sensors d.toPlanner _ _)
  | place partition added removed => cases partition <;> exact Or.inl (Planner.Quiet.refl _)
  | startWatch call =>
    have hcall : (d.act (.startWatch call)).1.toPlanner = d.toPlanner := (Site.stepCall_frame d.toSite call).1
    rw [hcall]
    exact Or.inl (Planner.Quiet.refl _)
  | stopResumption => refine Or.inl (same ?_ ?_) <;> simp only [act, stopResumption_eq]
  | stopListeners =>
    obtain ⟨listeners, ledger, -, hstop⟩ := stopListeners_eq d.toSite
    refine Or.inl (same ?_ ?_) <;> simp only [act, hstop]
  | close | adopt _ | transition _ _ =>
    refine Or.inl (same ?_ ?_) <;> simp only [act] <;> split_ifs <;> rfl
  | readModel | sendMetrics _ _ | readOrigin | queryAssets _ | queryRequirements _ | queryDevice =>
    refine Or.inl (same ?_ ?_) <;> simp only [act] <;> split <;> rfl
  | _ => exact Or.inl (same rfl rfl)

theorem act_sound (h : d.toPlanner.Sound) (a : Act) : (d.act a).1.toPlanner.Sound := by
  rcases act_cases d a with hquiet | ⟨q, rfl⟩ | rfl | rfl | rfl
  · exact h.quiet hquiet
  · exact Planner.step_sound h (.storePending q)
  · exact Planner.step_sound h .replayPending
  · exact Planner.step_sound h .clear
  · exact Planner.step_sound h (.reader .shutdown)

theorem act_takesOrders (h : d.engine.TakesOrders) {a : Act} (ha : a ≠ .shutdown) : (d.act a).1.engine.TakesOrders := by
  rcases act_cases d a with hquiet | ⟨q, rfl⟩ | rfl | rfl | rfl
  · exact hquiet.takesOrders h
  · obtain ⟨requests, hstore⟩ := storePending_eq d.toPlanner q
    have hact : (d.act (.storePending q)).1.toPlanner = _ := hstore
    rw [hact]
    exact h
  · exact (Planner.enlistAll_rebooked d.toPlanner d.requests.pending).takesOrders h
  · obtain ⟨flags, hclear⟩ := foldl_cancelRequest_eq { d.toPlanner with requests := ∅ } d.requests.values
    have hact : (d.act .clearRequests).1.toPlanner = _ := hclear
    rw [hact]
    exact ⟨h.isOpen, h.stopping⟩
  · exact absurd rfl ha

/-! ## What acts do to the life of the device -/

/-- an act that does not bring a device back that is closed -/
def staysClosed : Act → Bool
  | .transition source _ => source ≠ .closed
  | _ => true

/-- only a close closes a device, and only a transition moves it on otherwise -/
theorem act_lifecycle (d : Device) (a : Act) :
    (d.act a).1.lifecycle = d.lifecycle ∨ (a = .close ∧ (d.act a).1.lifecycle = .closed) ∨
      ∃ target, a = .transition d.lifecycle target ∧ (d.act a).1.lifecycle = target := by
  cases a with
  | close =>
    by_cases hclosed : d.lifecycle = .closed
    · exact Or.inl (by simp [act, hclosed])
    · exact Or.inr (Or.inl ⟨rfl, by simp [act, hclosed]⟩)
  | transition source target =>
    by_cases hsource : d.lifecycle = source
    · subst hsource
      exact Or.inr (Or.inr ⟨target, rfl, by simp [act]⟩)
    · exact Or.inl (by simp [act, hsource])
  | adopt model =>
    simp only [act]
    split_ifs <;> exact Or.inl rfl
  | syncPool =>
    simp only [act, syncPool]
    split_ifs <;> exact Or.inl rfl
  | readModel | sendMetrics _ _ | readOrigin | queryAssets _ | queryRequirements _ | queryDevice | process =>
    simp only [act]
    split <;> exact Or.inl rfl
  | prepare partition waiting ready removed => cases waiting <;> exact Or.inl rfl
  | place partition added removed => cases partition <;> exact Or.inl rfl
  | _ => exact Or.inl rfl

theorem act_closed (h : d.lifecycle = .closed) {a : Act} (ha : staysClosed a = true) :
    (d.act a).1.lifecycle = .closed := by
  rcases act_lifecycle d a with hlife | ⟨-, hlife⟩ | ⟨target, rfl, -⟩
  · exact hlife.trans h
  · exact hlife
  · rw [h] at ha
    cases ha

/-! ## What is still to be done -/

/-- what is to be done next makes sure that pending requests are ordered, if the device operates -/
def covers : List Act → Bool
  | .checkOperating :: _ => true
  | .replay :: _ => true
  | .storePending _ :: rest => covers rest
  | .syncPool :: rest => covers rest
  | _ => false

/-- an act after which requests may be pending that nobody else takes care of -/
def needsCover : Act → Bool
  | .storePending _ | .queryRequirements _ | .listAssets | .queryAssets _ | .readOrigin => true
  | .transition _ target => target = .operating
  | _ => false

/-- whoever may leave requests pending looks at them again afterwards, and nobody brings a closed device back -/
def Fits : List Act → Prop
  | [] => True
  | a :: rest => (needsCover a = true → covers rest = true) ∧ staysClosed a = true ∧ Fits rest

/-- acts that make no difference to that -/
def IsPlain (a : Act) : Prop := needsCover a = false ∧ staysClosed a = true

theorem fits_append {acts rest : List Act} (hacts : ∀ a ∈ acts, IsPlain a) (hrest : Fits rest) : Fits (acts ++ rest) := by
  induction acts with
  | nil => exact hrest
  | cons a acts ih =>
    obtain ⟨hneeds, hstays⟩ := hacts a List.mem_cons_self
    refine ⟨fun h => absurd (hneeds.symm.trans h) (by decide), hstays, ?_⟩
    exact ih fun a' ha' => hacts a' (List.mem_cons_of_mem a ha')

/-- requirements are stored before what comes after their query -/
theorem stores_covered (qs : List Requirements) {rest : List Act} (hcovers : covers rest = true) (hrest : Fits rest) :
    covers (qs.map .storePending ++ rest) = true ∧ Fits (qs.map .storePending ++ rest) := by
  induction qs with
  | nil => exact ⟨hcovers, hrest⟩
  | cons q qs ih => exact ⟨ih.1, fun _ => ih.1, rfl, ih.2⟩

theorem fits_loginActs (model : DeviceModel) {rest : List Act} (hrest : Fits rest) : Fits (loginActs model ++ rest) := by
  simp [loginActs, Fits, needsCover, staysClosed, covers, hrest]

theorem fits_acts (p : Procedure) : Fits p.acts ∧ .shutdown ∉ p.acts := by
  cases p <;>
    simp [Procedure.acts, initActs, loginActs, operateActs, resetActs, closeActs, pushActs, Fits, needsCover, staysClosed,
      covers]

/-- what an act calls for, in front of the rest -/
theorem fits_next {a : Act} {rest : List Act} (h : Fits (a :: rest)) {next : List Act}
    (hnext : (d.act a).2 = .ok next) : Fits (next ++ rest) := by
  obtain ⟨hneeds, -, hrest⟩ := h
  have plain : (∀ a' ∈ next, IsPlain a') → Fits (next ++ rest) := fun hplain => fits_append hplain hrest
  cases a with
  | readModel | sendMetrics _ _ | process =>
    simp only [act] at hnext
    split at hnext <;> cases hnext <;> simp [Fits, needsCover, staysClosed, hrest]
  | adopt model | checkUninitialized | transition _ _ =>
    simp only [act] at hnext
    split_ifs at hnext
    cases hnext
    exact hrest
  | queryDevice =>
    simp only [act] at hnext
    split at hnext <;> cases hnext
    · exact fits_loginActs _ hrest
    · exact hrest
  | readOrigin =>
    simp only [act] at hnext
    split at hnext <;> cases hnext
    · exact ⟨fun _ => hneeds rfl, rfl, hrest⟩
    · exact hrest
  | queryAssets origin =>
    simp only [act] at hnext
    split at hnext <;> cases hnext
    rw [List.append_assoc]
    refine fits_append (fun a' ha' => ?_) ⟨fun _ => hneeds rfl, rfl, hrest⟩
    obtain ⟨asset, -, rfl⟩ := List.mem_map.1 ha'
    exact ⟨rfl, rfl⟩
  | listAssets =>
    cases hnext
    split_ifs
    · exact hrest
    · exact ⟨fun _ => hneeds rfl, rfl, hrest⟩
  | queryRequirements assetIds =>
    simp only [act] at hnext
    split at hnext <;> cases hnext
    exact (stores_covered _ (hneeds rfl) hrest).2
  | checkOperating =>
    cases hnext
    split_ifs <;> simp [Fits, needsCover, staysClosed, hrest]
  | startWatch call =>
    cases hnext
    refine plain fun a' ha' => ?_
    obtain ⟨call', -, rfl⟩ := List.mem_map.1 ha'
    exact ⟨rfl, rfl⟩
  | close =>
    simp only [act] at hnext
    split_ifs at hnext <;> cases hnext <;> simp [Fits, needsCover, staysClosed, hrest]
  | releaseAll =>
    cases hnext
    refine plain fun a' ha' => ?_
    obtain ⟨sensor, -, rfl⟩ := List.mem_map.1 ha'
    exact ⟨rfl, rfl⟩
  | enrol partition added removed =>
    cases hnext
    split_ifs <;> simp [Fits, needsCover, staysClosed, hrest]
  | prepare partition waiting ready removed =>
    cases waiting <;> cases hnext <;> simp [Fits, needsCover, staysClosed, hrest]
  | _ =>
    cases hnext
    exact hrest

/-- only a close calls for the engine to be stopped -/
theorem shutdown_next {a : Act} {next : List Act} (hnext : (d.act a).2 = .ok next) (hmem : .shutdown ∈ next) :
    (d.act a).1.lifecycle = .closed := by
  cases calls_of_mem hnext hmem with
  | close =>
    simp only [act]
    split_ifs with hclosed
    · exact hclosed
    · rfl
  | login model h => simp [loginActs] at h
  | place partition ready removed h => simp at h

/-! ## What goes on besides -/

theorem planner_kept : Kept (fun d => d.toPlanner.Sound) fun _ => True where
  act _ a h _ := act_sound h a
  next _ _ _ _ _ _ _ _ := trivial

theorem stepCall_eq (s : Site) (call : Watch.Call) : ∃ bus watch, (s.stepCall call).1 = { s with bus, watch } := by
  cases call with
  | start | recheck _ | resume =>
    simp only [Site.stepCall]
    split_ifs <;> exact ⟨_, _, rfl⟩
  | _ => exact ⟨_, _, rfl⟩

/-- calls that start the watch concern nothing but the bus and the watch -/
theorem runCall_eq (fuel : Nat) (s : Site) (call : Watch.Call) : ∃ bus watch, s.runCall fuel call = { s with bus, watch } := by
  induction fuel generalizing s call with
  | zero => exact ⟨s.bus, s.watch, rfl⟩
  | succ fuel ih =>
    obtain ⟨bus, watch, hstep⟩ := stepCall_eq s call
    simp only [Site.runCall]
    rcases hs : s.stepCall call with ⟨s', _ | next⟩ <;> rw [hs] at hstep
    · exact ⟨bus, watch, hstep⟩
    · obtain ⟨bus', watch', hrun⟩ := ih s' next
      exact ⟨bus', watch', hrun.trans (by rw [show s' = _ from hstep])⟩

/-- a handler that learns that the device has been removed resets and closes it; any other is about the watch at most -/
theorem handle_cases (d : Device) (n : Nat) :
    ((d.bus.poll n).1 = some .removed ∧ ∃ bus, d.handle n = ({ d with bus } : Device).reset.close) ∨
      (d.bus.poll n).1 ≠ some .removed ∧ ∃ bus watch, d.handle n = { d with bus, watch } := by
  unfold handle
  rcases d.bus.poll n with ⟨event, bus⟩
  match event with
  | some .removed => exact Or.inl ⟨rfl, bus, rfl⟩
  | some .loggedOn =>
    obtain ⟨bus', watch, hresume⟩ := runCall_eq 2 ({ d with bus } : Device).toSite .resume
    refine Or.inr ⟨by simp, bus', watch, ?_⟩
    exact congrArg (fun site => ({ d with toSite := site } : Device)) hresume
  | none | some (.moved ..) | some (.submitted _) => exact Or.inr ⟨by simp, bus, d.watch, rfl⟩

/-- a handler shuts the device, or touches neither its planner nor its life -/
theorem handle_planner (d : Device) (n : Nat) :
    ((d.handle n).lifecycle = .closed ∧ (d.toPlanner.Sound → (d.handle n).toPlanner.Sound)) ∨
      (d.handle n).toPlanner = d.toPlanner ∧ (d.handle n).lifecycle = d.lifecycle := by
  rcases handle_cases d n with ⟨-, bus, hd⟩ | ⟨-, bus, watch, hd⟩ <;> rw [hd]
  · refine Or.inl ⟨close_lifecycle _, fun h => ?_⟩
    have hreset : ({ d with bus } : Device).reset.toPlanner.Sound :=
      run_keeps planner_kept (d := { d with bus }) h fun _ _ => trivial
    exact run_keeps planner_kept hreset fun _ _ => trivial
  · exact Or.inr ⟨rfl, rfl⟩

/-- a listener that has nothing to take in asks for its stream or ends, if it does anything -/
theorem listen_of_deaf {n : Nat} (h : d.hears n = none) : ∃ watch link, d.listen n = { d.toSite with watch, link } := by
  have ends : ∃ watch link, d.endListener n = { d.toSite with watch, link } := by
    obtain ⟨ledger, hend⟩ := endListener_eq d.toSite n
    exact ⟨_, _, hend⟩
  unfold hears at h
  unfold Site.listen
  split
  · split
    · exact ⟨_, _, rfl⟩
    · exact ends
  · rename_i topic stream hl
    rw [hl] at h
    rw [Option.map_eq_none_iff.1 h]
    dsimp only
    split_ifs
    · exact ends
    · exact ⟨d.watch, d.link, rfl⟩
  · exact ⟨d.watch, d.link, rfl⟩

/-- what a listener does to the planner is what a change of requirements does, or it does nothing to the requests -/
theorem listen_planner (d : Device) (n : Nat) :
    Planner.Quiet d.toPlanner (d.listen n).toPlanner ∨
      ∃ event link, d.hears n = some (.requirements, event) ∧
        ((∃ id, event.requirements? = some (id, none) ∧
            (d.listen n).toPlanner = (Planner.withdraw { d.toPlanner with link } id).2) ∨
          ∃ q, event.requirements? = some (q.id, some q) ∧
            (d.listen n).toPlanner = (Planner.submit { d.toPlanner with link } q).2) := by
  have quiet : ∀ s : Site, s.requests = d.requests → s.engine = d.engine → Planner.Quiet d.toPlanner s.toPlanner :=
    fun s => Planner.Quiet.of_eq
  cases hhears : d.hears n with
  | none =>
    obtain ⟨watch, link, hlisten⟩ := listen_of_deaf hhears
    rw [hlisten]
    exact Or.inl (quiet _ rfl rfl)
  | some heard =>
    obtain ⟨topic, event⟩ := heard
    obtain ⟨link, hlisten⟩ := listen_of_hears hhears
    rw [hlisten]
    cases topic with
    | assets =>
      obtain ⟨assets, happly⟩ := Site.applyAsset_eq { d.toSite with link } event
      rw [show Site.applyChange { d.toSite with link } .assets event = _ from happly]
      exact Or.inl (quiet _ rfl rfl)
    | devices =>
      obtain ⟨identity, bus, happly⟩ := Site.applyDevice_eq { d.toSite with link } event
      rw [show Site.applyChange { d.toSite with link } .devices event = _ from happly]
      exact Or.inl (quiet _ rfl rfl)
    | requirements =>
      rw [show Site.applyChange { d.toSite with link } .requirements event = _ from
        Site.applyRequirements_eq_ordered _ event]
      match hnews : event.requirements? with
      | none => exact Or.inl (quiet _ rfl rfl)
      | some (id, none) => exact Or.inr ⟨event, link, rfl, Or.inl ⟨id, hnews, rfl⟩⟩
      | some (id, some q) =>
        obtain rfl := ChangeEvent.key_eq_of_news? hnews
        exact Or.inr ⟨event, link, rfl, Or.inr ⟨q, hnews, Site.ordered_planner { d.toSite with link } q.id q⟩⟩

/-- whatever goes on besides procedures, the planner stays in order -/
theorem besides_sound (h : d.toPlanner.Sound) (b : Besides) : (d.besides b).toPlanner.Sound := by
  have hlink : ∀ link, Planner.Sound { d.toPlanner with link } := fun _ => { h with }
  rcases besides_cases d b with ⟨m, hm, hb⟩ | ⟨n, rfl⟩ | ⟨n, rfl⟩ | ⟨event, rfl⟩ | ⟨change, rfl⟩
  · rw [hb]
    exact h.quiet (move_quiet hm d)
  · show (d.listen n).toPlanner.Sound
    rcases listen_planner d n with hquiet | ⟨event, link, -, ⟨id, -, hplanner⟩ | ⟨q, -, hplanner⟩⟩
    · exact h.quiet hquiet
    · rw [hplanner]
      exact Planner.withdraw_sound (hlink link) id
    · rw [hplanner]
      exact Planner.step_sound (hlink link) (.submit q)
  · show (d.handle n).toPlanner.Sound
    rcases handle_planner d n with ⟨-, hsound⟩ | ⟨hplanner, -⟩
    · exact hsound h
    · rw [hplanner]
      exact h
  · exact h
  · exact hlink _

/-- a request waits to be ordered -/
def HasPending (d : Device) : Prop := ∃ id r, d.requests.find? id = some r ∧ r.isPending = true

end Device

namespace Agenda

inductive Op
  | begin (p : Procedure)
  /-- a procedure does its next act -/
  | proceed (i : Nat)
  | besides (b : Device.Besides)

def new (d : Device) : Agenda := ⟨d, []⟩

/-- what is left to do after an act: what it calls for and then the rest, or nothing if it fails -/
def left (d : Device) (a : Act) (rest : List Act) : List Act :=
  match (d.act a).2 with
  | .ok next => next ++ rest
  | .error _ => []

def proceed (g : Agenda) (i : Nat) : Agenda :=
  match g.lists[i]? with
  | some (a :: rest) => ⟨(g.device.act a).1, g.lists.set i (left g.device a rest)⟩
  | _ => g

def perform (g : Agenda) : Op → Agenda
  | .begin p => { g with lists := g.lists ++ [p.acts] }
  | .proceed i => g.proceed i
  | .besides b => { g with device := g.device.besides b }

def performAll (g : Agenda) (ops : List Op) : Agenda := ops.foldl perform g

variable {g : Agenda}

theorem performAll_append (g : Agenda) (ops ops' : List Op) :
    g.performAll (ops ++ ops') = (g.performAll ops).performAll ops' := List.foldl_append

theorem proceed_cases (g : Agenda) (i : Nat) :
    g.proceed i = g ∨ ∃ a rest, g.lists[i]? = some (a :: rest) ∧
      g.proceed i = ⟨(g.device.act a).1, g.lists.set i (left g.device a rest)⟩ := by
  unfold proceed
  split
  · rename_i a rest hi
    exact Or.inr ⟨a, rest, hi, rfl⟩
  · exact Or.inl rfl

/-- the change that a listener takes in, if this is what happens -/
def heard (g : Agenda) : Op → Option (Topic × ChangeEvent)
  | .besides (.task (.listener n)) => g.device.hears n
  | _ => none

/-- a listener takes in a change of this kind -/
def hearsOf (kind : Topic × ChangeEvent → Bool) (g : Agenda) (op : Op) : Bool := (g.heard op).any kind

def ofAsset (id : String) : Topic × ChangeEvent → Bool
  | (.assets, event) => (event.assetOf id).isSome
  | _ => false

def ofRequirements (id : String) : Topic × ChangeEvent → Bool
  | (.requirements, event) => (event.requirementsOf id).isSome
  | _ => false

/-- what does not happen during a run -/
def never (what : Agenda → Op → Bool) (g : Agenda) : List Op → Bool
  | [] => true
  | op :: ops => !what g op && (g.perform op).never what ops

theorem never_cons {what : Agenda → Op → Bool} {op : Op} {ops : List Op} :
    g.never what (op :: ops) = true ↔ what g op = false ∧ (g.perform op).never what ops = true := by
  simp [never]

/-! ## What holds throughout -/

open Device

/-- whatever happens, the planner stays in order -/
theorem perform_planner (h : g.device.toPlanner.Sound) (op : Op) : (g.perform op).device.toPlanner.Sound := by
  cases op with
  | begin p => exact h
  | besides b => exact besides_sound h b
  | proceed i =>
    show (g.proceed i).device.toPlanner.Sound
    rcases proceed_cases g i with hg | ⟨a, rest, -, hg⟩ <;> rw [hg]
    · exact h
    · exact act_sound h a

theorem performAll_planner (h : g.device.toPlanner.Sound) (ops : List Op) :
    (g.performAll ops).device.toPlanner.Sound := by
  induction ops generalizing g with
  | nil => exact h
  | cons op ops ih => exact ih (perform_planner h op)

structure Sound (g : Agenda) : Prop where
  planner : g.device.toPlanner.Sound
  takesOrders : g.device.lifecycle ≠ .closed → g.device.engine.TakesOrders
  /-- the engine is stopped by a close only -/
  shuts : ∀ l ∈ g.lists, .shutdown ∈ l → g.device.lifecycle = .closed
  fits : ∀ l ∈ g.lists, Fits l
  /-- in a device that operates somebody sees to what is pending -/
  covered : g.device.lifecycle = .operating → g.device.HasPending → ∃ l ∈ g.lists, covers l = true

theorem new_sound {d : Device} (hplanner : d.toPlanner.Sound) (hopen : d.engine.TakesOrders) (hnew : d.requests = ∅) :
    Sound (new d) where
  planner := hplanner
  takesOrders _ := hopen
  shuts _ hl := absurd hl List.not_mem_nil
  fits _ hl := absurd hl List.not_mem_nil
  covered _ hpending := by
    obtain ⟨id, r, hr, -⟩ := hpending
    have hr : d.requests.find? id = some r := hr
    rw [hnew] at hr
    cases hr

theorem Sound.begin (h : Sound g) (p : Procedure) : Sound (g.perform (.begin p)) where
  planner := h.planner
  takesOrders := h.takesOrders
  shuts l hl hmem := by
    rcases List.mem_append.1 hl with hl | hl
    · exact h.shuts l hl hmem
    · rw [List.mem_singleton.1 hl] at hmem
      exact absurd hmem (fits_acts p).2
  fits l hl := by
    rcases List.mem_append.1 hl with hl | hl
    · exact h.fits l hl
    · rw [List.mem_singleton.1 hl]
      exact (fits_acts p).1
  covered hlife hpending := by
    obtain ⟨l, hl, hcovers⟩ := h.covered hlife hpending
    exact ⟨l, List.mem_append_left _ hl, hcovers⟩

/-- who covers the requests does so after its next act, unless that act has ordered them -/
theorem covers_left {d : Device} (hlife : d.lifecycle = .operating) {a : Act} {rest : List Act}
    (hcovers : covers (a :: rest) = true) (ha : a ≠ .replay) : covers (left d a rest) = true := by
  cases a with
  | checkOperating =>
    have hleft : left d .checkOperating rest = .replay :: rest := by simp [left, act, hlife]
    rw [hleft]
    rfl
  | storePending q => exact hcovers
  | syncPool => exact hcovers
  | replay => exact absurd rfl ha
  | _ => cases hcovers

section

variable {i : Nat} {a : Act} {rest : List Act}

theorem mem_lists_left (hi : g.lists[i]? = some (a :: rest)) :
    left g.device a rest ∈ g.lists.set i (left g.device a rest) := List.mem_set (List.getElem?_eq_some_iff.1 hi).1 _

/-- what one of the lists is about to do, one still is when the list `i` has become another, if that one is then -/
theorem exists_mem_set {due : List Act → Bool} {l l' : List Act} (hi : g.lists[i]? = some l)
    (hdue : ∃ l ∈ g.lists, due l = true) (hown : due l = true → due l' = true) :
    ∃ l ∈ g.lists.set i l', due l = true := by
  obtain ⟨l'', hl'', hdue⟩ := hdue
  obtain ⟨j, hj⟩ := List.mem_iff_getElem?.1 hl''
  by_cases hij : i = j
  · subst hij
    obtain rfl := Option.some.inj (hi.symm.trans hj)
    exact ⟨l', List.mem_set (List.getElem?_eq_some_iff.1 hi).1 _, hown hdue⟩
  · exact ⟨l'', List.mem_of_getElem? ((List.getElem?_set_ne hij).trans hj), hdue⟩

/-- pending requests are still seen to after an act that does not order them -/
theorem Sound.stays_covered (h : Sound g) (hi : g.lists[i]? = some (a :: rest))
    (hoperating : g.device.lifecycle = .operating) (hpending : g.device.HasPending) (ha : a ≠ .replay) :
    ∃ l ∈ g.lists.set i (left g.device a rest), covers l = true :=
  exists_mem_set hi (h.covered hoperating hpending) fun hcovers => covers_left hoperating hcovers ha

/-- requests that are pending after an act are seen to: they were pending before, or the act goes on to a replay -/
theorem Sound.covered_after (h : Sound g) (hi : g.lists[i]? = some (a :: rest))
    (hlife : (g.device.act a).1.lifecycle = .operating) (hpending : (g.device.act a).1.HasPending) :
    ∃ l ∈ g.lists.set i (left g.device a rest), covers l = true := by
  have hmem : a :: rest ∈ g.lists := List.mem_of_getElem? hi
  obtain ⟨hneeds, hstays, -⟩ := h.fits _ hmem
  have hold : g.device.lifecycle ≠ .closed := fun hold => by cases (act_closed hold hstays).symm.trans hlife
  obtain ⟨id, r, hfind, hr⟩ := hpending
  by_cases hreplay : a = .replay
  · subst hreplay
    have hordered := Planner.replay_not_pending h.planner (h.takesOrders hold).isOpen hfind
    cases hr.symm.trans hordered
  rcases act_cases g.device a with hquiet | ⟨q, rfl⟩ | rfl | rfl | rfl
  · have hbefore : g.device.HasPending := ⟨id, r, by rw [← hquiet.requests]; exact hfind, hr⟩
    rcases act_lifecycle g.device a with hsame | ⟨-, hnow⟩ | ⟨target, rfl, hnow⟩
    · exact h.stays_covered hi (hsame.symm.trans hlife) hbefore hreplay
    · cases hnow.symm.trans hlife
    · -- the device operates from now on, and what makes it do so goes on to a replay
      refine ⟨_, mem_lists_left hi, ?_⟩
      have hleft : left g.device (.transition g.device.lifecycle target) rest = rest := by simp [left, act]
      rw [hleft]
      exact hneeds (decide_eq_true (hnow.symm.trans hlife))
  · exact ⟨_, mem_lists_left hi, hneeds rfl⟩
  · exact absurd rfl hreplay
  · have hnone : (g.device.act .clearRequests).1.requests = ∅ := clear_requests g.device.toPlanner
    rw [hnone] at hfind
    cases hfind
  · exact absurd (h.shuts _ hmem List.mem_cons_self) hold

end

theorem Sound.proceed (h : Sound g) (i : Nat) : Sound (g.perform (.proceed i)) := by
  show Sound (g.proceed i)
  rcases proceed_cases g i with hg | ⟨a, rest, hi, hg⟩ <;> rw [hg]
  · exact h
  have hmem : a :: rest ∈ g.lists := List.mem_of_getElem? hi
  have hfits := h.fits _ hmem
  have hclosed : g.device.lifecycle = .closed → (g.device.act a).1.lifecycle = .closed := fun hlife =>
    act_closed hlife hfits.2.1
  refine ⟨act_sound h.planner a, fun hlife => ?_, fun l hl hshut => ?_, fun l hl => ?_, h.covered_after hi⟩
  · refine act_takesOrders (h.takesOrders fun hold => hlife (hclosed hold)) ?_
    rintro rfl
    exact hlife (hclosed (h.shuts _ hmem List.mem_cons_self))
  · rcases List.mem_or_eq_of_mem_set hl with hl | rfl
    · exact hclosed (h.shuts l hl hshut)
    · unfold left at hshut
      split at hshut
      · rename_i next hnext
        rcases List.mem_append.1 hshut with hshut | hshut
        · exact shutdown_next hnext hshut
        · exact hclosed (h.shuts _ hmem (List.mem_cons_of_mem a hshut))
      · cases hshut
  · rcases List.mem_or_eq_of_mem_set hl with hl | rfl
    · exact h.fits l hl
    · unfold left
      split
      · rename_i next hnext
        exact fits_next hfits hnext
      · trivial

/-- the device stays where it is in its life, its planner stays in order, and no request is pending that was not -/
theorem Sound.of_planner (h : Sound g) {d : Device} (hlife : d.lifecycle = g.device.lifecycle)
    (hplanner : d.toPlanner.Sound) (hopen : g.device.engine.TakesOrders → d.engine.TakesOrders)
    (hpending : g.device.engine.TakesOrders → d.HasPending → g.device.HasPending) : Sound { g with device := d } where
  planner := hplanner
  takesOrders hnot := hopen (h.takesOrders fun hclosed => hnot (hlife.trans hclosed))
  shuts l hl hmem := hlife.trans (h.shuts l hl hmem)
  fits := h.fits
  covered hoperating hnow := by
    have hoperating : g.device.lifecycle = .operating := hlife.symm.trans hoperating
    exact h.covered hoperating (hpending (h.takesOrders (by rw [hoperating]; decide)) hnow)

theorem Sound.quiet (h : Sound g) {d : Device} (hquiet : Planner.Quiet g.device.toPlanner d.toPlanner)
    (hlife : d.lifecycle = g.device.lifecycle) : Sound { g with device := d } := by
  refine h.of_planner hlife (h.planner.quiet hquiet) hquiet.takesOrders fun _ hpending => ?_
  obtain ⟨id, r, hfind, hr⟩ := hpending
  exact ⟨id, r, by rw [← hquiet.requests]; exact hfind, hr⟩

theorem Sound.listen (h : Sound g) (n : Nat) : Sound (g.perform (.besides (.task (.listener n)))) := by
  have hplanner : (g.device.setSite (g.device.listen n)).toPlanner.Sound :=
    besides_sound h.planner (.task (.listener n))
  rcases listen_planner g.device n with hquiet | ⟨event, link, -, ⟨id, -, hnow⟩ | ⟨q, -, hnow⟩⟩
  · exact h.quiet (d := g.device.setSite (g.device.listen n)) hquiet rfl
  · have hnow : (g.device.setSite (g.device.listen n)).toPlanner = _ := hnow
    refine h.of_planner (d := g.device.setSite (g.device.listen n)) rfl hplanner (fun ht => ?_) fun _ hpending => ?_
    · rw [hnow]
      exact (Planner.withdraw_rebooked { g.device.toPlanner with link } id).takesOrders ht
    · obtain ⟨id', r, hfind, hr⟩ := hpending
      rw [hnow, Planner.withdraw_find?] at hfind
      split_ifs at hfind
      exact ⟨id', r, hfind, hr⟩
  · have hnow : (g.device.setSite (g.device.listen n)).toPlanner = _ := hnow
    refine h.of_planner (d := g.device.setSite (g.device.listen n)) rfl hplanner (fun ht => ?_) fun ht hpending => ?_
    · rw [hnow]
      exact (Planner.submit_rebooked { g.device.toPlanner with link } q).takesOrders ht
    · obtain ⟨id', r, hfind, hr⟩ := hpending
      rw [hnow] at hfind
      exact ⟨id', r, Planner.find?_of_submit_pending (p := { g.device.toPlanner with link }) ht.isOpen hfind hr, hr⟩

theorem perform_sound (h : Sound g) (op : Op) : Sound (g.perform op) := by
  cases op with
  | begin p => exact h.begin p
  | proceed i => exact h.proceed i
  | besides b =>
    rcases besides_cases g.device b with ⟨m, hm, hb⟩ | ⟨n, rfl⟩ | ⟨n, rfl⟩ | ⟨event, rfl⟩ | ⟨change, rfl⟩
    · show Sound { g with device := g.device.besides b }
      rw [hb]
      exact h.quiet (move_quiet hm g.device) (move_spares hm).lifecycle
    · exact h.listen n
    · show Sound { g with device := g.device.handle n }
      rcases handle_planner g.device n with ⟨hclosed, hsound⟩ | ⟨hplanner, hlife⟩
      · exact {
          planner := hsound h.planner
          takesOrders := fun hopen => absurd hclosed hopen
          shuts := fun _ _ _ => hclosed
          fits := h.fits
          covered := fun hoperating => by cases hclosed.symm.trans hoperating }
      · exact h.quiet (hplanner ▸ Planner.Quiet.refl _) hlife
    · exact h.quiet (d := { g.device with toSite := g.device.emit event }) (Planner.Quiet.refl _) rfl
    · exact h.quiet (d := { g.device with link := change g.device.link }) (Planner.Quiet.of_eq rfl rfl) rfl

theorem performAll_sound (h : Sound g) (ops : List Op) : Sound (g.performAll ops) := by
  induction ops generalizing g with
  | nil => exact h
  | cons op ops ih => exact ih (perform_sound h op)

/-- When all procedures that have begun are through, no request is pending in a device that operates. -/
theorem Sound.none_pending (h : Sound g) (hthrough : ∀ l ∈ g.lists, l = []) (hlife : g.device.lifecycle = .operating) :
    ¬g.device.HasPending := by
  intro hpending
  obtain ⟨l, hl, hcovers⟩ := h.covered hlife hpending
  rw [hthrough l hl] at hcovers
  cases hcovers

end Agenda

end SensorNode
