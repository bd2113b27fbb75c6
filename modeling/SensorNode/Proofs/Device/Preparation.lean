/-
How often instruments are prepared. Of all that goes on in a device, only an act that prepares a sensor does so, and it
prepares the instrument of that sensor, once (`act_prepared`); instruments that are harvested or released keep the count.
So if the instruments are left to the device, each has in the end been prepared as many times more as a sensor of it has
been in between (`performAll_prepared`).
-/
import SensorNode.Proofs.Device.Enrolment

namespace SensorNode

theorem Instrument.init_inits (i : Instrument) : i.init.1.inits = i.inits + 1 := by
  obtain ⟨sensor, behaviour, initFails, active, harvests, finished, inits, closes⟩ := i
  cases initFails <;> cases behaviour <;> rfl

theorem Instrument.close_inits (i : Instrument) : i.close.1.inits = i.inits := by
  obtain ⟨sensor, behaviour, initFails, active, harvests, finished, inits, closes⟩ := i
  rcases behaviour with _ | ⟨scripts, _ | _⟩ <;> rfl

/-! ## What becomes of the instruments -/

namespace Fleet

variable {f f' f'' : Fleet}

/-- each instrument has been prepared once more for each of these sensors that is a sensor of it -/
def Prepared (f f' : Fleet) (sensors : List Sensor) : Prop :=
  ∀ key : Nat, (f'[key]?).map Instrument.inits =
    (f[key]?).map fun i => i.inits + sensors.countP (·.instrument = key)

theorem Prepared.of_map (h : f'.map Instrument.inits = f.map Instrument.inits) : Prepared f f' [] := fun key => by
  rw [← List.getElem?_map, h, List.getElem?_map]
  rfl

theorem Prepared.refl (f : Fleet) : Prepared f f [] := .of_map rfl

theorem Prepared.trans {sensors sensors' : List Sensor} (h : Prepared f f' sensors) (h' : Prepared f' f'' sensors') :
    Prepared f f'' (sensors ++ sensors') := fun key =>
  calc (f''[key]?).map Instrument.inits
      = ((f'[key]?).map Instrument.inits).map (· + sensors'.countP (·.instrument = key)) := by
        rw [h' key, Option.map_map]
        rfl
    _ = (f[key]?).map fun i => i.inits + (sensors ++ sensors').countP (·.instrument = key) := by
        rw [h key, Option.map_map, List.countP_append]
        simp only [Function.comp_def, Nat.add_assoc]

theorem init_prepared (f : Fleet) (s : Sensor) : Prepared f (f.init s).1 [s] := by
  intro key
  unfold init find?
  split
  · simp only [update, List.getElem?_modify]
    cases f[key]? with
    | none => rfl
    | some i => by_cases hkey : s.instrument = key <;> simp [hkey, Instrument.init_inits]
  · rename_i hnone
    by_cases hkey : s.instrument = key
    · rw [← hkey, hnone]
      rfl
    · simp [hkey]

theorem prepareAll_prepared (f : Fleet) (sensors : List Sensor) : Prepared f (f.prepareAll sensors) sensors := by
  induction sensors generalizing f with
  | nil => exact .refl f
  | cons s sensors ih => exact (init_prepared f s).trans (ih (f.init s).1)

end Fleet

/-- harvests that begin and end leave alone how often an instrument has been prepared -/
theorem Harvesting.play_inits (h : Harvesting) (now n : Nat) (fleet : Fleet) :
    (h.play now n fleet).2.map Instrument.inits = fleet.map Instrument.inits := by
  have ends : ∀ (fleet : Fleet) (s : Sensor),
      (fleet.endHarvest s).map Instrument.inits = fleet.map Instrument.inits := by
    intro fleet s
    rw [Fleet.endHarvest, Fleet.map_update]
    exact fun _ => rfl
  have begins : ∀ (fleet : Fleet) (s : Sensor),
      (fleet.beginHarvest s).1.map Instrument.inits = fleet.map Instrument.inits := by
    intro fleet s
    unfold Fleet.beginHarvest
    split
    · rw [Fleet.map_update]
      exact fun _ => rfl
    · rfl
  unfold play
  cases h.players[n]? with
  | none => rfl
  | some p =>
    obtain ⟨sensor, stage⟩ := p
    cases stage with
    | fresh =>
      dsimp only
      split_ifs
      · exact (ends _ sensor).trans (begins fleet sensor)
      · exact begins fleet sensor
      · rfl
    | _ =>
      dsimp only
      split_ifs
      · exact ends fleet sensor
      · rfl
      · rfl

theorem Engine.play_inits (e : Engine) (name n : Nat) :
    (e.play name n).fleet.map Instrument.inits = e.fleet.map Instrument.inits := by
  unfold play
  split
  · rename_i order h next hj
    exact h.play_inits e.now n e.fleet
  · rfl

/-! ## What a device does to them -/

namespace Device

/-- what an act does to the instruments -/
def tended (f : Fleet) : Act → Fleet
  | .prepare _ (sensor :: _) _ _ => (f.init sensor).1
  | .release sensor => f.close sensor
  | _ => f

theorem act_fleet (d : Device) (a : Act) : (d.act a).1.engine.fleet = tended d.engine.fleet a := by
  cases a with
  | place partition added removed => cases partition <;> rfl
  | prepare partition waiting ready removed => cases waiting <;> rfl
  | syncPool =>
    obtain ⟨pool, h⟩ := syncPool_eq d
    simp only [act, h]
    rfl
  | replay => exact (Planner.enlistAll_rebooked d.toPlanner d.requests.pending).fleet
  | storePending q =>
    obtain ⟨requests, h⟩ := storePending_eq d.toPlanner q
    simp only [act, h]
    rfl
  | clearRequests =>
    obtain ⟨flags, h⟩ := foldl_cancelRequest_eq { d.toPlanner with requests := ∅ } d.requests.values
    simp only [act, Planner.clear, h]
    rfl
  | cancelRequests =>
    obtain ⟨flags, h⟩ := foldl_cancelRequest_eq d.toPlanner d.requests.values
    simp only [act, Planner.cancelAll, h]
    rfl
  | startWatch call =>
    obtain ⟨bus, watch, h⟩ := stepCall_eq d.toSite call
    simp only [act, h]
    rfl
  | stopResumption =>
    simp only [act, stopResumption_eq]
    rfl
  | stopListeners =>
    obtain ⟨listeners, ledger, -, h⟩ := stopListeners_eq d.toSite
    simp only [act, h]
    rfl
  | process =>
    simp only [act, Engine.process]
    split_ifs <;> rfl
  | close | adopt _ | transition _ _ =>
    simp only [act]
    split_ifs <;> rfl
  | readModel | sendMetrics _ _ | readOrigin | queryAssets _ | queryRequirements _ | queryDevice =>
    simp only [act]
    split <;> rfl
  | _ => rfl

/-- the sensor that an act prepares, and whether it is ready then -/
def preparation (d : Device) : Act → Option (Sensor × Bool)
  | .prepare _ (sensor :: _) _ _ => some (sensor, d.engine.fleet.prepares sensor)
  | _ => none

theorem act_prepared (d : Device) (a : Act) :
    Fleet.Prepared d.engine.fleet (d.act a).1.engine.fleet ((preparation d a).toList.map Prod.fst) := by
  rw [act_fleet]
  cases a with
  | prepare partition waiting ready removed =>
    cases waiting with
    | nil => exact .refl _
    | cons s waiting => exact Fleet.init_prepared _ s
  | release s => exact .of_map (Fleet.map_update Instrument.close_inits _ s.instrument)
  | _ => exact .refl _

/-- an act has to do with a change of a register -/
def enrols : Act → Bool
  | .enrol .. | .prepare .. | .place .. => true
  | _ => false

/-- changes of a register are called for by changes of a register only -/
theorem enrols_of_calls {a a' : Act} (h : Calls a a') (ha : enrols a = false) : enrols a' = false := by
  cases h with
  | login model h =>
    simp only [loginActs, List.mem_cons, List.not_mem_nil, or_false] at h
    rcases h with rfl | rfl | rfl | rfl | rfl <;> rfl
  | close h =>
    simp only [List.mem_cons, List.not_mem_nil, or_false] at h
    rcases h with rfl | rfl | rfl | rfl | rfl <;> rfl
  | enrol _ _ _ | prepare _ _ _ _ _ _ | place _ _ _ _ => cases ha
  | _ => rfl

theorem preparation_of_not_enrols (d : Device) {a : Act} (ha : enrols a = false) : preparation d a = none := by
  cases a with
  | prepare _ _ _ _ => cases ha
  | _ => rfl

/-- a procedure that has nothing to do with registers prepares nothing -/
theorem run_prepared (d : Device) (acts : List Act) (h : ∀ a ∈ acts, enrols a = false) :
    Fleet.Prepared d.engine.fleet (d.run acts).1.engine.fleet [] := by
  have hkept : Kept (fun d' => Fleet.Prepared d.engine.fleet d'.engine.fleet []) (fun a => enrols a = false) := {
    act := by
      intro d' a hd' ha
      have hact := act_prepared d' a
      rw [preparation_of_not_enrols d' ha] at hact
      exact hd'.trans hact
    next := fun d' a next _ ha hnext a' ha' => enrols_of_calls (calls_of_mem hnext ha') ha }
  exact run_keeps hkept (.refl _) h

/-- the instruments come to be in whatever state -/
def Besides.replaces : Besides → Bool
  | .sense .. => true
  | _ => false

/-- besides procedures nothing is prepared -/
theorem besides_prepared (d : Device) {b : Besides} (hb : b.replaces = false) :
    Fleet.Prepared d.engine.fleet (d.besides b).engine.fleet [] := by
  have same : ∀ {d' : Device}, d'.engine.fleet = d.engine.fleet →
      Fleet.Prepared d.engine.fleet d'.engine.fleet [] := fun h => .of_map (congrArg _ h)
  have moves : ∀ op : Engine.Op, op.isSense = false → ∀ {d' : Device}, d'.engine = (d.engine.step op).1 →
      Fleet.Prepared d.engine.fleet d'.engine.fleet [] := fun op hop d' h =>
    same ((congrArg Engine.fleet h).trans ((Engine.step_settings d.engine _).2.2.2 hop))
  cases b with
  | sense => cases hb
  | dispatch => exact moves (.move .dispatch) rfl rfl
  | wait span => exact same rfl
  | emit event => exact same rfl
  | link change => exact same rfl
  | task t =>
    cases t with
    | driveLoop =>
      have hstep : (d.besides (.task .driveLoop)).engine = d.engine.stepLoop := rfl
      unfold Engine.stepLoop at hstep
      split_ifs at hstep
      · exact moves (.move .endLoop) rfl hstep
      · exact moves (.move .dispatch) rfl hstep
    | job name =>
      refine moves (.move (.advance name)) rfl ?_
      obtain ⟨posted, postings, h⟩ := Planner.step_reader d.toPlanner (.advance name)
      rw [Planner.step_advance] at h
      exact congrArg Planner.engine h
    | player job seat => exact .of_map (d.engine.play_inits job seat)
    | listener n => exact same (listen_rebooked d n).fleet
    | handler n =>
      rcases handle_cases d n with ⟨-, bus, h⟩ | ⟨-, bus, watch, h⟩
      · have hhandle : d.besides (.task (.handler n)) = ({ d with bus } : Device).reset.close := h
        rw [hhandle]
        have hreset := run_prepared { d with bus } resetActs (by decide)
        exact hreset.trans (run_prepared _ closeActs (by decide))
      · have hhandle : d.besides (.task (.handler n)) = { d with bus, watch } := h
        exact same (by rw [hhandle])

end Device

/-! ## Runs -/

namespace Agenda

open Device

variable {g : Agenda}

/-- the sensor that is prepared when something happens -/
def prepares (g : Agenda) : Op → Option (Sensor × Bool)
  | .proceed i => (g.lists[i]?.bind List.head?).bind (preparation g.device)
  | _ => none

/-- the sensors that are prepared during a run, in order, each with whether it is ready then -/
def prepared (g : Agenda) : List Op → List (Sensor × Bool)
  | [] => []
  | op :: ops => (g.prepares op).toList ++ (g.perform op).prepared ops

/-- the instruments come to be in whatever state -/
def Op.replaces : Op → Bool
  | .besides b => b.replaces
  | _ => false

theorem perform_prepared {op : Op} (hop : op.replaces = false) :
    Fleet.Prepared g.device.engine.fleet (g.perform op).device.engine.fleet ((g.prepares op).toList.map Prod.fst) := by
  cases op with
  | begin p => exact .refl _
  | besides b => exact besides_prepared g.device hop
  | proceed i =>
    cases hi : g.lists[i]? with
    | none =>
      simp only [perform, proceed, prepares, hi]
      exact .refl _
    | some acts =>
      cases acts with
      | nil =>
        simp only [perform, proceed, prepares, hi]
        exact .refl _
      | cons a rest =>
        simp only [perform, proceed, prepares, hi]
        exact act_prepared g.device a

/-- Over a run, an instrument is prepared as often as a sensor of it. -/
theorem performAll_prepared {ops : List Op} (h : ∀ op ∈ ops, op.replaces = false) :
    Fleet.Prepared g.device.engine.fleet (g.performAll ops).device.engine.fleet ((g.prepared ops).map Prod.fst) := by
  induction ops generalizing g with
  | nil => exact .refl _
  | cons op ops ih =>
    rw [prepared, List.map_append]
    exact (perform_prepared (h op List.mem_cons_self)).trans (ih fun op' hm => h op' (List.mem_cons_of_mem op hm))

end Agenda

end SensorNode
