/-
The sensors in use and the pool that the engine harvests. Both registers of a device hold every sensor under its own id,
so that no two sensors in use share an id and a fixed one hides a discovered one (`supportedSensors_find?`). The pool is
rebuilt from the registers while the device operates.

A register call prepares its sensors, changes a register and rebuilds the pool, in acts between which other calls do
theirs, and so does the start of operations. Who changes a register, or makes the device operate, has the rebuild to do
next (`Followed`). So in a device that operates the pool is in step with the registers, unless somebody is just about to
rebuild it (`InStep.pool`).
-/
import SensorNode.Proofs.Device.Agenda

namespace SensorNode

/-! ## Registers -/

namespace Register

variable {r : Register} {sensors : List Sensor}

theorem addAll_isBy (h : r.IsBy Sensor.id) (sensors : List Sensor) : (r.addAll sensors).IsBy Sensor.id := by
  induction sensors generalizing r with
  | nil => exact h
  | cons s sensors ih => exact ih (h.insert s)

theorem eraseAll_isBy (h : r.IsBy Sensor.id) (ids : List String) : (ids.foldl Keyed.erase r).IsBy Sensor.id := by
  induction ids generalizing r with
  | nil => exact h
  | cons id ids ih => exact ih (h.erase id)

/-- sensors with the ids that they are registered under -/
def entriesOf (sensors : List Sensor) : List (String × Sensor) := sensors.map fun s => (s.id, s)

theorem entriesOf_keys (sensors : List Sensor) : (entriesOf sensors).map Prod.fst = sensors.map Sensor.id := by
  unfold entriesOf
  rw [List.map_map]
  rfl

theorem entriesOf_find? (sensors : List Sensor) (id : String) :
    ((entriesOf sensors).find? fun e => e.1 = id).map Prod.snd = sensors.find? fun s => s.id = id := by
  unfold entriesOf
  rw [List.find?_map, Option.map_map]
  exact Option.map_id'

theorem entries_eq (h : r.IsBy Sensor.id) : r.entries = entriesOf r.values := by
  unfold entriesOf Keyed.values
  rw [List.map_map]
  refine (List.map_id' r.entries).symm.trans (List.map_congr_left fun e he => ?_)
  exact Prod.ext (h e.1 e.2 ((r.mem_entries_iff e.1 e.2).1 he)).symm rfl

theorem ids_eq (h : r.IsBy Sensor.id) : r.values.map Sensor.id = r.keys := by
  rw [← entriesOf_keys, ← entries_eq h]
  rfl

theorem values_find? (h : r.IsBy Sensor.id) (id : String) : (r.values.find? fun s => s.id = id) = r.find? id := by
  rw [← entriesOf_find?, ← entries_eq h]
  rfl

/-- sensors with ids of their own come behind those that are there -/
theorem addAll_entries (hkeys : (r.keys ++ sensors.map Sensor.id).Nodup) :
    (r.addAll sensors).entries = r.entries ++ entriesOf sensors := by
  induction sensors generalizing r with
  | nil => exact (List.append_nil _).symm
  | cons s sensors ih =>
    have hnew : s.id ∉ r.keys := fun hs =>
      (List.nodup_append.1 hkeys).2.2 s.id hs s.id List.mem_cons_self rfl
    have hkeys' : ((r.add s).keys ++ sensors.map Sensor.id).Nodup := by
      rw [add, Keyed.keys_insert, if_neg hnew, List.append_assoc]
      exact hkeys
    calc ((r.add s).addAll sensors).entries = (r.add s).entries ++ entriesOf sensors := ih hkeys'
      _ = r.entries ++ entriesOf (s :: sensors) := by
        rw [add, Keyed.entries_insert_of_not_mem r hnew, List.append_assoc]
        rfl

theorem ofSensors_entries (h : (sensors.map Sensor.id).Nodup) : (ofSensors sensors).entries = entriesOf sensors :=
  addAll_entries h

theorem ofSensors_find? (h : (sensors.map Sensor.id).Nodup) (id : String) :
    (ofSensors sensors).find? id = sensors.find? fun s => s.id = id := by
  rw [← entriesOf_find?, ← ofSensors_entries h]
  rfl

theorem ofSensors_values (h : (sensors.map Sensor.id).Nodup) : (ofSensors sensors).values = sensors := by
  rw [Keyed.values, ofSensors_entries h, entriesOf, List.map_map]
  exact List.map_id' sensors

end Register

namespace Device

variable {d d' : Device}

/-! ## Sensors in use -/

theorem supportedSensors_nodup (hfixed : d.fixed.IsBy Sensor.id) (hdiscovered : d.discovered.IsBy Sensor.id) :
    (d.supportedSensors.map Sensor.id).Nodup := by
  have hkept : ((d.discovered.values.filter fun s => !d.fixed.contains s.id).map Sensor.id).Nodup := by
    have hall : (d.discovered.values.map Sensor.id).Nodup := Register.ids_eq hdiscovered ▸ d.discovered.distinct
    exact hall.sublist (List.filter_sublist.map _)
  unfold supportedSensors
  rw [List.map_append, List.nodup_append, Register.ids_eq hfixed]
  refine ⟨d.fixed.distinct, hkept, ?_⟩
  rintro id hid _ hid' rfl
  obtain ⟨s, hs, rfl⟩ := List.mem_map.1 hid'
  have hhidden := (List.mem_filter.1 hs).2
  rw [(d.fixed.contains_iff s.id).2 hid] at hhidden
  cases hhidden

/-- under an id there is the fixed sensor, or else the discovered one -/
theorem supportedSensors_find? (hfixed : d.fixed.IsBy Sensor.id) (hdiscovered : d.discovered.IsBy Sensor.id) (id : String) :
    (d.supportedSensors.find? fun s => s.id = id) = (d.fixed.find? id).or (d.discovered.find? id) := by
  unfold supportedSensors
  rw [List.find?_append, Register.values_find? hfixed, List.find?_filter]
  cases hf : d.fixed.find? id with
  | some s => rfl
  | none =>
    have hshown : d.fixed.contains id = false := by
      rw [Keyed.contains, hf]
      rfl
    rw [Option.none_or, Option.none_or, ← Register.values_find? hdiscovered]
    congr 1
    funext s
    by_cases hs : s.id = id
    · rw [hs, hshown]
      simp
    · simp [hs]

/-! ## What acts do to the sensors -/

/-- the registers and the pool are as they were -/
structure SameSensors (d d' : Device) : Prop where
  fixed : d'.fixed = d.fixed
  discovered : d'.discovered = d.discovered
  pool : d'.engine.pool = d.engine.pool

theorem SameSensors.supportedSensors (h : SameSensors d d') : d'.supportedSensors = d.supportedSensors := by
  unfold Device.supportedSensors
  rw [h.fixed, h.discovered]

/-- only placing sensors changes a register, and only a rebuild changes the pool -/
theorem act_sensors (d : Device) (a : Act) :
    SameSensors d (d.act a).1 ∨ (∃ partition added removed, a = .place partition added removed) ∨ a = .syncPool := by
  cases a with
  | place partition added removed => exact Or.inr (Or.inl ⟨partition, added, removed, rfl⟩)
  | syncPool => exact Or.inr (Or.inr rfl)
  | replay => exact Or.inl ⟨rfl, rfl, (Planner.enlistAll_rebooked d.toPlanner d.requests.pending).pool⟩
  | storePending q =>
    obtain ⟨requests, h⟩ := storePending_eq d.toPlanner q
    simp only [act, h]
    exact Or.inl ⟨rfl, rfl, rfl⟩
  | clearRequests =>
    obtain ⟨flags, h⟩ := foldl_cancelRequest_eq { d.toPlanner with requests := ∅ } d.requests.values
    simp only [act, Planner.clear, h]
    exact Or.inl ⟨rfl, rfl, rfl⟩
  | cancelRequests =>
    obtain ⟨flags, h⟩ := foldl_cancelRequest_eq d.toPlanner d.requests.values
    simp only [act, Planner.cancelAll, h]
    exact Or.inl ⟨rfl, rfl, rfl⟩
  | startWatch call =>
    obtain ⟨bus, watch, h⟩ := stepCall_eq d.toSite call
    simp only [act, h]
    exact Or.inl ⟨rfl, rfl, rfl⟩
  | stopResumption =>
    simp only [act, stopResumption_eq]
    exact Or.inl ⟨rfl, rfl, rfl⟩
  | stopListeners =>
    obtain ⟨listeners, ledger, -, h⟩ := stopListeners_eq d.toSite
    simp only [act, h]
    exact Or.inl ⟨rfl, rfl, rfl⟩
  | process =>
    simp only [act, Engine.process]
    split_ifs <;> exact Or.inl ⟨rfl, rfl, rfl⟩
  | prepare partition waiting ready removed => cases waiting <;> exact Or.inl ⟨rfl, rfl, rfl⟩
  | close | adopt _ | transition _ _ =>
    simp only [act]
    split_ifs <;> exact Or.inl ⟨rfl, rfl, rfl⟩
  | readModel | sendMetrics _ _ | readOrigin | queryAssets _ | queryRequirements _ | queryDevice =>
    simp only [act]
    split <;> exact Or.inl ⟨rfl, rfl, rfl⟩
  | _ => exact Or.inl ⟨rfl, rfl, rfl⟩

theorem place_isBy (hfixed : d.fixed.IsBy Sensor.id) (hdiscovered : d.discovered.IsBy Sensor.id) (partition : Partition)
    (added : List Sensor) (removed : List String) :
    (d.place partition added removed).fixed.IsBy Sensor.id ∧ (d.place partition added removed).discovered.IsBy Sensor.id := by
  cases partition with
  | fixed => exact ⟨Register.addAll_isBy (Register.eraseAll_isBy hfixed removed) added, hdiscovered⟩
  | discovered => exact ⟨hfixed, Register.addAll_isBy (Register.eraseAll_isBy hdiscovered removed) added⟩

theorem act_isBy (hfixed : d.fixed.IsBy Sensor.id) (hdiscovered : d.discovered.IsBy Sensor.id) (a : Act) :
    (d.act a).1.fixed.IsBy Sensor.id ∧ (d.act a).1.discovered.IsBy Sensor.id := by
  rcases act_sensors d a with hsame | ⟨partition, added, removed, rfl⟩ | rfl
  · rw [hsame.fixed, hsame.discovered]
    exact ⟨hfixed, hdiscovered⟩
  · exact place_isBy hfixed hdiscovered partition added removed
  · simp only [act, syncPool]
    split_ifs <;> exact ⟨hfixed, hdiscovered⟩

/-- a listener places and cancels orders at most -/
theorem listen_rebooked (d : Device) (n : Nat) : d.engine.Rebooked (d.listen n).engine := by
  rcases hhears : d.hears n with _ | ⟨topic, event⟩
  · obtain ⟨watch, link, hlisten⟩ := listen_of_deaf hhears
    rw [hlisten]
    exact .refl _
  obtain ⟨link, hlisten⟩ := listen_of_hears hhears
  rw [hlisten]
  cases topic with
  | assets =>
    obtain ⟨assets, happly⟩ := Site.applyAsset_eq { d.toSite with link } event
    rw [show Site.applyChange { d.toSite with link } .assets event = _ from happly]
    exact .refl _
  | devices =>
    obtain ⟨identity, bus, happly⟩ := Site.applyDevice_eq { d.toSite with link } event
    rw [show Site.applyChange { d.toSite with link } .devices event = _ from happly]
    exact .refl _
  | requirements => exact Site.applyRequirements_rebooked { d.toSite with link } event

/-- besides procedures nobody touches a register, nor the pool unless the device is shut -/
theorem besides_sensors (d : Device) (b : Besides) :
    ((d.besides b).fixed = d.fixed ∧ (d.besides b).discovered = d.discovered) ∧
      ((d.besides b).lifecycle = .closed ∨ (d.besides b).lifecycle = d.lifecycle ∧ SameSensors d (d.besides b)) := by
  have same : (d.besides b).lifecycle = d.lifecycle → SameSensors d (d.besides b) →
      ((d.besides b).fixed = d.fixed ∧ (d.besides b).discovered = d.discovered) ∧
        ((d.besides b).lifecycle = .closed ∨ (d.besides b).lifecycle = d.lifecycle ∧ SameSensors d (d.besides b)) :=
    fun hlife hsame => ⟨⟨hsame.fixed, hsame.discovered⟩, Or.inr ⟨hlife, hsame⟩⟩
  rcases besides_cases d b with ⟨m, hm, hb⟩ | ⟨n, rfl⟩ | ⟨n, rfl⟩ | ⟨event, rfl⟩ | ⟨change, rfl⟩
  · obtain ⟨posted, postings, hstep⟩ := Planner.step_reader d.toPlanner m
    have hmove : d.move m = d.setPlanner _ := congrArg d.setPlanner hstep
    apply same <;> rw [hb, hmove]
    · rfl
    · exact ⟨rfl, rfl, own_pool hm d.engine⟩
  · exact same rfl ⟨rfl, rfl, (listen_rebooked d n).pool⟩
  · rcases handle_cases d n with ⟨-, bus, hd⟩ | ⟨-, bus, watch, hd⟩
    · have hhandle : d.besides (.task (.handler n)) = ({ d with bus } : Device).reset.close := hd
      rw [hhandle]
      refine ⟨?_, Or.inl (close_lifecycle _)⟩
      exact (close_kept _).2.2.2
    · have hhandle : d.besides (.task (.handler n)) = { d with bus, watch } := hd
      apply same <;> rw [hhandle]
      exact ⟨rfl, rfl, rfl⟩
  · exact same rfl ⟨rfl, rfl, rfl⟩
  · exact same rfl ⟨rfl, rfl, rfl⟩

end Device

namespace Agenda

open Device

variable {g : Agenda}

/-! ## Rebuilds that are due -/

/-- an act after which the pool may be out of step -/
def unsettles : Act → Bool
  | .place .. => true
  | .transition _ target => target = .operating
  | _ => false

/-- a rebuild is what comes next -/
def rebuilds : List Act → Bool
  | .syncPool :: _ => true
  | _ => false

/-- whatever may leave the pool out of step is followed by a rebuild -/
def Followed : List Act → Prop
  | [] => True
  | a :: rest => (unsettles a = true → rebuilds rest = true) ∧ Followed rest

theorem followed_append {acts rest : List Act} (hacts : ∀ a ∈ acts, unsettles a = false) (hrest : Followed rest) :
    Followed (acts ++ rest) := by
  induction acts with
  | nil => exact hrest
  | cons a acts ih =>
    refine ⟨fun h => absurd ((hacts a List.mem_cons_self).symm.trans h) (by decide), ?_⟩
    exact ih fun a' ha' => hacts a' (List.mem_cons_of_mem a ha')

theorem followed_acts (p : Procedure) : Followed p.acts := by
  cases p <;>
    simp [Procedure.acts, initActs, loginActs, operateActs, resetActs, closeActs, pushActs, Followed, unsettles, rebuilds]

/-- sensors are placed only when a rebuild comes after that -/
theorem followed_left {a : Act} {rest : List Act} (d : Device) (h : Followed rest) : Followed (left d a rest) := by
  unfold left
  split
  · rename_i next hnext
    by_cases hplain : ∀ a' ∈ next, unsettles a' = false
    · exact followed_append hplain h
    · push Not at hplain
      obtain ⟨a', ha', hunsettles⟩ := hplain
      cases calls_of_mem hnext ha' with
      | place partition ready removed _ =>
        cases hnext
        have hlast : ∀ a ∈ [Act.syncPool, .readModel], unsettles a = false := by decide
        exact ⟨fun _ => rfl, followed_append hlast h⟩
      | login model h =>
        simp only [loginActs, List.mem_cons, List.not_mem_nil, or_false] at h
        rcases h with rfl | rfl | rfl | rfl | rfl <;> exact absurd rfl hunsettles
      | close h =>
        simp only [List.mem_cons, List.not_mem_nil, or_false] at h
        rcases h with rfl | rfl | rfl | rfl | rfl <;> exact absurd rfl hunsettles
      | _ => exact absurd rfl hunsettles
  · trivial

/-- the pool holds the sensors in use -/
def Settled (d : Device) : Prop := d.engine.pool = .ofSensors d.supportedSensors

structure InStep (g : Agenda) : Prop where
  fixed : g.device.fixed.IsBy Sensor.id
  discovered : g.device.discovered.IsBy Sensor.id
  followed : ∀ l ∈ g.lists, Followed l
  /-- if the pool of a device that operates is out of step, somebody is about to rebuild it -/
  pool : g.device.lifecycle = .operating → Settled g.device ∨ ∃ l ∈ g.lists, rebuilds l = true

theorem new_inStep (id : String) (harvestTimeout scanTimeout : Duration) (policy : Reduction) (threshold : Float) :
    InStep (new (Device.new id harvestTimeout scanTimeout policy threshold)) where
  fixed := Keyed.isBy_empty
  discovered := Keyed.isBy_empty
  followed l hl := absurd hl List.not_mem_nil
  pool hlife := by cases hlife

/-- something happens that changes neither the registers nor the pool, and does not make the device operate -/
theorem InStep.of_same (h : InStep g) {d : Device} (hlife : d.lifecycle = .operating → g.device.lifecycle = .operating)
    (hsame : SameSensors g.device d) : InStep { g with device := d } where
  fixed := by rw [hsame.fixed]; exact h.fixed
  discovered := by rw [hsame.discovered]; exact h.discovered
  followed := h.followed
  pool hnow := by
    apply (h.pool (hlife hnow)).imp_left
    intro hsettled
    exact hsame.pool.trans (hsettled.trans (by rw [hsame.supportedSensors]))

theorem InStep.begin (h : InStep g) (p : Procedure) : InStep (g.perform (.begin p)) where
  fixed := h.fixed
  discovered := h.discovered
  followed l hl := by
    rcases List.mem_append.1 hl with hl | hl
    · exact h.followed l hl
    · rw [List.mem_singleton.1 hl]
      exact followed_acts p
  pool hlife := by
    apply (h.pool hlife).imp_right
    rintro ⟨l, hl, hrebuilds⟩
    exact ⟨l, List.mem_append_left _ hl, hrebuilds⟩

/-- a rebuild of a device that operates -/
theorem settled_of_syncPool {d : Device} (hlife : (d.act .syncPool).1.lifecycle = .operating) :
    Settled (d.act .syncPool).1 := by
  have hoperating : d.lifecycle = .operating := by
    simp only [act, syncPool] at hlife
    split_ifs at hlife with hoperating
    · exact hoperating
    · exact hlife
  simp only [act, syncPool, if_pos hoperating]
  rfl

/-- who is about to rebuild the pool, and does something else, still is -/
theorem rebuilds_left {d : Device} {a : Act} {rest : List Act} (ha : a ≠ .syncPool)
    (hrebuilds : rebuilds (a :: rest) = true) : rebuilds (left d a rest) = true := by
  cases a with
  | syncPool => exact absurd rfl ha
  | _ => cases hrebuilds

/-- After an act the pool is in step, or a rebuild is due: this act was the rebuild, or goes on to one, or changed
nothing. -/
theorem InStep.pool_after (h : InStep g) {i : Nat} {a : Act} {rest : List Act} (hi : g.lists[i]? = some (a :: rest))
    (hlife : (g.device.act a).1.lifecycle = .operating) :
    Settled (g.device.act a).1 ∨ ∃ l ∈ g.lists.set i (left g.device a rest), rebuilds l = true := by
  by_cases ha : a = .syncPool
  · subst ha
    exact Or.inl (settled_of_syncPool hlife)
  have hfollowed : unsettles a = true → rebuilds rest = true := (h.followed _ (List.mem_of_getElem? hi)).1
  have next : unsettles a = true → left g.device a rest = rest →
      ∃ l ∈ g.lists.set i (left g.device a rest), rebuilds l = true := fun hunsettles hleft =>
    ⟨_, mem_lists_left hi, by rw [hleft]; exact hfollowed hunsettles⟩
  rcases act_sensors g.device a with hsame | ⟨partition, added, removed, rfl⟩ | hsync
  · rcases act_lifecycle g.device a with hstays | ⟨-, hclosed⟩ | ⟨target, rfl, htarget⟩
    · rcases h.pool (hstays.symm.trans hlife) with hsettled | hdue
      · exact Or.inl (hsame.pool.trans (hsettled.trans (by rw [hsame.supportedSensors])))
      · exact Or.inr (exists_mem_set hi hdue (rebuilds_left ha))
    · cases hclosed.symm.trans hlife
    · exact Or.inr (next (decide_eq_true (htarget.symm.trans hlife)) (by simp [left, act]))
  · exact Or.inr (next rfl rfl)
  · exact absurd hsync ha

theorem InStep.proceed (h : InStep g) (i : Nat) : InStep (g.perform (.proceed i)) := by
  show InStep (g.proceed i)
  rcases proceed_cases g i with hg | ⟨a, rest, hi, hg⟩ <;> rw [hg]
  · exact h
  · obtain ⟨hfixed, hdiscovered⟩ := act_isBy h.fixed h.discovered a
    refine ⟨hfixed, hdiscovered, ?_, h.pool_after hi⟩
    intro l hl
    rcases List.mem_or_eq_of_mem_set hl with hl | rfl
    · exact h.followed l hl
    · exact followed_left g.device (h.followed _ (List.mem_of_getElem? hi)).2

theorem perform_inStep (h : InStep g) (op : Op) : InStep (g.perform op) := by
  cases op with
  | begin p => exact h.begin p
  | proceed i => exact h.proceed i
  | besides b =>
    show InStep { g with device := g.device.besides b }
    obtain ⟨⟨hfixed, hdiscovered⟩, hclosed | ⟨hlife, hsame⟩⟩ := besides_sensors g.device b
    · exact {
        fixed := by rw [hfixed]; exact h.fixed
        discovered := by rw [hdiscovered]; exact h.discovered
        followed := h.followed
        pool := fun hoperating => by cases hclosed.symm.trans hoperating }
    · exact h.of_same (fun hnow => hlife.symm.trans hnow) hsame

theorem performAll_inStep (h : InStep g) (ops : List Op) : InStep (g.performAll ops) := by
  induction ops generalizing g with
  | nil => exact h
  | cons op ops ih => exact ih (perform_inStep h op)

/-! ## The pool once all are through -/

/-- **The pool holds the sensors in use.** Let procedures begin and do their acts in any order, with anything else in
between. Then no two sensors in use ever share an id, and under an id there is the fixed sensor, or else the discovered
one. Whenever all procedures are through and the device operates, the same holds of the engine's pool, and the engine
supports the metrics that the device supports. -/
theorem pool_in_step (id : String) (harvestTimeout scanTimeout : Duration) (policy : Reduction) (threshold : Float)
    (ops : List Op) :
    let g := (new (Device.new id harvestTimeout scanTimeout policy threshold)).performAll ops
    let inUse (id : String) := (g.device.fixed.find? id).or (g.device.discovered.find? id)
    ((g.device.supportedSensors.map Sensor.id).Nodup ∧
        ∀ id, (g.device.supportedSensors.find? fun s => s.id = id) = inUse id) ∧
      ((∀ acts ∈ g.lists, acts = []) → g.device.lifecycle = .operating →
        (∀ id, g.device.engine.pool.find? id = inUse id) ∧
          g.device.engine.pool.supportedMetrics = g.device.supportedMetrics) := by
  intro g inUse
  have h : InStep g := performAll_inStep (new_inStep id harvestTimeout scanTimeout policy threshold) ops
  have hnodup := supportedSensors_nodup h.fixed h.discovered
  have hfind := supportedSensors_find? h.fixed h.discovered
  refine ⟨⟨hnodup, hfind⟩, fun hthrough hlife => ?_⟩
  have hsettled : Settled g.device := by
    apply (h.pool hlife).resolve_right
    rintro ⟨acts, hacts, hrebuilds⟩
    rw [hthrough acts hacts] at hrebuilds
    cases hrebuilds
  unfold Settled at hsettled
  refine ⟨fun id => ?_, ?_⟩
  · calc g.device.engine.pool.find? id = (Register.ofSensors g.device.supportedSensors).find? id := by rw [hsettled]
      _ = g.device.supportedSensors.find? fun s => s.id = id := Register.ofSensors_find? hnodup id
      _ = inUse id := hfind id
  · unfold Register.supportedMetrics Device.supportedMetrics
    rw [hsettled, Register.ofSensors_values hnodup]

/-- A scan has found two probes when the device is initialized. Their register is changed and they are to go into the
pool, but the device does not operate yet. It does from now on, and a fixed probe takes the id of one that was found.
-/
def shadowed : List Op :=
  let found : List Sensor := [⟨0, "probe", [.humidity]⟩, ⟨1, "spare", [.temperature]⟩]
  let instruments : Fleet := [.scripted ⟨0, "probe", [.humidity]⟩ [] false false true,
    .scripted ⟨1, "spare", [.temperature]⟩ [] false false true, .scripted ⟨2, "probe", [.current]⟩ [] false false true]
  [.besides (.sense 0 [] [] instruments), .begin .init] ++ List.replicate 8 (.proceed 0) ++
    [.begin (.enrol .discovered found []), .begin .operate, .begin (.enrol .fixed [⟨2, "probe", [.current]⟩] [])] ++
    ([1, 1, 1, 1, 1, 1, 2, 3, 3, 3, 2, 3, 3, 2, 2, 3, 1].map .proceed)

theorem pool_in_step_shadowed :
    let g := (new (Device.new "dev-1" ⟨500⟩ ⟨1000⟩ .mean 10.0)).performAll shadowed
    (∀ acts ∈ g.lists, acts = []) ∧ g.device.lifecycle = .operating ∧
      g.device.engine.pool.find? "probe" = some ⟨2, "probe", [.current]⟩ ∧
      g.device.engine.pool.find? "spare" = some ⟨1, "spare", [.temperature]⟩ ∧
      g.device.engine.pool.supportedMetrics = g.device.supportedMetrics := by
  intro g
  have hthrough : ∀ acts ∈ g.lists, acts = [] := by decide +kernel
  have hlife : g.device.lifecycle = .operating := by decide +kernel
  obtain ⟨hpool, hmetrics⟩ := (pool_in_step "dev-1" ⟨500⟩ ⟨1000⟩ .mean 10.0 shadowed).2 hthrough hlife
  refine ⟨hthrough, hlife, ?_, ?_, hmetrics⟩
  · rw [hpool]
    decide +kernel
  · rw [hpool]
    decide +kernel

end Agenda

end SensorNode
