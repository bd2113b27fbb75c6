/-
Releasing sensors. Calls that change a register come and go, and none of them releases a sensor (`register_stocked`). A
close releases the sensors in use, each in turn and whether or not that fails, and another close does nothing. As each
sensor in use is there once, and is that of an instrument of its own, each is released once (`close_closesOf`). But a
discovered sensor that a fixed one hides is not in use (`close_releases`).
-/
import SensorNode.Proofs.Device.Enrolment

namespace SensorNode

/-! ## Counting releases -/

namespace Fleet

variable {f f' : Fleet} {s s' : Sensor}

/-- the sensor is that of an instrument of the fleet -/
def Owns (f : Fleet) (s : Sensor) : Prop := (f.map Instrument.sensor)[s.instrument]? = some s

/-- how often a sensor has been released -/
def closesOf (f : Fleet) (s : Sensor) : Nat := (f.map Instrument.closes)[s.instrument]?.getD 0

theorem Owns.eq (h : f.Owns s) (h' : f.Owns s') (hsame : s.instrument = s'.instrument) : s = s' := by
  unfold Owns at h h'
  rw [hsame, h'] at h
  exact (Option.some.inj h).symm

theorem Owns.of_map (h : f.Owns s) (hsensors : f'.map Instrument.sensor = f.map Instrument.sensor) : f'.Owns s := by
  unfold Owns
  rw [hsensors]
  exact h

theorem close_sensors (f : Fleet) (s : Sensor) : (f.close s).map Instrument.sensor = f.map Instrument.sensor := by
  refine map_update (fun i => ?_) f s.instrument
  obtain ⟨sensor, behaviour, initFails, active, harvests, finished, inits, closes⟩ := i
  rcases behaviour with _ | ⟨scripts, _ | _⟩ <;> rfl

theorem close_counts (i : Instrument) : i.close.1.closes = i.closes + 1 := by
  obtain ⟨sensor, behaviour, initFails, active, harvests, finished, inits, closes⟩ := i
  rcases behaviour with _ | ⟨scripts, _ | _⟩ <;> rfl

theorem close_closesOf (h : f.Owns s) (s' : Sensor) :
    (f.close s').closesOf s = f.closesOf s + if s'.instrument = s.instrument then 1 else 0 := by
  obtain ⟨i, hi, -⟩ : ∃ i, f[s.instrument]? = some i ∧ i.sensor = s := by
    rw [Owns, List.getElem?_map] at h
    exact Option.map_eq_some_iff.1 h
  simp only [closesOf, close, update, List.getElem?_map, List.getElem?_modify, hi, Option.map_some, Option.getD_some]
  split_ifs
  · exact close_counts i
  · rfl

/-- a sensor is released as often as its instrument comes up -/
theorem closeAll_closesOf (h : f.Owns s) (sensors : List Sensor) :
    (sensors.foldl close f).closesOf s = f.closesOf s + sensors.countP fun s' => s'.instrument = s.instrument := by
  induction sensors generalizing f with
  | nil => rfl
  | cons s' sensors ih =>
    rw [List.foldl_cons, ih (h.of_map (close_sensors f s')), close_closesOf h, List.countP_cons, Nat.add_assoc,
      Nat.add_comm (ite _ _ _)]
    simp only [decide_eq_true_eq]

/-- of sensors of the fleet, each of which is there once, each comes up once -/
theorem countP_instrument (h : f.Owns s) {sensors : List Sensor} (hnodup : sensors.Nodup)
    (howns : ∀ s' ∈ sensors, f.Owns s') :
    (sensors.countP fun s' => s'.instrument = s.instrument) = if s ∈ sensors then 1 else 0 := by
  have hsame : ∀ s' ∈ sensors, (decide (s'.instrument = s.instrument) = true ↔ (s' == s) = true) := fun s' hs' => by
    rw [decide_eq_true_eq, beq_iff_eq]
    exact ⟨fun heq => (howns s' hs').eq h heq, fun heq => congrArg Sensor.instrument heq⟩
  rw [List.countP_congr hsame]
  exact hnodup.count

end Fleet

namespace Device

variable {d d' : Device}

/-! ## Calls that change a register -/

/-- a call that changes a register, or may do so -/
inductive Registration
  | fixed (sensors : List Sensor)
  | discovered (sensors : List Sensor)
  | unregister (id : String)
  | discover (scan : Scan)

/-- the sensors that a call brings -/
def Registration.sensors : Registration → List Sensor
  | .fixed sensors | .discovered sensors => sensors
  | .unregister _ => []
  | .discover scan =>
    match scan.result with
    | .ok found => found
    | .error _ => []

def register (d : Device) : Registration → Device
  | .fixed sensors => d.registerFixed sensors
  | .discovered sensors => d.registerSensors sensors
  | .unregister id => d.unregisterSensor id
  | .discover scan => (d.discover scan).1

def registerAll (d : Device) (calls : List Registration) : Device := calls.foldl register d

/-- a call changes a register with sensors that it brings, or does nothing -/
theorem register_cases (d : Device) (call : Registration) :
    d.register call = d ∨ ∃ partition added removed, (∀ s ∈ added, s ∈ call.sensors) ∧
      d.register call = (d.run [.enrol partition added removed]).1 := by
  cases call with
  | fixed sensors => exact Or.inr ⟨.fixed, sensors, [], fun _ hs => hs, rfl⟩
  | discovered sensors => exact Or.inr ⟨.discovered, sensors, [], fun _ hs => hs, rfl⟩
  | unregister id => exact Or.inr ⟨.discovered, [], [id], fun _ hs => hs, rfl⟩
  | discover scan =>
    show (d.discover scan).1 = d ∨ ∃ partition added removed, (∀ s ∈ added, s ∈ (Registration.discover scan).sensors) ∧
      (d.discover scan).1 = (d.run [.enrol partition added removed]).1
    simp only [discover_eq, discoverActs]
    split_ifs
    · exact Or.inl rfl
    · rcases hresult : scan.result with cause | found
      · exact Or.inl rfl
      · dsimp only
        split_ifs
        · exact Or.inl rfl
        · refine Or.inr ⟨.discovered, _, _, fun s hs => ?_, rfl⟩
          simp only [Registration.sensors, hresult]
          exact (List.mem_filter.1 hs).1

/-- the instruments are the same, none of them has been released, and the device is as far as it was -/
structure Stocked (d d' : Device) : Prop where
  lifecycle : d'.lifecycle = d.lifecycle
  sensors : d'.engine.fleet.map Instrument.sensor = d.engine.fleet.map Instrument.sensor
  closes : d'.engine.fleet.map Instrument.closes = d.engine.fleet.map Instrument.closes

/-- each sensor is registered under its id, and is that of an instrument -/
structure Equipped (d : Device) : Prop where
  fixed : d.fixed.IsBy Sensor.id
  discovered : d.discovered.IsBy Sensor.id
  owns : ∀ s, s ∈ d.fixed.values ∨ s ∈ d.discovered.values → d.engine.fleet.Owns s

theorem mem_addAll_values {r : Register} {added : List Sensor} {removed : List String} {s : Sensor}
    (h : s ∈ (Register.addAll (removed.foldl Keyed.erase r) added).values) : s ∈ r.values ∨ s ∈ added := by
  obtain ⟨id, hid⟩ := (Keyed.mem_values_iff _ s).1 h
  rw [Register.addAll_find?, Register.eraseAll_find?] at hid
  rcases Option.or_eq_some_iff.1 hid with hlast | ⟨-, hkept⟩
  · exact Or.inr (List.mem_filter.1 (List.mem_of_getLast? hlast)).1
  · split_ifs at hkept
    exact Or.inl ((Keyed.mem_values_iff r s).2 ⟨id, hkept⟩)

/-- what a register holds after a change was there or has been added -/
theorem mem_place_values (d : Device) (partition : Partition) {added : List Sensor} (removed : List String) {s : Sensor}
    (h : s ∈ (d.place partition added removed).fixed.values ∨ s ∈ (d.place partition added removed).discovered.values) :
    (s ∈ d.fixed.values ∨ s ∈ d.discovered.values) ∨ s ∈ added := by
  cases partition with
  | fixed =>
    rcases h with h | h
    · exact (mem_addAll_values h).imp_left Or.inl
    · exact Or.inl (Or.inr h)
  | discovered =>
    rcases h with h | h
    · exact Or.inl (Or.inl h)
    · exact (mem_addAll_values h).imp_left Or.inr

theorem register_stocked (h : d.Equipped) (hopen : d.lifecycle ≠ .closed) {call : Registration}
    (hcall : ∀ s ∈ call.sensors, d.engine.fleet.Owns s) :
    Stocked d (d.register call) ∧ (d.register call).Equipped := by
  rcases register_cases d call with hsame | ⟨partition, added, removed, hadded, hchange⟩
  · rw [hsame]
    exact ⟨⟨rfl, rfl, rfl⟩, h⟩
  · rw [hchange]
    have henrol := enrol_of_open hopen partition added removed
    have hstocked : Stocked d (d.run [.enrol partition added removed]).1 := {
      lifecycle := henrol.lifecycle
      sensors := by rw [henrol.fleet, Fleet.prepareAll_map fun i => (Instrument.init_frame i).1]
      closes := by rw [henrol.fleet, Fleet.prepareAll_map fun i => (Instrument.init_frame i).2.2] }
    obtain ⟨hfixed, hdiscovered⟩ :=
      place_isBy h.fixed h.discovered partition (added.filter d.engine.fleet.prepares) removed
    refine ⟨hstocked, ?_, ?_, fun s hs => ?_⟩
    · rw [henrol.fixed]
      exact hfixed
    · rw [henrol.discovered]
      exact hdiscovered
    · rw [henrol.fixed, henrol.discovered] at hs
      have hbefore : d.engine.fleet.Owns s := by
        rcases mem_place_values d partition removed hs with hs | hs
        · exact h.owns s hs
        · exact hcall s (hadded s (List.mem_filter.1 hs).1)
      exact hbefore.of_map hstocked.sensors

theorem registerAll_stocked (h : d.Equipped) (hopen : d.lifecycle ≠ .closed) {calls : List Registration}
    (hcalls : ∀ call ∈ calls, ∀ s ∈ call.sensors, d.engine.fleet.Owns s) :
    Stocked d (d.registerAll calls) ∧ (d.registerAll calls).Equipped := by
  induction calls generalizing d with
  | nil => exact ⟨⟨rfl, rfl, rfl⟩, h⟩
  | cons call calls ih =>
    obtain ⟨hfirst, hequipped⟩ := register_stocked h hopen (hcalls call List.mem_cons_self)
    obtain ⟨hrest, hlast⟩ := ih hequipped (by rw [hfirst.lifecycle]; exact hopen) fun call' hcall' s hs =>
      (hcalls call' (List.mem_cons_of_mem call hcall') s hs).of_map hfirst.sensors
    exact ⟨⟨hrest.lifecycle.trans hfirst.lifecycle, hrest.sensors.trans hfirst.sensors,
      hrest.closes.trans hfirst.closes⟩, hlast⟩

/-! ## Closing -/

theorem close_fleet (h : d.lifecycle ≠ .closed) :
    d.close.engine.fleet = d.supportedSensors.foldl Fleet.close d.engine.fleet := by
  obtain ⟨flags, listeners, ledger, -, hhalted⟩ := halted_eq d
  rw [close_of_open h, hhalted]
  rfl

/-- A sensor in use is a fixed one, or a discovered one that no fixed one hides. -/
theorem mem_supportedSensors (d : Device) (s : Sensor) :
    s ∈ d.supportedSensors ↔
      s ∈ d.fixed.values ∨ s ∈ d.discovered.values ∧ d.fixed.contains s.id = false := by
  simp [supportedSensors, List.mem_filter]

/-- a close releases each sensor in use once, and no other -/
theorem close_closesOf (h : d.Equipped) (hopen : d.lifecycle ≠ .closed) {s : Sensor} (hs : d.engine.fleet.Owns s) :
    d.close.engine.fleet.closesOf s = d.engine.fleet.closesOf s + if s ∈ d.supportedSensors then 1 else 0 := by
  have hnodup : d.supportedSensors.Nodup := (supportedSensors_nodup h.fixed h.discovered).of_map Sensor.id
  have howns : ∀ s' ∈ d.supportedSensors, d.engine.fleet.Owns s' := fun s' hs' =>
    h.owns s' (((mem_supportedSensors d s').1 hs').imp_right And.left)
  rw [close_fleet hopen, Fleet.closeAll_closesOf hs, Fleet.countP_instrument hs hnodup howns]

/-- **A close releases the sensors in use.** Let any calls change the registers of a device that is not closed, and then
let it be closed, any number of times. Each fixed sensor that is registered when the first close begins has then been
released once, and so has each discovered one whose id no fixed sensor has, whether or not a release fails; no other
sensor has been. So a registered sensor has been released exactly if it is not a discovered one that a fixed one hides.
-/
theorem close_releases (d : Device) (calls : List Registration) (later : Nat) (h : d.Equipped)
    (hopen : d.lifecycle ≠ .closed) (hcalls : ∀ call ∈ calls, ∀ s ∈ call.sensors, d.engine.fleet.Owns s) :
    let ran := d.registerAll calls
    let closed := close^[later + 1] ran
    (∀ s, d.engine.fleet.Owns s → closed.engine.fleet.closesOf s = d.engine.fleet.closesOf s +
        if s ∈ ran.fixed.values ∨ s ∈ ran.discovered.values ∧ ran.fixed.contains s.id = false then 1 else 0) ∧
      ∀ s, s ∈ ran.fixed.values ∨ s ∈ ran.discovered.values → d.engine.fleet.Owns s ∧
        (closed.engine.fleet.closesOf s = d.engine.fleet.closesOf s + 1 ↔
          s ∈ ran.fixed.values ∨ ran.fixed.contains s.id = false) := by
  intro ran closed
  obtain ⟨hstocked, hequipped⟩ := registerAll_stocked h hopen hcalls
  have hranOpen : ran.lifecycle ≠ .closed := fun hclosed => hopen (hstocked.lifecycle.symm.trans hclosed)
  -- the first close does all there is to do
  have honce : closed = ran.close := by
    show close^[later + 1] ran = _
    rw [Function.iterate_succ_apply]
    exact Function.iterate_fixed (close_of_closed (close_lifecycle ran)) later
  have hcounts : ∀ s, d.engine.fleet.Owns s → closed.engine.fleet.closesOf s = d.engine.fleet.closesOf s +
      if s ∈ ran.fixed.values ∨ s ∈ ran.discovered.values ∧ ran.fixed.contains s.id = false then 1 else 0 := by
    intro s hs
    have hbefore : ran.engine.fleet.closesOf s = d.engine.fleet.closesOf s := by
      unfold Fleet.closesOf
      rw [hstocked.closes]
    rw [honce, close_closesOf hequipped hranOpen (hs.of_map hstocked.sensors), hbefore]
    exact congrArg _ (if_congr (mem_supportedSensors ran s) rfl rfl)
  refine ⟨hcounts, fun s hs => ?_⟩
  have howned : d.engine.fleet.Owns s := (hequipped.owns s hs).of_map hstocked.sensors.symm
  refine ⟨howned, ?_⟩
  rw [hcounts s howned]
  constructor
  · intro hreleased
    split_ifs at hreleased with huse
    · exact huse.imp_right And.right
    · omega
  · rintro (hfixed | hshown)
    · rw [if_pos (Or.inl hfixed)]
    · rw [if_pos (hs.imp_right fun hdiscovered => ⟨hdiscovered, hshown⟩)]

/-- a probe is fixed; a scan finds another sensor and one under the id of the probe -/
def overlapping : List Registration :=
  [.fixed [⟨0, "probe", [.humidity]⟩],
    .discover ⟨⟨0⟩, .ok [⟨1, "probe", [.current]⟩, ⟨3, "other", [.humidity]⟩, ⟨2, "spare", [.temperature]⟩]⟩]

theorem bench_equipped : bench.Equipped where
  fixed := Keyed.isBy_empty
  discovered := Keyed.isBy_empty
  owns := by rintro s (hs | hs) <;> cases hs

theorem close_releases_bench :
    let closed := close^[2] (bench.registerAll overlapping)
    (bench.engine.fleet.map fun i => i.close.2) = [false, true, true, true] ∧
      closed.engine.fleet.closesOf ⟨0, "probe", [.humidity]⟩ = 1 ∧
      closed.engine.fleet.closesOf ⟨3, "other", [.humidity]⟩ = 1 := by
  have hcalls : ∀ call ∈ overlapping, ∀ s ∈ call.sensors, bench.engine.fleet.Owns s := by
    unfold Fleet.Owns
    decide +kernel
  obtain ⟨-, hreleased⟩ := close_releases bench overlapping 1 bench_equipped (by decide) hcalls
  refine ⟨by decide +kernel, ?_, ?_⟩
  · exact (hreleased ⟨0, "probe", [.humidity]⟩ (by decide +kernel)).2.2 (by decide +kernel)
  · exact (hreleased ⟨3, "other", [.humidity]⟩ (by decide +kernel)).2.2 (by decide +kernel)

/-- the discovered sensor under the id of a fixed one has been prepared, and is not released -/
theorem close_misses_hidden :
    let ran := bench.registerAll overlapping
    let hidden : Sensor := ⟨1, "probe", [.current]⟩
    hidden ∈ ran.discovered.values ∧ ran.close.engine.fleet.map Instrument.inits = [1, 1, 1, 1] ∧
      ran.close.engine.fleet.closesOf hidden = 0 ∧ (ran.close).close.engine.fleet.closesOf hidden = 0 := by
  intro ran hidden
  rw [close_of_closed (close_lifecycle ran)]
  exact ⟨by decide +kernel, by decide +kernel, by decide +kernel, by decide +kernel⟩

end Device

end SensorNode
