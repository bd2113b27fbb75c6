/-
Changes of a register that are carried out without a break. The sensors that are new are prepared one by one, ids are
taken out, and what is ready is put in (`enrol_of_open`); a closed device refuses all of it (`enrol_of_closed`). Whether
a sensor can be prepared does not depend on which others were before it (`Fleet.prepares_init`), and a scan of the buses
is such a change, or nothing at all (`discover_eq`).

So the numbers that a scan tells are those of its own comparison, before anything is done. They are those of the change
exactly if every new id was found once and its sensor could be prepared, and the device is not closed
(`discover_counts_iff`).
-/
import SensorNode.Proofs.Device.Removal
import SensorNode.Proofs.Device.Pool
import SensorNode.Proofs.Reading.Players

namespace SensorNode

/-! ## What becomes of a register -/

namespace Register

variable {r : Register}

theorem eraseAll_find? (r : Register) (ids : List String) (id : String) :
    (ids.foldl Keyed.erase r).find? id = if id ∈ ids then none else r.find? id := by
  induction ids generalizing r with
  | nil => simp
  | cons id' ids ih =>
    rw [List.foldl_cons, ih, Keyed.find?_erase]
    by_cases hid : id = id' <;> simp [hid]

/-- of several sensors with one id the last is put in -/
theorem addAll_find? (r : Register) (sensors : List Sensor) (id : String) :
    (r.addAll sensors).find? id = (sensors.filter fun s => s.id = id).getLast?.or (r.find? id) := by
  induction sensors generalizing r with
  | nil => rfl
  | cons s sensors ih =>
    show ((r.add s).addAll sensors).find? id = _
    rw [ih, add, Keyed.find?_insert]
    by_cases hs : s.id = id
    · rw [List.filter_cons_of_pos (by simpa using hs), List.getLast?_cons, if_pos hs.symm]
      cases (sensors.filter fun s => s.id = id).getLast? <;> rfl
    · rw [List.filter_cons_of_neg (by simpa using hs), if_neg (Ne.symm hs)]

theorem contains_eq (r : Register) (id : String) : r.contains id = (r.find? id).isSome := rfl

/-- what a scan finds to be new is not registered -/
theorem not_contains_of_mem_diff {found : List Sensor} {s : Sensor} (hs : s ∈ (r.diff found).1) :
    r.contains s.id = false := by simpa using (List.mem_filter.1 hs).2

/-- What is to be under an id after a scan, when some of the new sensors are ready. What was registered stays as it was
if the scan has found its id, and under a new id comes the last sensor that is ready. -/
def afterScan (r : Register) (found ready : List Sensor) (id : String) : Option Sensor :=
  if r.contains id then if found.any fun s => s.id = id then r.find? id else none
  else (ready.filter fun s => s.id = id).getLast?

/-- ids that are not found are taken out, and then sensors with new ids are put in -/
theorem addAll_diff_find? (r : Register) (found : List Sensor) {ready : List Sensor}
    (hready : ∀ s ∈ ready, r.contains s.id = false) (id : String) :
    (addAll ((r.diff found).2.foldl Keyed.erase r) ready).find? id = r.afterScan found ready id := by
  unfold afterScan
  have hgone : id ∈ (r.diff found).2 ↔ r.contains id = true ∧ (found.any fun s => s.id = id) = false := by
    rw [Keyed.contains_iff]
    simp [diff]
  rw [addAll_find?, eraseAll_find?]
  by_cases hid : r.contains id = true
  · have hnone : (ready.filter fun s => s.id = id) = [] := by
      refine List.filter_eq_nil_iff.2 fun s hs heq => ?_
      rw [← of_decide_eq_true heq, hready s hs] at hid
      cases hid
    have hempty : ([] : List Sensor).getLast? = none := rfl
    rw [hnone, hempty, Option.none_or, if_pos hid]
    cases hfound : found.any fun s => s.id = id with
    | true =>
      have hkept : id ∉ (r.diff found).2 := fun h => by cases hfound.symm.trans (hgone.1 h).2
      rw [if_neg hkept, if_pos rfl]
    | false => rw [if_pos (hgone.2 ⟨hid, hfound⟩), if_neg (by decide)]
  · have hnone : r.find? id = none := by
      rw [contains_eq] at hid
      exact Option.not_isSome_iff_eq_none.1 hid
    rw [if_neg fun h => hid (hgone.1 h).1, if_neg hid, hnone, Option.or_none]

/-- when all new sensors are put in, what is registered is what a scan has found -/
theorem contains_addAll_diff (r : Register) (found : List Sensor) (id : String) :
    (addAll ((r.diff found).2.foldl Keyed.erase r) (r.diff found).1).contains id = found.any fun s => s.id = id := by
  rw [contains_eq, addAll_diff_find? r found fun _ => not_contains_of_mem_diff, afterScan]
  cases hid : r.contains id with
  | true =>
    have hsome : (r.find? id).isSome = true := hid
    cases found.any fun s => s.id = id <;> simp [hsome]
  | false =>
    rw [if_neg (by decide), Bool.eq_iff_iff, List.getLast?_isSome, ← List.length_pos_iff,
      List.length_pos_iff_exists_mem]
    simp only [List.mem_filter, List.any_eq_true, decide_eq_true_eq, diff]
    constructor
    · rintro ⟨s, ⟨hs, -⟩, heq⟩
      exact ⟨s, hs, heq⟩
    · rintro ⟨s, hs, rfl⟩
      exact ⟨s, ⟨hs, by rw [hid]; rfl⟩, rfl⟩

/-- the ids that a scan brings in are those of the sensors put in, and those that it takes away are those not found -/
theorem ids_diff (r : Register) (found : List Sensor) {ready : List Sensor}
    (hready : ∀ s ∈ ready, r.contains s.id = false) :
    let after := addAll ((r.diff found).2.foldl Keyed.erase r) ready
    after.keys.toFinset \ r.keys.toFinset = (ready.map Sensor.id).toFinset ∧
      r.keys.toFinset \ after.keys.toFinset = (r.diff found).2.toFinset := by
  intro after
  have hafter : ∀ id, id ∈ after.keys ↔
      if r.contains id then (found.any fun s => s.id = id) = true else ∃ s ∈ ready, s.id = id := fun id => by
    rw [← Keyed.find?_isSome_iff, addAll_diff_find? r found hready, afterScan]
    cases hid : r.contains id with
    | true =>
      have hsome : (r.find? id).isSome = true := hid
      cases found.any fun s => s.id = id <;> simp [hsome]
    | false => simp
  refine ⟨Finset.ext fun id => ?_, Finset.ext fun id => ?_⟩
  · simp only [Finset.mem_sdiff, List.mem_toFinset, hafter, ← Keyed.contains_iff, List.mem_map]
    constructor
    · rintro ⟨hin, hnew⟩
      rwa [if_neg hnew] at hin
    · rintro ⟨s, hs, rfl⟩
      have hnew := hready s hs
      rw [if_neg (by rw [hnew]; decide), hnew]
      exact ⟨⟨s, hs, rfl⟩, by decide⟩
  · simp only [Finset.mem_sdiff, List.mem_toFinset, hafter]
    have hgone : id ∈ (r.diff found).2 ↔ id ∈ r.keys ∧ ¬(found.any fun s => s.id = id) = true := by simp [diff]
    rw [hgone]
    refine and_congr_right fun hid => ?_
    rw [if_pos ((r.contains_iff id).2 hid)]

end Register

/-! ## Preparing sensors -/

theorem Instrument.init_snd (i : Instrument) : i.init.2 = !i.initFails := by
  obtain ⟨sensor, behaviour, initFails, active, harvests, finished, inits, closes⟩ := i
  cases initFails <;> cases behaviour <;> rfl

/-- preparing an instrument does not change what it is, nor whether that fails, and does not release it -/
theorem Instrument.init_frame (i : Instrument) :
    i.init.1.sensor = i.sensor ∧ i.init.1.initFails = i.initFails ∧ i.init.1.closes = i.closes := by
  obtain ⟨sensor, behaviour, initFails, active, harvests, finished, inits, closes⟩ := i
  cases initFails <;> cases behaviour <;> exact ⟨rfl, rfl, rfl⟩

namespace Fleet

/-- the sensor can be prepared -/
def prepares (f : Fleet) (s : Sensor) : Bool := (f.init s).2

/-- sensors are prepared one after the other -/
def prepareAll (f : Fleet) (sensors : List Sensor) : Fleet := sensors.foldl (fun f s => (f.init s).1) f

theorem prepares_eq (f : Fleet) (s : Sensor) : f.prepares s = ((f.find? s).map fun i => !i.initFails).getD false := by
  unfold prepares init
  cases f.find? s with
  | none => rfl
  | some i => exact Instrument.init_snd i

/-- what preparing an instrument leaves as it was, preparing a sensor of the fleet does -/
theorem init_map {α : Type} {read : Instrument → α} (h : ∀ i : Instrument, read i.init.1 = read i) (f : Fleet)
    (s : Sensor) : (f.init s).1.map read = f.map read := by
  unfold init
  split
  · exact map_update h f s.instrument
  · rfl

theorem prepareAll_map {α : Type} {read : Instrument → α} (h : ∀ i : Instrument, read i.init.1 = read i) (f : Fleet)
    (sensors : List Sensor) : (f.prepareAll sensors).map read = f.map read := by
  induction sensors generalizing f with
  | nil => rfl
  | cons s sensors ih => exact (ih (f.init s).1).trans (init_map h f s)

theorem prepares_init (f : Fleet) (s s' : Sensor) : (f.init s).1.prepares s' = f.prepares s' := by
  have hread : ∀ f : Fleet, (f.find? s').map (fun i => !i.initFails) = (f.map fun i => !i.initFails)[s'.instrument]? :=
    fun f => List.getElem?_map.symm
  rw [prepares_eq, prepares_eq, hread, hread, init_map fun i => by rw [(Instrument.init_frame i).2.1]]

end Fleet

namespace Device

variable {d d' : Device}

theorem inTurn_singleton (f : Device → Act → Device × Option Failure) (d : Device) (a : Act) :
    inTurn f d [a] = f d a := by
  rw [inTurn_cons]
  rcases f d a with ⟨d', _ | e⟩ <;> rfl

/-- Sensors are prepared one by one, and those that are ready wait to be put in. -/
theorem perform_prepare (n : Nat) (d : Device) (partition : Partition) (waiting ready : List Sensor)
    (removed : List String) :
    d.perform (waiting.length + n + 1) (.prepare partition waiting ready removed) =
      (d.updateFleet fun f => f.prepareAll waiting).perform (n + 1)
        (.prepare partition [] (ready ++ waiting.filter d.engine.fleet.prepares) removed) := by
  -- each sensor takes one step; that it was prepared does not change what becomes of the others
  induction waiting generalizing d ready with
  | nil =>
    rw [List.length_nil, Nat.zero_add, List.filter_nil, List.append_nil]
    rfl
  | cons s waiting ih =>
    have hact : d.act (.prepare partition (s :: waiting) ready removed) =
        (d.updateFleet fun f => (f.init s).1, .ok [.prepare partition waiting
          (if d.engine.fleet.prepares s then ready ++ [s] else ready) removed]) := rfl
    have hsame : (d.updateFleet fun f => (f.init s).1).engine.fleet.prepares = d.engine.fleet.prepares :=
      funext (Fleet.prepares_init d.engine.fleet s)
    have hlength : (s :: waiting).length + n + 1 = waiting.length + n + 1 + 1 := by
      rw [List.length_cons]
      omega
    rw [hlength, perform_succ, hact]
    dsimp only
    rw [inTurn_singleton, ih, hsame]
    cases hs : d.engine.fleet.prepares s with
    | true =>
      rw [List.filter_cons_of_pos hs, if_pos rfl, List.append_assoc]
      rfl
    | false =>
      rw [List.filter_cons_of_neg (by simp [hs]), if_neg (by decide)]
      rfl

/-- what an announcement of the metrics leaves alone -/
structure SameSite (d d' : Device) : Prop where
  lifecycle : d'.lifecycle = d.lifecycle
  fixed : d'.fixed = d.fixed
  discovered : d'.discovered = d.discovered
  engine : d'.engine = d.engine

theorem readModel_same (n : Nat) (d : Device) : SameSite d (d.perform n .readModel).1 := by
  let announces : Act → Prop := fun a =>
    a = .readModel ∨ (∃ model supports, a = .sendMetrics model supports) ∨
      ∃ model supports, a = .writeModel model supports
  have hkept : Kept (SameSite d) announces := {
    act := by
      rintro d' a ⟨hlife, hfixed, hdiscovered, hengine⟩ (rfl | ⟨model, supports, rfl⟩ | ⟨model, supports, rfl⟩)
      · simp only [act]
        split <;> exact ⟨hlife, hfixed, hdiscovered, hengine⟩
      · simp only [act]
        split <;> exact ⟨hlife, hfixed, hdiscovered, hengine⟩
      · exact ⟨hlife, hfixed, hdiscovered, hengine⟩
    next := by
      intro d' a next _ ha hnext a' ha'
      rcases ha with rfl | ⟨model, supports, rfl⟩ | ⟨model, supports, rfl⟩ <;> cases calls_of_mem hnext ha'
      · exact Or.inr (Or.inl ⟨_, _, rfl⟩)
      · exact Or.inr (Or.inr ⟨_, _, rfl⟩) }
  exact perform_keeps hkept n d .readModel ⟨rfl, rfl, rfl, rfl⟩ (Or.inl rfl)

theorem syncPool_eq (d : Device) : ∃ pool, d.syncPool = { d with engine := { d.engine with pool } } := by
  unfold syncPool
  split_ifs
  · exact ⟨_, rfl⟩
  · exact ⟨d.engine.pool, rfl⟩

/-! ## A change of a register -/

/-- What a change of a register comes to: the new sensors are prepared, and those that are ready are put in where ids
are taken out. -/
structure Enrolled (d d' : Device) (partition : Partition) (added : List Sensor) (removed : List String) : Prop where
  lifecycle : d'.lifecycle = d.lifecycle
  fleet : d'.engine.fleet = d.engine.fleet.prepareAll added
  fixed : d'.fixed = (d.place partition (added.filter d.engine.fleet.prepares) removed).fixed
  discovered : d'.discovered = (d.place partition (added.filter d.engine.fleet.prepares) removed).discovered

theorem enrol_of_open (h : d.lifecycle ≠ .closed) (partition : Partition) (added : List Sensor)
    (removed : List String) : Enrolled d (d.run [.enrol partition added removed]).1 partition added removed := by
  let ready := added.filter d.engine.fleet.prepares
  let prepared := d.updateFleet fun f => f.prepareAll added
  let placed := (prepared.place partition ready removed).syncPool
  have hact : d.act (.enrol partition added removed) = (d, .ok [.prepare partition added [] removed]) := by
    simp only [act, if_neg h]
  have hrun : d.run [.enrol partition added removed] = placed.perform 6 .readModel :=
    calc d.run [.enrol partition added removed]
        = d.perform (added.length + 7 + 1) (.enrol partition added removed) := inTurn_singleton _ d _
      _ = d.perform (added.length + 6 + 1) (.prepare partition added [] removed) := by
        rw [perform_succ, hact]
        exact inTurn_singleton _ d _
      _ = prepared.perform 7 (.prepare partition [] ready removed) := perform_prepare 6 d partition added [] removed
      _ = inTurn (perform 6) placed [.readModel] := by
        rw [perform_succ]
        show inTurn (perform 6) prepared [.place partition ready removed, .syncPool, .readModel] = _
        rw [inTurn_of_ok rfl, inTurn_of_ok rfl]
      _ = placed.perform 6 .readModel := inTurn_singleton _ placed _
  have hplaced : Enrolled d placed partition added removed := by
    obtain ⟨pool, hpool⟩ := syncPool_eq (prepared.place partition ready removed)
    show Enrolled d (prepared.place partition ready removed).syncPool partition added removed
    rw [hpool]
    cases partition <;> exact ⟨rfl, rfl, rfl, rfl⟩
  rw [hrun]
  have hsame := readModel_same 6 placed
  exact {
    lifecycle := hsame.lifecycle.trans hplaced.lifecycle
    fleet := (congrArg Engine.fleet hsame.engine).trans hplaced.fleet
    fixed := hsame.fixed.trans hplaced.fixed
    discovered := hsame.discovered.trans hplaced.discovered }

/-! ## Scans -/

/-- what the end of a scan leads to -/
def discoverActs (d : Device) (scan : Scan) : List Act :=
  if d.scanTimeout.millis < scan.takes.millis then []
  else
    match scan.result with
    | .error _ => []
    | .ok found =>
      let (added, removed) := d.discovered.diff found
      if (added.length, removed.length) = (0, 0) then [] else [.enrol .discovered added removed]

/-- A scan does without a break what its end leads to. -/
theorem discover_eq (d : Device) (scan : Scan) : (d.discover scan).1 = (d.run (d.discoverActs scan)).1 := by
  unfold discover discoverActs
  split_ifs
  · rfl
  · rcases scan.result with cause | found
    · rfl
    · dsimp only
      split_ifs <;> rfl

/-- a scan that fails or takes too long leaves the device as it was -/
theorem discover_of_failed {scan : Scan}
    (h : d.scanTimeout.millis < scan.takes.millis ∨ ∃ cause, scan.result = .error cause) :
    ∃ failure, d.discover scan = (d, .error failure) := by
  unfold discover
  split_ifs with hlate
  · exact ⟨_, rfl⟩
  · obtain ⟨cause, hcause⟩ := h.resolve_left hlate
    rw [hcause]
    exact ⟨_, rfl⟩

theorem discoverActs_of_failed {scan : Scan}
    (h : d.scanTimeout.millis < scan.takes.millis ∨ ∃ cause, scan.result = .error cause) :
    d.discoverActs scan = [] := by
  unfold discoverActs
  split_ifs with hlate
  · rfl
  · obtain ⟨cause, hcause⟩ := h.resolve_left hlate
    rw [hcause]

/-- a scan that ends well was in time and tells what it has compared -/
theorem discover_ok {scan : Scan} {counts : Nat × Nat} (h : (d.discover scan).2 = .ok counts) :
    ¬d.scanTimeout.millis < scan.takes.millis ∧ ∃ found, scan.result = .ok found ∧
      counts = ((d.discovered.diff found).1.length, (d.discovered.diff found).2.length) := by
  unfold discover at h
  split_ifs at h with hlate
  refine ⟨hlate, ?_⟩
  rcases hresult : scan.result with cause | found <;> rw [hresult] at h
  · cases h
  · cases h
    exact ⟨found, rfl, rfl⟩

theorem discoverActs_of_ok {scan : Scan} {counts : Nat × Nat} (h : (d.discover scan).2 = .ok counts)
    {found : List Sensor} (hfound : scan.result = .ok found) :
    d.discoverActs scan =
      if ((d.discovered.diff found).1.length, (d.discovered.diff found).2.length) = (0, 0) then []
      else [.enrol .discovered (d.discovered.diff found).1 (d.discovered.diff found).2] := by
  unfold discoverActs
  rw [if_neg (discover_ok h).1, hfound]

/-- a scan that finds what is registered has nothing to do -/
theorem discover_of_same {scan : Scan} {found : List Sensor} (hfound : scan.result = .ok found)
    (htime : scan.takes.millis ≤ d.scanTimeout.millis)
    (hsame : ∀ id, d.discovered.contains id = found.any fun s => s.id = id) :
    d.discover scan = (d, .ok (0, 0)) := by
  have hadded : (d.discovered.diff found).1 = [] := by
    refine List.filter_eq_nil_iff.2 fun s hs hnew => ?_
    rw [hsame, List.any_eq_true.2 ⟨s, hs, decide_eq_true rfl⟩] at hnew
    cases hnew
  have hremoved : (d.discovered.diff found).2 = [] := by
    refine List.filter_eq_nil_iff.2 fun id hid hlost => ?_
    rw [← hsame, (d.discovered.contains_iff id).2 hid] at hlost
    cases hlost
  simp [discover, not_lt.2 htime, hfound, hadded, hremoved]

/-! ## What a scan tells -/

/-- a scan prepares the new sensors and changes the register of discovered sensors, unless the device is closed -/
theorem discover_enrolled (hopen : d.lifecycle ≠ .closed) {scan : Scan} {counts : Nat × Nat}
    (h : (d.discover scan).2 = .ok counts) {found : List Sensor} (hfound : scan.result = .ok found) :
    Enrolled d (d.discover scan).1 .discovered (d.discovered.diff found).1 (d.discovered.diff found).2 := by
  rw [discover_eq, discoverActs_of_ok h hfound]
  split_ifs with hnothing
  · obtain ⟨hadded, hremoved⟩ := Prod.mk.inj hnothing
    rw [List.length_eq_zero_iff.1 hadded, List.length_eq_zero_iff.1 hremoved]
    exact ⟨rfl, rfl, rfl, rfl⟩
  · exact enrol_of_open hopen .discovered _ _

/-- As many ids as sensors come in if each id is there once and each sensor can be prepared, and else fewer. -/
theorem card_ids_le (sensors : List Sensor) (ok : Sensor → Bool) :
    ((sensors.filter ok).map Sensor.id).toFinset.card ≤ sensors.length ∧
      (((sensors.filter ok).map Sensor.id).toFinset.card = sensors.length ↔
        (sensors.map Sensor.id).Nodup ∧ ∀ s ∈ sensors, ok s = true) := by
  have hids : ((sensors.filter ok).map Sensor.id).toFinset.card ≤ (sensors.filter ok).length := by
    have := List.toFinset_card_le ((sensors.filter ok).map Sensor.id)
    rwa [List.length_map] at this
  have hready : (sensors.filter ok).length ≤ sensors.length := List.length_filter_le ok sensors
  refine ⟨hids.trans hready, fun hall => ?_, fun ⟨hnodup, hok⟩ => ?_⟩
  · have hok : ∀ s ∈ sensors, ok s = true := List.length_filter_eq_length_iff.1 (by omega)
    rw [List.filter_eq_self.2 hok] at hall
    refine ⟨?_, hok⟩
    rw [← Multiset.coe_nodup, ← Multiset.toFinset_card_eq_card_iff_nodup, Multiset.coe_card, List.length_map]
    exact hall
  · rw [List.filter_eq_self.2 hok, List.toFinset_card_of_nodup hnodup, List.length_map]

/-- **What a scan tells.** Let a scan tell that `a` sensors were new and `r` not found any more. If the device is closed,
its register is as it was. If not, the ids that have come into the register are those of the new sensors that could be
prepared, at most `a` of them, and `r` ids are gone. So the numbers are those of the change exactly if the device is not
closed, no new id was found twice and every new sensor could be prepared, or there was nothing to do in a closed device.
-/
theorem discover_counts_iff (d : Device) (scan : Scan) (a r : Nat) (h : (d.discover scan).2 = .ok (a, r)) :
    ∃ found, scan.result = .ok found ∧
      let before := d.discovered.keys.toFinset
      let after := (d.discover scan).1.discovered.keys.toFinset
      let fresh := found.filter fun s => !d.discovered.contains s.id
      (d.lifecycle = .closed → after = before) ∧
        (d.lifecycle ≠ .closed →
          after \ before = ((fresh.filter d.engine.fleet.prepares).map Sensor.id).toFinset ∧
            (after \ before).card ≤ a ∧ (before \ after).card = r) ∧
        ((after \ before).card = a ∧ (before \ after).card = r ↔
          if d.lifecycle = .closed then a = 0 ∧ r = 0
          else (fresh.map Sensor.id).Nodup ∧ ∀ s ∈ fresh, d.engine.fleet.prepares s = true) := by
  obtain ⟨-, found, hfound, hcounts⟩ := discover_ok h
  obtain ⟨rfl, rfl⟩ := Prod.mk.inj hcounts
  refine ⟨found, hfound, ?_⟩
  intro before after fresh
  have hshut : d.lifecycle = .closed → after = before := fun hclosed => by
    show (d.discover scan).1.discovered.keys.toFinset = _
    rw [discover_of_closed hclosed]
  have hopen : d.lifecycle ≠ .closed →
      after \ before = ((fresh.filter d.engine.fleet.prepares).map Sensor.id).toFinset ∧
        before \ after = (d.discovered.diff found).2.toFinset := fun hopen => by
    have hnew : ∀ s ∈ fresh.filter d.engine.fleet.prepares, d.discovered.contains s.id = false := fun s hs =>
      Register.not_contains_of_mem_diff (List.mem_filter.1 hs).1
    show (d.discover scan).1.discovered.keys.toFinset \ before = _ ∧
      before \ (d.discover scan).1.discovered.keys.toFinset = _
    rw [(discover_enrolled hopen h hfound).discovered]
    exact Register.ids_diff d.discovered found hnew
  obtain ⟨hle, hiff⟩ := card_ids_le fresh d.engine.fleet.prepares
  have hlost : (d.discovered.diff found).2.toFinset.card = (d.discovered.diff found).2.length :=
    List.toFinset_card_of_nodup (d.discovered.distinct.filter _)
  refine ⟨hshut, fun hlife => ?_, ?_⟩
  · obtain ⟨hgained, hgone⟩ := hopen hlife
    rw [hgained, hgone]
    exact ⟨rfl, hle, hlost⟩
  · split_ifs with hlife
    · rw [hshut hlife, Finset.sdiff_self, Finset.card_empty]
      exact and_congr eq_comm eq_comm
    · obtain ⟨hgained, hgone⟩ := hopen hlife
      rw [hgained, hgone]
      exact (and_iff_left hlost).trans hiff

/-- Instruments on a bench. The first cannot be released, and the spare cannot be prepared. -/
def onBench : Fleet :=
  [.scripted ⟨0, "probe", [.humidity]⟩ [] false true true, .scripted ⟨1, "probe", [.current]⟩ [] false false true,
    .scripted ⟨2, "spare", [.temperature]⟩ [] true false true, .scripted ⟨3, "other", [.humidity]⟩ [] false false true]

def bench : Device := (new "dev-1" ⟨500⟩ ⟨1000⟩ .mean 10.0).updateFleet fun _ => onBench

theorem discover_counts_iff_bench :
    let scan : Scan := ⟨⟨0⟩, .ok [⟨0, "probe", [.humidity]⟩, ⟨3, "other", [.humidity]⟩]⟩
    let before := bench.discovered.keys.toFinset
    let after := (bench.discover scan).1.discovered.keys.toFinset
    (bench.discover scan).2 = .ok (2, 0) ∧ (after \ before).card = 2 ∧ (before \ after).card = 0 := by
  intro scan before after
  have hcounts : (bench.discover scan).2 = .ok (2, 0) := rfl
  obtain ⟨found, hfound, -, -, hiff⟩ := discover_counts_iff bench scan 2 0 hcounts
  obtain rfl := Except.ok.inj hfound
  have hlife : bench.lifecycle ≠ .closed := by decide
  refine ⟨hcounts, hiff.2 ?_⟩
  rw [if_neg hlife]
  decide +kernel

/-- A scan that finds two sensors with one id, and the spare, tells of three new ones where one id has come in. Once the
device is closed, a scan tells of a change that it has not made. -/
theorem discover_counts_more :
    let crowded : Scan :=
      ⟨⟨0⟩, .ok [⟨0, "probe", [.humidity]⟩, ⟨1, "probe", [.current]⟩, ⟨2, "spare", [.temperature]⟩]⟩
    let late : Scan := ⟨⟨0⟩, .ok [⟨3, "other", [.humidity]⟩]⟩
    let scanned := (bench.discover crowded).1
    ((bench.discover crowded).2 = .ok (3, 0) ∧ bench.discovered.keys = [] ∧ scanned.discovered.keys = ["probe"]) ∧
      (scanned.close.discover late).2 = .ok (1, 1) ∧
        (scanned.close.discover late).1.discovered.keys = scanned.close.discovered.keys := by
  intro crowded late scanned
  refine ⟨⟨rfl, rfl, by decide +kernel⟩, rfl, ?_⟩
  rw [discover_of_closed (close_lifecycle scanned)]

end Device

end SensorNode
