/-
Scans of the sensor buses, with anything else going on meanwhile but for other changes of a register. When a scan ends,
what it leads to is a procedure that begins (`endScan`): the new sensors are prepared one by one, and then the register
is changed at once. How far that procedure is says what has become of the register (`Progress`), and each thing that
happens keeps this so (`Underway.perform`). So when it is through, the register is what the scan has found, as far as
the new sensors could be prepared, and a scan that finds the same ids again has nothing to do (`discovery_converges`).
-/
import SensorNode.Proofs.Device.Preparation

namespace SensorNode

namespace Agenda

open Device

variable {g : Agenda}

/-! ## What happens to registers -/

/-- the procedure goes on -/
def isOf (i : Nat) : Op → Bool
  | .proceed j => j = i
  | _ => false

/-- a procedure goes on with a change of a register -/
def enrolling (g : Agenda) : Op → Bool
  | .proceed i => (g.lists[i]?.bind List.head?).any enrols
  | _ => false

/-- a procedure other than this one goes on with a change of a register -/
def enrollingBesides (i : Nat) (g : Agenda) (op : Op) : Bool := !isOf i op && g.enrolling op

/-- it asks for a change of a register -/
def asks : Act → Bool
  | .enrol .. => true
  | _ => false

/-- the procedure asks for a change of a register, and the device is closed -/
def refused (i : Nat) (g : Agenda) (op : Op) : Bool :=
  isOf i op && (g.lists[i]?.bind List.head?).any asks && g.device.lifecycle = .closed

/-- A scan has ended, or its time is up. What it leads to is a procedure that begins. -/
def endScan (g : Agenda) (scan : Scan) : Agenda := { g with lists := g.lists ++ [g.device.discoverActs scan] }

theorem act_registers (d : Device) {a : Act} (ha : enrols a = false) :
    (d.act a).1.fixed = d.fixed ∧ (d.act a).1.discovered = d.discovered := by
  rcases act_sensors d a with hsame | ⟨partition, added, removed, rfl⟩ | rfl
  · exact ⟨hsame.fixed, hsame.discovered⟩
  · cases ha
  · obtain ⟨pool, hpool⟩ := syncPool_eq d
    have hact : (d.act .syncPool).1 = { d with engine := { d.engine with pool } } := hpool
    rw [hact]
    exact ⟨rfl, rfl⟩

theorem enrolling_of_head {i : Nat} {a : Act} {rest : List Act} (hi : g.lists[i]? = some (a :: rest)) :
    g.enrolling (.proceed i) = enrols a := by simp [enrolling, hi]

/-- whatever happens that is no change of a register leaves both registers as they were -/
theorem perform_registers {op : Op} (h : g.enrolling op = false) :
    (g.perform op).device.fixed = g.device.fixed ∧ (g.perform op).device.discovered = g.device.discovered := by
  cases op with
  | begin p => exact ⟨rfl, rfl⟩
  | besides b => exact (besides_sensors g.device b).1
  | proceed i =>
    show (g.proceed i).device.fixed = _ ∧ (g.proceed i).device.discovered = _
    rcases proceed_cases g i with hg | ⟨a, rest, hi, hg⟩ <;> rw [hg]
    · exact ⟨rfl, rfl⟩
    · exact act_registers g.device ((enrolling_of_head hi).symm.trans h)

theorem performAll_registers {ops : List Op} (h : g.never enrolling ops = true) :
    (g.performAll ops).device.fixed = g.device.fixed ∧ (g.performAll ops).device.discovered = g.device.discovered := by
  induction ops generalizing g with
  | nil => exact ⟨rfl, rfl⟩
  | cons op ops ih =>
    obtain ⟨hop, hops⟩ := never_cons.1 h
    obtain ⟨hfixed, hdiscovered⟩ := ih hops
    obtain ⟨hfixed', hdiscovered'⟩ := perform_registers hop
    exact ⟨hfixed.trans hfixed', hdiscovered.trans hdiscovered'⟩

theorem prepares_of_not_enrolling {op : Op} (h : g.enrolling op = false) : g.prepares op = none := by
  cases op with
  | proceed i =>
    show (g.lists[i]?.bind List.head?).bind (preparation g.device) = none
    have h : (g.lists[i]?.bind List.head?).any enrols = false := h
    cases hhead : g.lists[i]?.bind List.head? with
    | none => rfl
    | some a =>
      rw [hhead] at h
      exact preparation_of_not_enrols g.device h
  | _ => rfl

/-! ## How far a change is -/

/-- the sensors that were ready when they were prepared -/
def readyOf (done : List (Sensor × Bool)) : List Sensor := (done.filter Prod.snd).map Prod.fst

theorem readyOf_append (done : List (Sensor × Bool)) (s : Sensor) (ok : Bool) :
    readyOf (done ++ [(s, ok)]) = if ok then readyOf done ++ [s] else readyOf done := by
  unfold readyOf
  cases ok <;> simp

/-- What a change of the discovered register has still to do, what the register is then, and which sensors have been
prepared for it. -/
inductive Progress (register : Register) (added : List Sensor) (removed : List String) :
    List Act → Register → List (Sensor × Bool) → Prop
  | asked : Progress register added removed [.enrol .discovered added removed] register []
  | preparing (done : List (Sensor × Bool)) (waiting : List Sensor) (h : done.map Prod.fst ++ waiting = added) :
    Progress register added removed [.prepare .discovered waiting (readyOf done) removed] register done
  | placing (done : List (Sensor × Bool)) (h : done.map Prod.fst = added) :
    Progress register added removed [.place .discovered (readyOf done) removed, .syncPool, .readModel] register done
  | placed (done : List (Sensor × Bool)) (h : done.map Prod.fst = added) (rest : List Act)
    (hrest : ∀ a ∈ rest, enrols a = false) :
    Progress register added removed rest (Register.addAll (removed.foldl Keyed.erase register) (readyOf done)) done

section

variable {register fixed : Register} {added : List Sensor} {removed : List String} {done : List (Sensor × Bool)}

/-- what an act leaves to be done has nothing to do with a register if nothing before had -/
theorem enrols_left (d : Device) {a : Act} {rest : List Act} (h : ∀ a' ∈ a :: rest, enrols a' = false) :
    ∀ a' ∈ left d a rest, enrols a' = false := by
  intro a' ha'
  unfold left at ha'
  split at ha'
  · rename_i next hnext
    rcases List.mem_append.1 ha' with ha' | ha'
    · exact enrols_of_calls (calls_of_mem hnext ha') (h a List.mem_cons_self)
    · exact h a' (List.mem_cons_of_mem a ha')
  · cases ha'

/-- A change goes on by its next act, if the device is not closed when it begins. -/
theorem Progress.act {d : Device} {a : Act} (hopen : asks a = true → d.lifecycle ≠ .closed) {rest : List Act}
    (h : Progress register added removed (a :: rest) d.discovered done) :
    Progress register added removed (left d a rest) (d.act a).1.discovered (done ++ (preparation d a).toList) ∧
      (d.act a).1.fixed = d.fixed := by
  -- how far the change is fixes the register, so that a case of it can only be opened for a variable
  generalize hcurrent : d.discovered = current at h
  cases h with
  | asked =>
    have hleft : left d (.enrol .discovered added removed) [] = [.prepare .discovered added [] removed] := by
      simp [left, Device.act, hopen rfl]
    rw [hleft]
    exact ⟨hcurrent.symm ▸ .preparing [] added rfl, rfl⟩
  | preparing _ waiting hdone =>
    cases waiting with
    | nil =>
      have hnone : preparation d (.prepare .discovered [] (readyOf done) removed) = none := rfl
      rw [hnone, Option.toList_none, List.append_nil]
      exact ⟨hcurrent.symm ▸ .placing done (by rw [← hdone, List.append_nil]), rfl⟩
    | cons s waiting =>
      let ok := d.engine.fleet.prepares s
      have hleft : left d (.prepare .discovered (s :: waiting) (readyOf done) removed) [] =
          [.prepare .discovered waiting (readyOf (done ++ [(s, ok)])) removed] := by
        rw [readyOf_append]
        rfl
      have hnext : (done ++ [(s, ok)]).map Prod.fst ++ waiting = added := by
        rw [← hdone, List.map_append, List.append_assoc]
        rfl
      rw [hleft]
      exact ⟨hcurrent.symm ▸ .preparing _ waiting hnext, rfl⟩
  | placing _ hdone =>
    have hnone : preparation d (.place .discovered (readyOf done) removed) = none := rfl
    rw [hnone, Option.toList_none, List.append_nil, ← hcurrent]
    exact ⟨.placed done hdone [.syncPool, .readModel] (by decide), rfl⟩
  | placed _ hdone _ hrest =>
    have ha := hrest a List.mem_cons_self
    obtain ⟨hfixed, hdiscovered⟩ := act_registers d ha
    rw [preparation_of_not_enrols d ha, Option.toList_none, List.append_nil, hdiscovered, hcurrent]
    exact ⟨.placed done hdone _ (enrols_left d hrest), hfixed⟩

/-- the procedure `i` is that far -/
structure Underway (register fixed : Register) (added : List Sensor) (removed : List String) (i : Nat)
    (done : List (Sensor × Bool)) (g : Agenda) : Prop where
  progress : ∃ acts, g.lists[i]? = some acts ∧ Progress register added removed acts g.device.discovered done
  fixed : g.device.fixed = fixed

variable {i : Nat}

/-- what others do leaves the procedure where it is -/
theorem Underway.other (h : Underway register fixed added removed i done g) {op : Op} (hof : isOf i op = false)
    (hop : g.enrolling op = false) : Underway register fixed added removed i done (g.perform op) := by
  obtain ⟨hfixed, hdiscovered⟩ := perform_registers hop
  obtain ⟨acts, hi, hprogress⟩ := h.progress
  refine ⟨⟨acts, ?_, hdiscovered ▸ hprogress⟩, hfixed.trans h.fixed⟩
  cases op with
  | begin p =>
    show (g.lists ++ [p.acts])[i]? = some acts
    rw [List.getElem?_append_left (List.getElem?_eq_some_iff.1 hi).1]
    exact hi
  | besides b => exact hi
  | proceed j =>
    have hne : j ≠ i := of_decide_eq_false hof
    show (g.proceed j).lists[i]? = some acts
    rcases proceed_cases g j with hg | ⟨a, rest, hj, hg⟩ <;> rw [hg]
    · exact hi
    · rw [List.getElem?_set_ne hne]
      exact hi

/-- the procedure does its next act, if there is one -/
theorem Underway.own (h : Underway register fixed added removed i done g) (hopen : refused i g (.proceed i) = false) :
    Underway register fixed added removed i (done ++ (g.prepares (.proceed i)).toList) (g.perform (.proceed i)) := by
  obtain ⟨acts, hi, hprogress⟩ := h.progress
  cases acts with
  | nil =>
    have hperform : g.perform (.proceed i) = g := by simp only [perform, proceed, hi]
    have hprepares : g.prepares (.proceed i) = none := by simp [prepares, hi]
    rw [hperform, hprepares, Option.toList_none, List.append_nil]
    exact h
  | cons a rest =>
    have hlt : i < g.lists.length := (List.getElem?_eq_some_iff.1 hi).1
    have hperform : g.perform (.proceed i) = ⟨(g.device.act a).1, g.lists.set i (left g.device a rest)⟩ := by
      simp only [perform, proceed, hi]
    have hprepares : g.prepares (.proceed i) = preparation g.device a := by simp [prepares, hi]
    have hasks : asks a = true → g.device.lifecycle ≠ .closed := fun ha hclosed => by
      simp [refused, isOf, hi, ha, hclosed] at hopen
    obtain ⟨hprogress', hfixed⟩ := hprogress.act hasks
    rw [hperform, hprepares]
    exact ⟨⟨_, List.getElem?_set_self hlt, hprogress'⟩, hfixed.trans h.fixed⟩

theorem Underway.perform (h : Underway register fixed added removed i done g) {op : Op}
    (hbesides : enrollingBesides i g op = false) (hopen : refused i g op = false) :
    Underway register fixed added removed i (done ++ (g.prepares op).toList) (g.perform op) := by
  unfold enrollingBesides at hbesides
  cases hof : isOf i op with
  | true =>
    cases op with
    | proceed j =>
      obtain rfl : j = i := of_decide_eq_true hof
      exact h.own hopen
    | _ => cases hof
  | false =>
    have hop : g.enrolling op = false := by simpa [hof] using hbesides
    rw [prepares_of_not_enrolling hop, Option.toList_none, List.append_nil]
    exact h.other hof hop

theorem Underway.performAll (h : Underway register fixed added removed i done g) {ops : List Op}
    (hbesides : g.never (enrollingBesides i) ops = true) (hopen : g.never (refused i) ops = true) :
    Underway register fixed added removed i (done ++ g.prepared ops) (g.performAll ops) := by
  induction ops generalizing g done with
  | nil => exact (List.append_nil done).symm ▸ h
  | cons op ops ih =>
    obtain ⟨hop, hops⟩ := never_cons.1 hbesides
    obtain ⟨hfirst, hrest⟩ := never_cons.1 hopen
    rw [prepared, ← List.append_assoc]
    exact ih (h.perform hop hfirst) hops hrest

/-- when a change is through, the register is what it was to become, and all sensors have been prepared in order -/
theorem Underway.finished (h : Underway register fixed added removed i done g) (hi : g.lists[i]? = some []) :
    done.map Prod.fst = added ∧
      g.device.discovered = Register.addAll (removed.foldl Keyed.erase register) (readyOf done) := by
  obtain ⟨acts, hacts, hprogress⟩ := h.progress
  obtain rfl : acts = [] := Option.some.inj (hacts.symm.trans hi)
  generalize hcurrent : g.device.discovered = current at hprogress
  cases hprogress with
  | placed _ hdone _ _ => exact ⟨hdone, rfl⟩

end

/-! ## What a scan comes to -/

/-- what the end of a scan leads to begins with the change of the register, if there is anything to change -/
theorem underway_endScan {scan : Scan} {counts : Nat × Nat} (h : (g.device.discover scan).2 = .ok counts)
    {found : List Sensor} (hfound : scan.result = .ok found) :
    Underway g.device.discovered g.device.fixed (g.device.discovered.diff found).1 (g.device.discovered.diff found).2
      g.lists.length [] (g.endScan scan) := by
  have hlist : (g.endScan scan).lists[g.lists.length]? = some (g.device.discoverActs scan) :=
    List.getElem?_concat_length
  refine ⟨⟨_, hlist, ?_⟩, rfl⟩
  show Progress _ _ _ (g.device.discoverActs scan) g.device.discovered []
  rw [discoverActs_of_ok h hfound]
  split_ifs with hnothing
  · obtain ⟨hadded, hremoved⟩ := Prod.mk.inj hnothing
    rw [List.length_eq_zero_iff.1 hadded, List.length_eq_zero_iff.1 hremoved]
    exact .placed [] rfl [] (by simp)
  · exact .asked

section

variable {register fixed : Register} {found : List Sensor} {i : Nat} {done : List (Sensor × Bool)}

/-- when what a scan leads to is through, the register is what it has found, as far as the new sensors were ready -/
theorem Underway.find? (h : Underway register fixed (register.diff found).1 (register.diff found).2 i done g)
    (hi : g.lists[i]? = some []) (id : String) :
    g.device.discovered.find? id = register.afterScan found (readyOf done) id := by
  obtain ⟨hdone, hregister⟩ := h.finished hi
  rw [hregister]
  refine Register.addAll_diff_find? register found (fun s hs => ?_) id
  obtain ⟨p, hp, rfl⟩ := List.mem_map.1 hs
  have hs : p.1 ∈ (register.diff found).1 := hdone ▸ List.mem_map_of_mem (List.mem_filter.1 hp).1
  exact Register.not_contains_of_mem_diff hs

/-- if all new sensors were ready, another scan that finds the same ids has nothing to do -/
theorem Underway.discover_again (h : Underway register fixed (register.diff found).1 (register.diff found).2 i done g)
    (hi : g.lists[i]? = some []) (hall : ∀ p ∈ done, p.2 = true) {again : Scan} {found' : List Sensor}
    (hfound' : again.result = .ok found') (htime : again.takes.millis ≤ g.device.scanTimeout.millis)
    (hsame : ∀ id, (found'.any fun s => s.id = id) = found.any fun s => s.id = id) :
    g.device.discover again = (g.device, .ok (0, 0)) := by
  obtain ⟨hdone, hregister⟩ := h.finished hi
  have hready : readyOf done = (register.diff found).1 := by
    unfold readyOf
    rw [List.filter_eq_self.2 hall, hdone]
  refine discover_of_same hfound' htime fun id => ?_
  rw [hregister, hready, hsame]
  exact Register.contains_addAll_diff register found id

end

/-- **A scan makes the register what it has found.** While a scan goes on, and then while what it leads to is done, act
by act, anything else may happen in between but for another change of a register. If the scan ends well, and the device
is not closed when the change of the register begins, then when it is through

- each sensor that the scan has found under a new id has been prepared once, in the order of the scan, and no other, and
  so count the instruments, if they are left to the device,
- what was registered before is still there as it was if the scan has found its id, and else it is gone, and under a new
  id is the last sensor of that id that was ready, if any,
- the fixed sensors are the same, and
- if all new sensors were ready, a scan that finds the same ids tells that there was nothing to do, and does nothing.

So it is too if it is all done without a break. A scan that fails or takes too long changes nothing at all. -/
theorem discovery_converges (g : Agenda) (during after : List Op) (scan : Scan)
    (hduring : g.never enrolling during = true)
    (hafter : ((g.performAll during).endScan scan).never (enrollingBesides (g.performAll during).lists.length) after =
      true) :
    let ended := g.performAll during
    let begun := ended.endScan scan
    let returned := begun.performAll after
    let register := g.device.discovered
    (ended.device.discover scan).1 = (ended.device.run (ended.device.discoverActs scan)).1 ∧
      (∀ found counts, scan.result = .ok found → (ended.device.discover scan).2 = .ok counts →
        let fresh := found.filter fun s => !register.contains s.id
        (begun.never (refused ended.lists.length) after = true → returned.lists[ended.lists.length]? = some [] →
          ((begun.prepared after).map Prod.fst = fresh ∧
            ((∀ op ∈ after, op.replaces = false) →
              ended.device.engine.fleet.Prepared returned.device.engine.fleet fresh)) ∧
          (∀ id, returned.device.discovered.find? id =
            register.afterScan found (readyOf (begun.prepared after)) id) ∧
          returned.device.fixed = g.device.fixed ∧
          ((∀ p ∈ begun.prepared after, p.2 = true) → ∀ again found', again.result = .ok found' →
            again.takes.millis ≤ returned.device.scanTimeout.millis →
            (∀ id, (found'.any fun s => s.id = id) = found.any fun s => s.id = id) →
              returned.device.discover again = (returned.device, .ok (0, 0)))) ∧
        (ended.device.lifecycle ≠ .closed →
          ((ended.device.discover scan).1.engine.fleet = ended.device.engine.fleet.prepareAll fresh ∧
            ended.device.engine.fleet.Prepared (ended.device.discover scan).1.engine.fleet fresh) ∧
          (∀ id, (ended.device.discover scan).1.discovered.find? id =
            register.afterScan found (fresh.filter ended.device.engine.fleet.prepares) id) ∧
          (ended.device.discover scan).1.fixed = g.device.fixed)) ∧
      (ended.device.scanTimeout.millis < scan.takes.millis ∨ (∃ cause, scan.result = .error cause) →
        (∃ failure, ended.device.discover scan = (ended.device, .error failure)) ∧
          ended.device.discoverActs scan = [] ∧ ended.device.discovered = register ∧
          ended.device.fixed = g.device.fixed) := by
  intro ended begun returned register
  obtain ⟨hfixed, hdiscovered⟩ := performAll_registers hduring
  refine ⟨discover_eq ended.device scan, ?_, fun hfails => ?_⟩
  · intro found counts hfound hcounts fresh
    refine ⟨fun hopen hthrough => ?_, fun hopen => ?_⟩
    · have hunder := (underway_endScan hcounts hfound).performAll hafter hopen
      rw [List.nil_append, hdiscovered] at hunder
      have hprepared : (begun.prepared after).map Prod.fst = fresh := (hunder.finished hthrough).1
      refine ⟨⟨hprepared, fun hleft => ?_⟩, hunder.find? hthrough, hunder.fixed.trans hfixed,
        fun hall _ _ hfound' htime hsame => hunder.discover_again hthrough hall hfound' htime hsame⟩
      rw [← hprepared]
      exact performAll_prepared (g := begun) hleft
    · have henrolled := discover_enrolled hopen hcounts hfound
      rw [hdiscovered] at henrolled
      have hfleet : (ended.device.discover scan).1.engine.fleet = ended.device.engine.fleet.prepareAll fresh :=
        henrolled.fleet
      refine ⟨⟨hfleet, ?_⟩, fun id => ?_, henrolled.fixed.trans hfixed⟩
      · rw [hfleet]
        exact Fleet.prepareAll_prepared _ fresh
      · rw [henrolled.discovered, place, hdiscovered]
        exact Register.addAll_diff_find? register found
          (fun s hs => Register.not_contains_of_mem_diff (List.mem_filter.1 hs).1) id
  · exact ⟨discover_of_failed hfails, discoverActs_of_failed hfails, hdiscovered, hfixed⟩

/-- two sensors are registered when the device begins to initialize and the buses are scanned -/
def scanning : Agenda :=
  let old : Register := .ofSensors [⟨3, "other", [.humidity]⟩, ⟨4, "gone", [.current]⟩]
  new { bench with discovered := old }

/-- the initialization goes on while the register is changed -/
def interleaved : List Op := [1, 0, 1, 0, 1, 1, 0, 0, 1, 1, 1, 0, 1].map .proceed

theorem through_of_isEmpty {i : Nat} (h : g.lists[i]?.any List.isEmpty = true) : g.lists[i]? = some [] := by
  obtain ⟨acts, hi, hempty⟩ := (Option.any_eq_true _ _).1 h
  exact hi.trans (congrArg some (List.isEmpty_iff.1 hempty))

theorem discovery_converges_interleaved :
    let ended := scanning.performAll [.begin .init]
    let probe : Sensor := ⟨1, "probe", [.current]⟩
    let crowded : Scan :=
      ⟨⟨0⟩, .ok [⟨0, "probe", [.humidity]⟩, ⟨5, "other", [.humidity]⟩, probe, ⟨2, "spare", [.temperature]⟩]⟩
    let healthy : Scan := ⟨⟨20⟩, .ok [⟨5, "other", [.humidity]⟩, probe]⟩
    let returned := (ended.endScan crowded).performAll interleaved
    let returned' := (ended.endScan healthy).performAll interleaved
    (returned.device.discovered.find? "probe" = some probe ∧ returned.device.discovered.find? "spare" = none ∧
        returned.device.discovered.find? "other" = some ⟨3, "other", [.humidity]⟩ ∧
        returned.device.discovered.find? "gone" = none) ∧
      (returned.device.engine.fleet[2]?).map Instrument.inits = some 1 ∧
      returned'.device.discover healthy = (returned'.device, .ok (0, 0)) := by
  intro ended probe crowded healthy returned returned'
  have hduring : scanning.never enrolling [.begin .init] = true := by decide +kernel
  obtain ⟨-, hcrowded, -⟩ := discovery_converges scanning [.begin .init] interleaved crowded hduring (by decide +kernel)
  obtain ⟨-, hhealthy, -⟩ := discovery_converges scanning [.begin .init] interleaved healthy hduring (by decide +kernel)
  have hthrough : returned.lists[ended.lists.length]? = some [] := through_of_isEmpty (by decide +kernel)
  have hthrough' : returned'.lists[ended.lists.length]? = some [] := through_of_isEmpty (by decide +kernel)
  obtain ⟨⟨-, hcounts⟩, hfind, -⟩ := (hcrowded _ (3, 1) rfl rfl).1 (by decide +kernel) hthrough
  obtain ⟨-, -, -, hagain⟩ := (hhealthy _ (1, 1) rfl rfl).1 (by decide +kernel) hthrough'
  refine ⟨⟨?probe, ?spare, ?other, ?gone⟩, ?counts,
    hagain (by decide +kernel) healthy _ rfl (by decide +kernel) fun _ => rfl⟩
  case counts =>
    rw [hcounts (by simp [interleaved, Op.replaces]) 2]
    decide +kernel
  all_goals
    rw [hfind]
    decide +kernel

end Agenda

end SensorNode
