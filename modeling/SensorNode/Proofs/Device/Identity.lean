/-
The identity of a device that tells the ledger what its sensors can read. A push reads the entry, sends the metrics, and
writes the entry that it has read with these metrics, in three acts between which others do theirs. What the entry is
is decided by logins, by the listener of devices, and by resets (`Agenda.decides`).

A push changes nothing but the metrics of the entry that it has read. So the identity ends up with the entry that was
decided last, unless a copy of an earlier one was under way by then (`identity_outcome`): that copy may be written over
the decision, which brings a device back to where it was and logs it on after it has logged off (`identity_overwritten`).
-/
import SensorNode.Proofs.Device.Agenda

namespace SensorNode

/-- an entry without its metrics -/
def DeviceModel.bare (model : DeviceModel) : DeviceModel := { model with supports := [] }

/-- the copy of the entry that is sent on or written by an act -/
def Act.copy? : Act → Option DeviceModel
  | .sendMetrics model _ | .writeModel model _ => some model
  | _ => none

/-- what an act decides about the identity of the device with this id -/
def Act.decides (a : Act) (id : String) : Option (Option DeviceModel) :=
  match a with
  | .adopt model => if model.id = id then some (some model) else none
  | .logOff => some none
  | _ => none

namespace Device

/-! ## What becomes of the identity -/

/-- an entry becomes the identity when it is adopted or written back, and a log-off takes it away -/
theorem act_identity (d : Device) (a : Act) :
    (d.act a).1.identity =
      match a with
      | .adopt model => if model.id = d.identity.id then (d.identity.adopt model).2 else d.identity
      | .writeModel model supports => (d.identity.adopt { model with supports }).2
      | .logOff => d.identity.clear.2
      | _ => d.identity := by
  cases a with
  | startWatch call => exact (Site.stepCall_frame d.toSite call).2.1
  | stopResumption => simp only [act, stopResumption_eq]
  | stopListeners =>
    obtain ⟨listeners, ledger, -, h⟩ := stopListeners_eq d.toSite
    simp only [act, h]
  | prepare partition waiting ready removed => cases waiting <;> rfl
  | place partition added removed => cases partition <;> rfl
  | syncPool =>
    simp only [act, syncPool]
    split_ifs <;> rfl
  | close | adopt _ | transition _ _ =>
    simp only [act]
    split_ifs <;> rfl
  | readModel | sendMetrics _ _ | readOrigin | queryAssets _ | queryRequirements _ | queryDevice | process =>
    simp only [act]
    split <;> rfl
  | _ => rfl

/-- an act that decides nothing about the identity leaves it as it is, or writes a copy of it -/
theorem act_model (d : Device) (a : Act) :
    match a.decides d.identity.id with
    | some v => (d.act a).1.identity.model = v
    | none => (d.act a).1.identity = d.identity ∨
        ∃ model supports, a.copy? = some model ∧ (d.act a).1.identity.model = some { model with supports } := by
  rw [act_identity]
  cases a with
  | adopt model =>
    dsimp only [Act.decides]
    split_ifs
    · rfl
    · exact Or.inl rfl
  | writeModel model supports => exact Or.inr ⟨model, supports, rfl, rfl⟩
  | logOff => rfl
  | _ => exact Or.inl rfl

/-- a listener makes the device's own entry its identity, and does nothing else to it -/
theorem listen_identity (d : Device) (n : Nat) :
    (d.listen n).identity =
      match d.hears n with
      | some (.devices, event) =>
        match event.deviceOf d.identity.id with
        | some (some model) => (d.identity.adopt model).2
        | _ => d.identity
      | _ => d.identity := by
  rcases hhears : d.hears n with _ | ⟨topic, event⟩
  · obtain ⟨watch, link, hlisten⟩ := listen_of_deaf hhears
    rw [hlisten]
  obtain ⟨link, hlisten⟩ := listen_of_hears hhears
  rw [hlisten]
  cases topic with
  | assets =>
    obtain ⟨assets, happly⟩ := Site.applyAsset_eq { d.toSite with link } event
    rw [show Site.applyChange { d.toSite with link } .assets event = _ from happly]
  | devices => exact Site.applyDevice_identity { d.toSite with link } event
  | requirements =>
    obtain ⟨engine, requests, events, sent, happly⟩ := Site.applyRequirements_eq { d.toSite with link } event
    rw [show Site.applyChange { d.toSite with link } .requirements event = _ from happly]

/-- a handler that learns of the device's removal logs it off -/
theorem handle_identity (d : Device) (n : Nat) :
    (d.handle n).identity = if (d.bus.poll n).1 = some .removed then d.identity.clear.2 else d.identity := by
  rcases handle_cases d n with ⟨hremoved, bus, hd⟩ | ⟨hother, bus, watch, hd⟩ <;> rw [hd]
  · rw [if_pos hremoved, (close_kept _).1]
    rfl
  · rw [if_neg hother]

end Device

namespace Agenda

open Device

variable {g : Agenda} {op : Op} {entries : List (Option DeviceModel)}

/-! ## Decisions and copies -/

/-- What is decided about the identity, if this is what happens: a login or the listener of devices brings an entry, and
a reset or a removal takes it away. -/
def decides (g : Agenda) : Op → Option (Option DeviceModel)
  | .proceed i =>
    match g.lists[i]? with
    | some (a :: _) => a.decides g.device.identity.id
    | _ => none
  | .besides (.task (.listener n)) =>
    match g.device.hears n with
    | some (.devices, event) => (event.deviceOf g.device.identity.id).join.map some
    | _ => none
  | .besides (.task (.handler n)) => if (g.device.bus.poll n).1 = some .removed then some none else none
  | _ => none

/-- something is decided about the identity -/
def isDecision (g : Agenda) (op : Op) : Bool := (g.decides op).isSome

/-- the copies of entries that are under way to be written back -/
def copies (g : Agenda) : List DeviceModel := g.lists.flatMap fun l => l.filterMap Act.copy?

theorem mem_copies {model : DeviceModel} : model ∈ g.copies ↔ ∃ l ∈ g.lists, ∃ a ∈ l, a.copy? = some model := by
  simp only [copies, List.mem_flatMap, List.mem_filterMap]

theorem copy?_acts (p : Procedure) : ∀ a ∈ p.acts, a.copy? = none := by
  cases p <;>
    simp [Procedure.acts, initActs, loginActs, operateActs, resetActs, closeActs, pushActs, Act.copy?]

/-- a copy is taken when the entry is read, and handed on from there -/
theorem copy?_next {d : Device} {a a' : Act} {next : List Act} {model : DeviceModel} (hnext : (d.act a).2 = .ok next)
    (h : a' ∈ next) (hcopy : a'.copy? = some model) :
    a.copy? = some model ∨ a = .readModel ∧ d.identity.model = some model := by
  cases calls_of_mem hnext h with
  | send model' supports =>
    refine Or.inr ⟨rfl, ?_⟩
    simp only [act] at hnext
    split at hnext <;> cases hnext
    · rename_i hmodel
      cases List.mem_singleton.1 h
      exact hmodel.trans hcopy
    · cases h
  | write model' supports => exact Or.inl hcopy
  | login model' h =>
    rw [copy?_acts (.login model') a' h] at hcopy
    cases hcopy
  | close h =>
    simp only [List.mem_cons, List.not_mem_nil, or_false] at h
    rcases h with rfl | rfl | rfl | rfl | rfl <;> cases hcopy
  | place partition ready removed h =>
    simp only [List.mem_cons, List.not_mem_nil, or_false] at h
    rcases h with rfl | rfl | rfl <;> cases hcopy
  | _ => cases hcopy

/-- a copy that is under way was so before, or is of what the identity is and nothing is decided about it now -/
theorem copies_perform {model : DeviceModel} (h : model ∈ (g.perform op).copies) :
    model ∈ g.copies ∨ g.decides op = none ∧ g.device.identity.model = some model := by
  obtain ⟨l, hl, a', ha', hcopy⟩ := mem_copies.1 h
  have before : l ∈ g.lists → model ∈ g.copies := fun hl => mem_copies.2 ⟨l, hl, a', ha', hcopy⟩
  cases op with
  | begin p =>
    rcases List.mem_append.1 hl with hl | hl
    · exact Or.inl (before hl)
    · rw [List.mem_singleton.1 hl] at ha'
      rw [copy?_acts p a' ha'] at hcopy
      cases hcopy
  | besides b => exact Or.inl (before hl)
  | proceed i =>
    have hl : l ∈ (g.proceed i).lists := hl
    rcases proceed_cases g i with hg | ⟨a, rest, hi, hg⟩ <;> rw [hg] at hl
    · exact Or.inl (before hl)
    have held : ∀ a'' ∈ a :: rest, a''.copy? = some model → model ∈ g.copies := fun a'' ha'' hcopy'' =>
      mem_copies.2 ⟨_, List.mem_of_getElem? hi, a'', ha'', hcopy''⟩
    rcases List.mem_or_eq_of_mem_set hl with hl | rfl
    · exact Or.inl (before hl)
    unfold left at ha'
    split at ha'
    · rename_i next hnext
      rcases List.mem_append.1 ha' with ha' | ha'
      · rcases copy?_next hnext ha' hcopy with hcopy | ⟨rfl, hmodel⟩
        · exact Or.inl (held a List.mem_cons_self hcopy)
        · exact Or.inr ⟨by simp only [decides, hi, Act.decides], hmodel⟩
      · exact Or.inl (held a' (List.mem_cons_of_mem a ha') hcopy)
    · cases ha'

/-- The identity becomes what is decided; otherwise it stays as it is, but for a copy that is written back. -/
theorem model_perform (g : Agenda) (op : Op) :
    match g.decides op with
    | some v => (g.perform op).device.identity.model = v
    | none => (g.perform op).device.identity = g.device.identity ∨
        ∃ model ∈ g.copies, ∃ supports, (g.perform op).device.identity.model = some { model with supports } := by
  cases op with
  | begin p => exact Or.inl rfl
  | proceed i =>
    rcases hi : g.lists[i]? with _ | _ | ⟨a, rest⟩ <;> simp only [decides, perform, Agenda.proceed, hi, true_or]
    have hact := act_model g.device a
    cases hdecides : a.decides g.device.identity.id with
    | some v =>
      rw [hdecides] at hact
      exact hact
    | none =>
      rw [hdecides] at hact
      apply hact.imp_right
      rintro ⟨model, supports, hcopy, hmodel⟩
      exact ⟨model, mem_copies.2 ⟨_, List.mem_of_getElem? hi, a, List.mem_cons_self, hcopy⟩, supports, hmodel⟩
  | besides b =>
    cases b with
    | task t =>
      cases t with
      | listener n =>
        have hidentity := listen_identity g.device n
        simp only [decides]
        rcases hhears : g.device.hears n with _ | ⟨_ | _ | _, event⟩ <;> rw [hhears] at hidentity <;>
          dsimp only at hidentity ⊢
        · exact Or.inl hidentity
        · exact Or.inl hidentity
        · rcases hsaid : event.deviceOf g.device.identity.id with _ | _ | model <;> rw [hsaid] at hidentity
          · exact Or.inl hidentity
          · exact Or.inl hidentity
          · exact congrArg Identity.model hidentity
        · exact Or.inl hidentity
      | handler n =>
        have hidentity := handle_identity g.device n
        simp only [decides]
        split_ifs at hidentity ⊢
        · exact congrArg Identity.model hidentity
        · exact Or.inl hidentity
      | _ => exact Or.inl rfl
    | _ => exact Or.inl rfl

/-! ## The identity through a run -/

/-- but for the metrics, what the identity is and what is under way to be written back is among these -/
structure Among (entries : List (Option DeviceModel)) (g : Agenda) : Prop where
  identity : g.device.identity.model.map DeviceModel.bare ∈ entries
  copies : ∀ model ∈ g.copies, some model.bare ∈ entries

theorem Among.perform (h : Among entries g) (hop : g.isDecision op = false) : Among entries (g.perform op) where
  identity := by
    have hmodel := model_perform g op
    rw [Option.isSome_eq_false_iff.1 hop |> Option.isNone_iff_eq_none.1] at hmodel
    rcases hmodel with hsame | ⟨model, hcopy, supports, hwritten⟩
    · rw [hsame]
      exact h.identity
    · rw [hwritten]
      exact h.copies model hcopy
  copies model hmodel := by
    rcases copies_perform hmodel with hcopy | ⟨-, hread⟩
    · exact h.copies model hcopy
    · have hidentity := h.identity
      rwa [hread] at hidentity

theorem Among.performAll (h : Among entries g) {ops : List Op} (hnever : g.never isDecision ops = true) :
    Among entries (g.performAll ops) := by
  induction ops generalizing g with
  | nil => exact h
  | cons op ops ih =>
    obtain ⟨hop, hnever⟩ := never_cons.1 hnever
    exact ih (h.perform hop) hnever

/-- a decision is made: from now on there are its entry and the copies that are under way -/
theorem among_decided {v : Option DeviceModel} (h : g.decides op = some v) :
    Among ((v :: g.copies.map some).map (Option.map DeviceModel.bare)) (g.perform op) where
  identity := by
    have hmodel := model_perform g op
    rw [h] at hmodel
    rw [hmodel]
    exact List.mem_map_of_mem List.mem_cons_self
  copies model hmodel := by
    rcases copies_perform hmodel with hcopy | ⟨hnone, -⟩
    · exact List.mem_map_of_mem (f := Option.map DeviceModel.bare) (List.mem_cons_of_mem v (List.mem_map_of_mem hcopy))
    · cases hnone.symm.trans h

/-- **A push changes nothing but the metrics, unless a decision overtakes it.** Let procedures begin and do their acts in
any order, with anything else in between, and look at the identity at any time. If nothing was decided about it, the
device is not logged on. Else it is what was decided last, but for the metrics, or the copy of an entry that was under
way to be written back when this was decided. If there was none, then the device is logged on if and only if the last
decision brought an entry, and all but the metrics is as this entry says. -/
theorem identity_outcome (id : String) (harvestTimeout scanTimeout : Duration) (policy : Reduction)
    (threshold : Float) (ops : List Op) :
    let start := new (Device.new id harvestTimeout scanTimeout policy threshold)
    let identity := (start.performAll ops).device.identity
    (start.never isDecision ops = true → identity.isLoggedOn = false) ∧
      ∀ before op after v, ops = before ++ op :: after →
        let g := start.performAll before
        g.decides op = some v → (g.perform op).never isDecision after = true →
          (∃ entry ∈ v :: g.copies.map some, identity.model.map DeviceModel.bare = entry.map DeviceModel.bare) ∧
            (g.copies = [] → identity.isLoggedOn = v.isSome ∧
              identity.model.map DeviceModel.bare = v.map DeviceModel.bare) := by
  intro start identity
  constructor
  · intro hnever
    have hstart : Among [none] start := ⟨List.mem_cons_self, fun _ hmodel => absurd hmodel List.not_mem_nil⟩
    have hnone := List.mem_singleton.1 (hstart.performAll hnever).identity
    rw [Identity.isLoggedOn, Option.map_eq_none_iff.1 hnone]
    rfl
  · rintro before op after v rfl g hdecides hnever
    have hg : start.performAll (before ++ op :: after) = (g.perform op).performAll after := performAll_append ..
    obtain ⟨entry, hentry, hbare⟩ := List.mem_map.1 ((among_decided hdecides).performAll hnever).identity
    rw [← hg] at hbare
    refine ⟨⟨entry, hentry, hbare.symm⟩, fun hcopies => ?_⟩
    rw [hcopies] at hentry
    obtain rfl := List.mem_singleton.1 hentry
    refine ⟨?_, hbare.symm⟩
    calc identity.isLoggedOn = (identity.model.map DeviceModel.bare).isSome := (Option.isSome_map ..).symm
      _ = entry.isSome := by rw [← hbare, Option.isSome_map]

/-- a device with a probe in use is about to adopt the entry that the ledger holds for it -/
def adopting : List Op :=
  let probe : Sensor := ⟨0, "probe", [.humidity]⟩
  [.besides (.sense 0 [] [] [.scripted probe [] false false true]), .begin (.enrol .fixed [probe] [])] ++
    List.replicate 6 (.proceed 0) ++ [.begin (.login spotDevice)]

/-- two pushes take turns once the login is through -/
def twoPushes : List Op :=
  List.replicate 8 (.proceed 1) ++ [.begin .push, .begin .push] ++ [2, 3, 3, 2, 2, 3].map .proceed

theorem identity_outcome_two_pushes :
    let g := (new (Device.new "dev-1" ⟨500⟩ ⟨1000⟩ .mean 10.0)).performAll (adopting ++ .proceed 1 :: twoPushes)
    (∀ acts ∈ g.lists, acts = []) ∧ g.device.identity.isLoggedOn = true ∧
      g.device.identity.model.map DeviceModel.bare = some spotDevice.bare ∧
      g.device.identity.model.map DeviceModel.supports = some [.humidity] := by
  obtain ⟨-, hdecided⟩ :=
    identity_outcome "dev-1" ⟨500⟩ ⟨1000⟩ .mean 10.0 (adopting ++ .proceed 1 :: twoPushes)
  obtain ⟨hlogged, hbare⟩ :=
    (hdecided adopting (.proceed 1) twoPushes (some spotDevice) rfl (by decide +kernel) (by decide +kernel)).2
      (by decide +kernel)
  exact ⟨by decide +kernel, hlogged, hbare, by decide +kernel⟩

/-- the device is logged on, and a push has read its entry -/
def pushing : Agenda :=
  (new (Device.new "dev-1" ⟨500⟩ ⟨1000⟩ .mean 10.0)).performAll
    (.begin (.login spotDevice) :: List.replicate 9 (.proceed 0) ++ [.begin .push, .proceed 1])

/-- the same device in another place -/
def elsewhere : DeviceModel := { spotDevice with name := "moved", location := ⟨1.0, 1.0⟩ }

/-- Between the two halves of a push the ledger's entry is adopted once more, with a new name and location, or the device
logs off. The push brings the old entry back in either case. -/
theorem identity_overwritten :
    let moved := pushing.performAll [.begin (.login elsewhere), .proceed 2]
    let moved' := moved.performAll ([1, 1].map .proceed ++ List.replicate 8 (.proceed 2))
    let off := pushing.performAll [.begin .reset, .proceed 2, .proceed 2, .proceed 2]
    let off' := off.performAll [.proceed 1, .proceed 1]
    (moved.device.identity.model = some elsewhere ∧ (∀ acts ∈ moved'.lists, acts = []) ∧
        moved'.device.identity.model = some spotDevice) ∧
      off.device.identity.isLoggedOn = false ∧ (∀ acts ∈ off'.lists, acts = []) ∧
        off'.device.identity.isLoggedOn = true := by
  refine ⟨⟨?_, ?_, ?_⟩, ?_, ?_, ?_⟩ <;> decide +kernel

end Agenda

end SensorNode
