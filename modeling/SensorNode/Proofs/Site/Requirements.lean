/-
The requests that a site keeps, as what its listener to requirements makes of them. The listener takes in the events of
its stream one after the other, and in between the assets that the site keeps change (`Turn`). An event that can be read
gives up what is under its id, and after that orders what it brings, if the asset is kept then (`Replaces`). So under an
id there is what the last such event has brought, the subscriptions of all that was there before are cancelled, and each
request that was accepted has been announced, as it was then (`requirements_outcome`).
-/
import SensorNode.Proofs.Planning.Replacement
import SensorNode.Proofs.Receivers
import SensorNode.Proofs.Site.Assets

namespace SensorNode

namespace Site

variable {s : Site} {n : Nat} {event : ChangeEvent} {rest : List ChangeEvent}

/-! ## One event -/

/-- the request that an event comes to: it must bring requirements, and the site must keep their asset -/
def accepted (s : Site) (event : ChangeEvent) : Option ReadingsRequest :=
  ((event.requirements?.bind Prod.snd).filter fun q => s.assets.contains q.assetId).map fun q => q.ordered s.engine

theorem accepted_eq_some_iff (s : Site) (event : ChangeEvent) (r : ReadingsRequest) :
    s.accepted event = some r ↔ event.kind ≠ .removed ∧ ∃ q, event.decode? Requirements.ofRaw? = some q ∧
      s.assets.contains q.assetId = true ∧ r = q.ordered s.engine := by
  have hbrings : ∀ q, event.requirements?.bind Prod.snd = some q ↔
      event.kind ≠ .removed ∧ event.decode? Requirements.ofRaw? = some q := by
    intro q
    unfold ChangeEvent.requirements? ChangeEvent.news?
    cases event.kind with
    | removed => cases event.decode? Entity.idOfRaw? <;> simp
    | inserted | updated => cases event.decode? Requirements.ofRaw? <;> simp
  unfold accepted
  simp only [Option.map_eq_some_iff, Option.filter_eq_some_iff, hbrings]
  constructor
  · rintro ⟨q, ⟨⟨hkind, hdecode⟩, hnear⟩, rfl⟩
    exact ⟨hkind, q, hdecode, hnear, rfl⟩
  · rintro ⟨hkind, q, hdecode, hnear, rfl⟩
    exact ⟨q, ⟨⟨hkind, hdecode⟩, hnear⟩, rfl⟩

theorem news_of_isSome {id : String} (h : (event.requirementsOf id).isSome) :
    ∃ v, event.requirements? = some (id, v) := by
  rcases hnews : event.requirements? with _ | ⟨id', v⟩
  · rw [ChangeEvent.requirementsOf, ChangeEvent.newsOf_of_none hnews] at h
    cases h
  · rw [ChangeEvent.requirementsOf, ChangeEvent.newsOf_of_some hnews] at h
    split_ifs at h with hid
    · exact ⟨v, hid ▸ rfl⟩
    · cases h

/-- what an event that can be read does to the requests -/
theorem applyRequirements_replaces (hopen : s.engine.isOpen = true) {id : String}
    (h : (event.requirementsOf id).isSome) :
    Planner.Replaces id (s.accepted event) s.toPlanner (s.applyRequirements event).toPlanner := by
  rw [applyRequirements_eq_ordered]
  obtain ⟨_ | q, hnews⟩ := news_of_isSome h <;> unfold accepted <;> rw [hnews]
  · exact Planner.withdraw_drops s.toPlanner id
  · obtain rfl := ChangeEvent.key_eq_of_news? hnews
    obtain ⟨hsubmit, hreplaces⟩ := Planner.submit_replaces hopen q
    rw [hsubmit] at hreplaces
    rw [ordered_planner]
    simpa [Option.filter_some, apply_ite] using hreplaces

/-- what is accepted is announced, and nothing else is -/
theorem applyRequirements_bus (hopen : s.engine.isOpen = true) (event : ChangeEvent) :
    (s.applyRequirements event).bus = s.bus.emitAll ((s.accepted event).toList.map fun r => .submitted [r]) := by
  rw [applyRequirements_eq_ordered]
  unfold accepted
  match hnews : event.requirements? with
  | none => rfl
  | some (id, none) => rfl
  | some (id, some q) =>
    have hsubmit := (Planner.submit_replaces hopen q).1
    unfold ordered
    dsimp only
    rw [hsubmit]
    by_cases hnear : s.assets.contains q.assetId = true <;> simp [hnear, emit, Bus.emitAll, Option.filter_some]

/-- an event that cannot be read does nothing -/
theorem applyRequirements_of_none (s : Site) (h : event.requirements? = none) : s.applyRequirements event = s := by
  rw [applyRequirements_eq_ordered, h]
  rfl

theorem id_of_accepted {id : String} (h : (event.requirementsOf id).isSome) {r : ReadingsRequest}
    (hr : s.accepted event = some r) : r.id = id := by
  obtain ⟨v, hnews⟩ := news_of_isSome h
  unfold accepted at hr
  rw [hnews] at hr
  obtain ⟨q, hq, rfl⟩ := Option.map_eq_some_iff.1 hr
  obtain rfl : v = some q := (Option.filter_eq_some_iff.1 hq).1
  have hid : q.id = id := ChangeEvent.key_eq_of_news? hnews
  exact hid

/-! ## A stream of events -/

/-- what goes on while the listener to requirements takes in events -/
inductive Turn
  /-- the listener takes in its next event, which is this one -/
  | take (event : ChangeEvent)
  /-- these are now the assets that the site keeps -/
  | keep (assets : Assets)

def turn (n : Nat) (s : Site) : Turn → Site
  | .take _ => s.listen n
  | .keep assets => { s with assets }

def turnAll (n : Nat) (s : Site) (turns : List Turn) : Site := turns.foldl (turn n) s

/-- the events that are taken in -/
def eventsOf : List Turn → List ChangeEvent
  | [] => []
  | .take event :: turns => event :: eventsOf turns
  | .keep _ :: turns => eventsOf turns

/-- the requests that are accepted, each as it is then, oldest first -/
def acceptedOf (n : Nat) (s : Site) : List Turn → List ReadingsRequest
  | [] => []
  | .take event :: turns => (s.accepted event).toList ++ (s.turn n (.take event)).acceptedOf n turns
  | .keep assets :: turns => (s.turn n (.keep assets)).acceptedOf n turns

theorem eventsOf_append (turns turns' : List Turn) : eventsOf (turns ++ turns') = eventsOf turns ++ eventsOf turns' := by
  induction turns with
  | nil => rfl
  | cons turn turns ih => cases turn <;> simp [eventsOf, ih]

theorem turnAll_append (n : Nat) (s : Site) (turns turns' : List Turn) :
    s.turnAll n (turns ++ turns') = (s.turnAll n turns).turnAll n turns' := List.foldl_append

variable {turns : List Turn}

/-- what the listener to requirements makes of one event -/
theorem Attends.takeRequirements (h : s.Attends n .requirements (event :: rest)) (hopen : s.engine.isOpen = true) :
    (s.listen n).Attends n .requirements rest ∧ (s.listen n).engine.isOpen = true ∧
      (s.listen n).bus = s.bus.emitAll ((s.accepted event).toList.map fun r => .submitted [r]) ∧
      (event.requirements? = none → ∃ link, s.listen n = { s with link }) ∧
      (∀ id, event.requirementsOf id = none → (s.listen n).requests.find? id = s.requests.find? id) ∧
      ∀ id, (event.requirementsOf id).isSome →
        Planner.Replaces id (s.accepted event) s.toPlanner (s.listen n).toPlanner := by
  obtain ⟨link, hlisten, hattends⟩ := h.listen
  have hlisten : s.listen n = { s with link }.applyRequirements event := hlisten
  refine ⟨hattends, ?_, ?_, ?_, ?_, ?_⟩
  · rw [hlisten]
    exact (applyRequirements_rebooked { s with link } event).isOpen.trans hopen
  · rw [hlisten]
    exact applyRequirements_bus (s := { s with link }) hopen event
  · intro hnone
    exact ⟨link, hlisten.trans (applyRequirements_of_none _ hnone)⟩
  · intro id hnone
    rw [hlisten]
    exact applyRequirements_find?_of_none { s with link } hnone
  · intro id hsome
    rw [hlisten]
    exact (applyRequirements_replaces (s := { s with link }) hopen hsome).of_eq rfl rfl

/-- what events keep to that are not about these requirements -/
theorem Attends.takeRequirements_keeps (h : s.Attends n .requirements (event :: rest)) (hopen : s.engine.isOpen = true) :
    (∀ handle, s.engine.flags.isCancelled handle = true → (s.listen n).engine.flags.isCancelled handle = true) ∧
      (s.toPlanner.Accounted → (s.listen n).toPlanner.Accounted) ∧
      ∀ id handle, event.requirementsOf id = none → s.toPlanner.Owns id handle →
        (s.listen n).toPlanner.Owns id handle := by
  obtain ⟨-, -, -, hmalformed, -, hreplaces⟩ := h.takeRequirements hopen
  rcases hnews : event.requirements? with _ | ⟨id', v⟩
  · obtain ⟨link, hlisten⟩ := hmalformed hnews
    rw [hlisten]
    exact ⟨fun _ hc => hc, fun ⟨hheld, hcancelled⟩ => ⟨hheld, hcancelled⟩,
      fun _ _ _ ⟨hissued, hlive, halone⟩ => ⟨hissued, hlive, halone⟩⟩
  · have hof : ∀ id, event.requirementsOf id = if id = id' then some v else none :=
      ChangeEvent.newsOf_of_some hnews
    have hreplaces := hreplaces id' (by rw [hof, if_pos rfl]; rfl)
    refine ⟨fun _ hc => hreplaces.isCancelled (Or.inl hc), hreplaces.accounted, fun id handle hnone howns => ?_⟩
    refine hreplaces.owns ?_ howns
    rintro rfl
    rw [hof, if_pos rfl] at hnone
    cases hnone

/-- the listener goes on to the end, announces what it accepts, and leaves alone what no event is about -/
theorem Attends.turnAll (h : s.Attends n .requirements (eventsOf turns ++ rest)) (hopen : s.engine.isOpen = true) :
    let done := s.turnAll n turns
    done.Attends n .requirements rest ∧ done.engine.isOpen = true ∧
      done.bus = s.bus.emitAll ((s.acceptedOf n turns).map fun r => .submitted [r]) ∧
      (∀ handle, s.engine.flags.isCancelled handle = true → done.engine.flags.isCancelled handle = true) ∧
      (s.toPlanner.Accounted → done.toPlanner.Accounted) ∧
      ∀ id, (∀ event ∈ eventsOf turns, event.requirementsOf id = none) →
        done.requests.find? id = s.requests.find? id ∧
          ∀ handle, s.toPlanner.Owns id handle → done.toPlanner.Owns id handle := by
  induction turns generalizing s with
  | nil => exact ⟨h, hopen, rfl, fun _ hc => hc, fun ha => ha, fun _ _ => ⟨rfl, fun _ ho => ho⟩⟩
  | cons turn turns ih =>
    cases turn with
    | take event =>
      obtain ⟨hattends, hopen', hbus, -, hfind, -⟩ := Attends.takeRequirements h hopen
      obtain ⟨hcancelled, haccounted, howns⟩ := Attends.takeRequirements_keeps h hopen
      obtain ⟨hrest, hopen'', hbus', hcancelled', haccounted', hkept⟩ := ih hattends hopen'
      refine ⟨hrest, hopen'', ?_, fun _ hc => hcancelled' _ (hcancelled _ hc), fun ha => haccounted' (haccounted ha), ?_⟩
      · refine hbus'.trans ?_
        rw [hbus, acceptedOf, List.map_append]
        exact List.foldl_append.symm
      · intro id hnone
        have hevent := hnone event List.mem_cons_self
        obtain ⟨hfind', howns'⟩ := hkept id fun later hlater => hnone later (List.mem_cons_of_mem event hlater)
        exact ⟨hfind'.trans (hfind id hevent), fun handle ho => howns' handle (howns id handle hevent ho)⟩
    | keep assets =>
      obtain ⟨hrest, hopen', hbus, hcancelled, haccounted, hkept⟩ := ih (s := s.turn n (.keep assets)) h hopen
      refine ⟨hrest, hopen', hbus, hcancelled, fun ⟨hheld, hraised⟩ => haccounted ⟨hheld, hraised⟩, fun id hnone => ?_⟩
      obtain ⟨hfind, howns⟩ := hkept id hnone
      exact ⟨hfind, fun handle ⟨hissued, hlive, halone⟩ => howns handle ⟨hissued, hlive, halone⟩⟩

/-- **The requirements listener.** It takes in the events of its stream, however the assets change in between that the
site keeps, and none of them stops it. Of each event that is accepted the request is announced, and nothing else is.
Requests that no event is about stay as they are. An event that cannot be read does nothing. Any other first cancels what
is held under its id, for good, and then orders the request that it comes to. Under an id that events are about there is
a request afterwards if and only if the last of them brings requirements and their asset was kept then; it is the one
that the event has brought, for a single reading if it has no period, and else with the handle that was next, which is
live. -/
theorem requirements_outcome (h : s.Attends n .requirements (eventsOf turns ++ rest)) (hopen : s.engine.isOpen = true) :
    let done := s.turnAll n turns
    let told : List DomainEvent := (s.acceptedOf n turns).map fun r => .submitted [r]
    done.Attends n .requirements rest ∧
      done.bus = { s.bus with events := told.reverse ++ s.bus.events, sent := s.bus.sent + told.length } ∧
      (∀ id, (∀ event ∈ eventsOf turns, event.requirementsOf id = none) →
        done.requests.find? id = s.requests.find? id) ∧
      ∀ before event after, turns = before ++ .take event :: after →
        let s' := s.turnAll n before
        (event.requirements? = none → ∃ link, s'.listen n = { s' with link }) ∧
          ∀ id, (event.requirementsOf id).isSome →
            Planner.Replaces id (s'.accepted event) s'.toPlanner (s'.listen n).toPlanner ∧
              (∀ handle, s'.toPlanner.Has id handle → done.engine.flags.isCancelled handle = true) ∧
              ((∀ later ∈ eventsOf after, later.requirementsOf id = none) →
                (∀ r, done.requests.find? id = some r ↔
                  event.kind ≠ .removed ∧ ∃ q, event.decode? Requirements.ofRaw? = some q ∧
                    s'.assets.contains q.assetId = true ∧ r = q.ordered s'.engine) ∧
                (s.toPlanner.Accounted → ∀ handle, done.toPlanner.Has id handle → done.toPlanner.IsLive handle)) := by
  intro done told
  obtain ⟨hattends, -, hbus, -, -, hkept⟩ := h.turnAll hopen
  refine ⟨hattends, hbus.trans (s.bus.emitAll_eq told), fun id hnone => (hkept id hnone).1, ?_⟩
  rintro before event after rfl s'
  rw [eventsOf_append, List.append_assoc] at h
  obtain ⟨hthen, hopen', -, -, haccounted, -⟩ := h.turnAll hopen
  obtain ⟨hnext, hopen'', -, hmalformed, -, hreplaces⟩ := Attends.takeRequirements hthen hopen'
  obtain ⟨-, -, -, hcancelled, -, hafter⟩ := hnext.turnAll hopen''
  have hdone : done = (s'.listen n).turnAll n after := turnAll_append n s before (.take event :: after)
  refine ⟨hmalformed, fun id hnamed => ?_⟩
  have hreplaces := hreplaces id hnamed
  refine ⟨hreplaces, fun handle hhas => ?_, fun hlast => ?_⟩
  · rw [hdone]
    exact hcancelled handle (hreplaces.isCancelled (Or.inr hhas))
  · obtain ⟨hfind, howns⟩ := hafter id hlast
    have hentry : done.requests.find? id = s'.accepted event := by
      rw [hdone, hfind, hreplaces.find? (fun r hr => id_of_accepted hnamed hr), if_pos rfl]
    refine ⟨fun r => by rw [hentry]; exact s'.accepted_eq_some_iff event r, ?_⟩
    rintro ha handle ⟨r, hr, hh⟩
    have hr : s'.accepted event = some r := hentry.symm.trans hr
    have hnew := hreplaces.owns_new (haccounted ha) hr (ReadingsRequest.handle?_eq_some.2 hh)
    rw [id_of_accepted hnamed hr] at hnew
    rw [hdone]
    exact (howns handle hnew).live

/-- a site that listens to requirements, in whose stream these events wait; it keeps no asset yet -/
def demanded (events : List ChangeEvent) : Site :=
  let s := new "dev-1" ⟨500⟩ .mean 10.0
  let s := ({ s with identity := (s.identity.adopt spotDevice).2 } : Site).start.listen 2
  { s with link := { s.link with ledger := events.foldl (fun l event => l.publish .requirements event) s.link.ledger } }

/-- Requirements come for an asset that is kept, and after an event that cannot be read they are changed to another that
is not. Between the two there is a live subscription, and afterwards there is nothing. -/
theorem requirements_outcome_asset_changed :
    let put : ChangeEvent := .of .inserted (spotRequirements "r1" "a1").toJson
    let malformed : ChangeEvent := ⟨.updated, .null⟩
    let changed : ChangeEvent := .of .updated (spotRequirements "r1" "a2").toJson
    let kept : Assets := Keyed.empty.insert "a1" (spotAsset "a1")
    let turns : List Turn := [.keep kept, .take put, .take malformed, .keep kept]
    let s := demanded [put, malformed, changed]
    (s.turnAll 2 turns).IsLive ⟨0⟩ ∧ (s.turnAll 2 (turns ++ [.take changed])).Attends 2 .requirements [] ∧
      (s.turnAll 2 (turns ++ [.take changed])).requests.find? "r1" = none ∧
      (s.turnAll 2 (turns ++ [.take changed])).engine.flags.isCancelled ⟨0⟩ = true ∧
      (s.turnAll 2 (turns ++ [.take changed])).bus =
        { s.bus with
          events := .submitted [(spotRequirements "r1" "a1").ordered s.engine] :: s.bus.events
          sent := s.bus.sent + 1 } := by
  intro put malformed changed kept turns s
  have hattends : s.Attends 2 .requirements [put, malformed, changed] :=
    ⟨0, ⟨.requirements, [put, malformed, changed], 0, false, false⟩, rfl, rfl, rfl⟩
  have hopen : s.engine.isOpen = true := rfl
  have haccounted : s.toPlanner.Accounted := ⟨fun id h ⟨r, hr, _⟩ => (by cases hr), fun h hc => (by cases hc)⟩
  have hput : put.decode? Requirements.ofRaw? = some (spotRequirements "r1" "a1") := Requirements.decode_of _ _
  have hchanged : changed.decode? Requirements.ofRaw? = some (spotRequirements "r1" "a2") := Requirements.decode_of _ _
  have hputOf : put.requirementsOf "r1" = some (some (spotRequirements "r1" "a1")) :=
    (ChangeEvent.newsOf_of_some (ChangeEvent.requirements?_put (spotRequirements "r1" "a1") false) "r1").trans
      (if_pos rfl)
  have hchangedOf : changed.requirementsOf "r1" = some (some (spotRequirements "r1" "a2")) :=
    (ChangeEvent.newsOf_of_some (ChangeEvent.requirements?_put (spotRequirements "r1" "a2") true) "r1").trans
      (if_pos rfl)
  have hnear : kept.contains "a1" = true := by decide
  have hfar : kept.contains "a2" = false := by decide
  -- until the change
  obtain ⟨-, -, -, hevents⟩ := requirements_outcome
    (show s.Attends 2 .requirements (eventsOf turns ++ [changed]) from hattends) hopen
  obtain ⟨-, -, hlast⟩ := (hevents [.keep kept] put [.take malformed, .keep kept] rfl).2 "r1" (by rw [hputOf]; rfl)
  obtain ⟨hentry, hlive⟩ := hlast fun later hlater => by rw [List.mem_singleton.1 hlater]; rfl
  have hhas : (s.turnAll 2 turns).toPlanner.Has "r1" ⟨0⟩ :=
    ⟨_, (hentry _).2 ⟨by decide, _, hput, hnear, rfl⟩, rfl⟩
  -- with the change
  obtain ⟨hdrained, hbus, -, hevents⟩ := requirements_outcome
    (show s.Attends 2 .requirements (eventsOf (turns ++ [.take changed]) ++ []) from hattends) hopen
  obtain ⟨-, hcancelled, hlast⟩ := (hevents turns changed [] rfl).2 "r1" (by rw [hchangedOf]; rfl)
  obtain ⟨hentry, -⟩ := hlast fun later hlater => by cases hlater
  have haccepted : s.acceptedOf 2 (turns ++ [.take changed]) = [(spotRequirements "r1" "a1").ordered s.engine] := by
    have hfirst : (s.turn 2 (.keep kept)).accepted put = some ((spotRequirements "r1" "a1").ordered s.engine) :=
      (accepted_eq_some_iff ..).2 ⟨by decide, _, hput, hnear, rfl⟩
    have hnone : ∀ s : Site, s.accepted malformed = none := fun s => rfl
    have hlate : ∀ s : Site, (s.turn 2 (.keep kept)).accepted changed = none := by
      refine fun s => Option.eq_none_iff_forall_ne_some.2 fun r hr => ?_
      obtain ⟨-, q, hq, hkept, -⟩ := (accepted_eq_some_iff ..).1 hr
      obtain rfl := Option.some.inj (hchanged.symm.trans hq)
      exact absurd (hkept.symm.trans hfar) (by decide)
    simp only [turns, List.cons_append, List.nil_append, acceptedOf, hfirst, hnone, hlate, Option.toList_some,
      Option.toList_none]
  rw [haccepted] at hbus
  refine ⟨hlive haccounted _ hhas, hdrained, ?_, hcancelled _ hhas, hbus⟩
  refine Option.eq_none_iff_forall_ne_some.2 fun r hr => ?_
  obtain ⟨-, q, hq, hkept, -⟩ := (hentry r).1 hr
  obtain rfl := Option.some.inj (hchanged.symm.trans hq)
  exact absurd (hkept.symm.trans hfar) (by decide)

end Site

end SensorNode
