/-
Requests that a login has stored are ordered once. Whatever else goes on in a device, and however many logins and
replays there are: when all that has begun is through and the device operates, nothing is pending, and for requirements
that were stored and not touched since, the engine was handed one order (`activated_once`).

What is followed through a run is that the orders sent for such requirements are what their request has become
(`Planner.Carries`): none while it is pending, and one from then on. That nothing is pending at the end is
`Sound.none_pending`.
-/
import SensorNode.Proofs.Device.Agenda

namespace SensorNode

namespace Agenda

open Device

variable {g : Agenda} {q : Requirements} {sent : List Order}

/-- the orders that the engine is handed during a run -/
def handed (g : Agenda) : List Op → List Order
  | [] => []
  | op :: ops => g.device.engine.newOrders (g.perform op).device.engine ++ (g.perform op).handed ops

/-- the next act of a procedure clears the requests -/
def clears (g : Agenda) : Op → Bool
  | .proceed i =>
    match g.lists[i]? with
    | some (.clearRequests :: _) => true
    | _ => false
  | _ => false

/-- all requests are cleared, or a change says something of the requirements with this id -/
def touches (id : String) (g : Agenda) (op : Op) : Bool := g.clears op || g.hearsOf (ofRequirements id) op

/-- the next act of the procedure stores these requirements; it does nothing if their id is taken -/
def Stores (g : Agenda) (i : Nat) (q : Requirements) : Prop :=
  (∃ rest, g.lists[i]? = some (.storePending q :: rest)) ∧ (g.device.toPlanner.storePending q).1 = true

/-! ## The requirements through a run -/

/-- a closed device stays closed -/
theorem perform_closed (h : Sound g) (hclosed : g.device.lifecycle = .closed) (op : Op) :
    (g.perform op).device.lifecycle = .closed := by
  cases op with
  | begin p => exact hclosed
  | proceed i =>
    show (g.proceed i).device.lifecycle = .closed
    rcases proceed_cases g i with hg | ⟨a, rest, hi, hg⟩ <;> rw [hg]
    · exact hclosed
    · exact act_closed hclosed (h.fits _ (List.mem_of_getElem? hi)).2.1
  | besides b =>
    rcases besides_cases g.device b with ⟨m, hm, hb⟩ | ⟨n, rfl⟩ | ⟨n, rfl⟩ | ⟨event, rfl⟩ | ⟨change, rfl⟩
    · show (g.device.besides b).lifecycle = .closed
      rw [hb]
      exact (move_spares hm).lifecycle.trans hclosed
    · exact hclosed
    · rcases handle_planner g.device n with ⟨hnow, -⟩ | ⟨-, hlife⟩
      · exact hnow
      · exact hlife.trans hclosed
    · exact hclosed
    · exact hclosed

theorem performAll_closed (h : Sound g) (hclosed : g.device.lifecycle = .closed) (ops : List Op) :
    (g.performAll ops).device.lifecycle = .closed := by
  induction ops generalizing g with
  | nil => exact hclosed
  | cons op ops ih => exact ih (perform_sound h op) (perform_closed h hclosed op)

/-- while nothing touches requirements, the orders for them are what their request has become -/
def Follows (g g' : Agenda) (q : Requirements) (sent : List Order) : Prop :=
  g'.device.toPlanner.Carries q (sent ++ (g.device.engine.newOrders g'.device.engine).filter (·.serves q.id))

theorem proceed_follows (h : Sound g) (hcarries : g.device.toPlanner.Carries q sent) (i : Nat)
    (htouch : touches q.id g (.proceed i) = false) (hopen : (g.proceed i).device.lifecycle ≠ .closed) :
    Follows g (g.proceed i) q sent := by
  rcases proceed_cases g i with hg | ⟨a, rest, hi, hg⟩ <;> rw [hg] at hopen ⊢
  · exact hcarries.quiet (Planner.Quiet.refl _)
  have hmem : a :: rest ∈ g.lists := List.mem_of_getElem? hi
  have hbefore : g.device.lifecycle ≠ .closed := fun hclosed => hopen (act_closed hclosed (h.fits _ hmem).2.1)
  rcases act_cases g.device a with hquiet | ⟨q', rfl⟩ | rfl | rfl | rfl
  · exact hcarries.quiet hquiet
  · exact hcarries.storePending q'
  · exact hcarries.replay h.planner (h.takesOrders hbefore).isOpen
  · simp [touches, clears, hi] at htouch
  · exact absurd (h.shuts _ hmem List.mem_cons_self) hbefore

theorem listen_follows (h : Sound g) (hcarries : g.device.toPlanner.Carries q sent) (n : Nat)
    (htouch : touches q.id g (.besides (.task (.listener n))) = false) (hopen : g.device.lifecycle ≠ .closed) :
    Follows g (g.perform (.besides (.task (.listener n)))) q sent := by
  have hopen : g.device.engine.isOpen = true := (h.takesOrders hopen).isOpen
  have hlink : ∀ link, Planner.Carries { g.device.toPlanner with link } q sent := fun _ => hcarries
  have other : ∀ {event id v}, g.device.hears n = some (.requirements, event) → event.requirements? = some (id, v) →
      q.id ≠ id := by
    rintro event id v hhears hnews rfl
    have hsaid : event.requirementsOf q.id = some v := by
      rw [ChangeEvent.requirementsOf, ChangeEvent.newsOf_of_some hnews, if_pos rfl]
    simp [touches, hearsOf, heard, ofRequirements, hhears, hsaid] at htouch
  show (g.device.listen n).toPlanner.Carries q
    (sent ++ (g.device.engine.newOrders (g.device.listen n).toPlanner.engine).filter (·.serves q.id))
  rcases listen_planner g.device n with hquiet | ⟨event, link, hhears, ⟨id, hnews, hplanner⟩ | ⟨q', hnews, hplanner⟩⟩
  · exact hcarries.quiet hquiet
  · rw [hplanner]
    exact (hlink link).withdraw (other hhears hnews)
  · rw [hplanner]
    exact (hlink link).submit hopen (other hhears hnews)

theorem perform_follows (h : Sound g) (hcarries : g.device.toPlanner.Carries q sent) {op : Op}
    (htouch : touches q.id g op = false) (hopen : (g.perform op).device.lifecycle ≠ .closed) :
    Follows g (g.perform op) q sent := by
  cases op with
  | begin p => exact hcarries.quiet (Planner.Quiet.refl _)
  | proceed i => exact proceed_follows h hcarries i htouch hopen
  | besides b =>
    have quiet : Planner.Quiet g.device.toPlanner (g.device.besides b).toPlanner →
        Follows g (g.perform (.besides b)) q sent := hcarries.quiet
    rcases besides_cases g.device b with ⟨m, hm, hb⟩ | ⟨n, rfl⟩ | ⟨n, rfl⟩ | ⟨event, rfl⟩ | ⟨change, rfl⟩
    · exact quiet (by rw [hb]; exact move_quiet hm g.device)
    · exact listen_follows h hcarries n htouch fun hclosed => hopen (perform_closed h hclosed _)
    · rcases handle_planner g.device n with ⟨hclosed, -⟩ | ⟨hplanner, -⟩
      · exact absurd hclosed hopen
      · exact quiet (Planner.Quiet.of_eq (congrArg Planner.requests hplanner) (congrArg Planner.engine hplanner))
    · exact quiet (Planner.Quiet.refl _)
    · exact quiet (Planner.Quiet.of_eq rfl rfl)

theorem performAll_carries (h : Sound g) (hcarries : g.device.toPlanner.Carries q sent) {ops : List Op}
    (hnever : g.never (touches q.id) ops = true) (hopen : (g.performAll ops).device.lifecycle ≠ .closed) :
    (g.performAll ops).device.toPlanner.Carries q (sent ++ (g.handed ops).filter (·.serves q.id)) := by
  induction ops generalizing g sent with
  | nil => rwa [handed, List.filter_nil, List.append_nil]
  | cons op ops ih =>
    obtain ⟨htouch, hnever⟩ := never_cons.1 hnever
    have hsound := perform_sound h op
    have hfirst : (g.perform op).device.lifecycle ≠ .closed := fun hclosed =>
      hopen (performAll_closed hsound hclosed ops)
    rw [handed, List.filter_append, ← List.append_assoc]
    exact ih hsound (perform_follows h hcarries htouch hfirst) hnever hopen

theorem Stores.carries {i : Nat} (h : g.Stores i q) : (g.perform (.proceed i)).device.toPlanner.Carries q [] := by
  obtain ⟨⟨rest, hi⟩, hstore⟩ := h
  have hproceed : g.perform (.proceed i) =
      ⟨(g.device.act (.storePending q)).1, g.lists.set i (left g.device (.storePending q) rest)⟩ := by
    simp only [perform, proceed, hi]
  rw [hproceed]
  exact Planner.storePending_carries hstore

theorem start_sound (id : String) (harvestTimeout scanTimeout : Duration) (policy : Reduction) (threshold : Float) :
    Sound (new (Device.new id harvestTimeout scanTimeout policy threshold)) :=
  new_sound (Planner.new_sound id harvestTimeout policy) ⟨rfl, rfl⟩ rfl

/-! ## What all have done when they are through -/

/--
**Stored requirements are ordered once.** Let procedures begin and do their acts in any order, with anything else in
between. When all are through and the device operates, no request is pending. And if an act stored requirements which
nothing has withdrawn, replaced or cleared since, then they are still kept as they were stored, and among all the orders
that the engine was handed from then on there is exactly one for them: a single reading if their period is zero, and a
subscription if not.
-/
theorem activated_once (id : String) (harvestTimeout scanTimeout : Duration) (policy : Reduction) (threshold : Float)
    (ops : List Op) :
    let start := new (Device.new id harvestTimeout scanTimeout policy threshold)
    let g := start.performAll ops
    (∀ acts ∈ g.lists, acts = []) → g.device.lifecycle = .operating →
      (∀ id r, g.device.requests.find? id = some r → r.isPending = false) ∧
      ∀ before i after q, ops = before ++ .proceed i :: after → (start.performAll before).Stores i q →
        let stored := (start.performAll before).perform (.proceed i)
        stored.never (touches q.id) after = true →
          ∃ r order, g.device.requests.find? q.id = some r ∧ r.declared = q ∧ r.order? = some order ∧
            (order.cadence = .once ↔ q.period = 0) ∧ (stored.handed after).filter (·.serves q.id) = [order] := by
  intro start g hthrough hlife
  have hstart : Sound start := start_sound id harvestTimeout scanTimeout policy threshold
  have hnone : ∀ id r, g.device.requests.find? id = some r → r.isPending = false := fun id r hr =>
    Bool.eq_false_iff.2 fun hpending =>
      (performAll_sound hstart ops).none_pending hthrough hlife ⟨id, r, hr, hpending⟩
  refine ⟨hnone, ?_⟩
  rintro before i after q rfl hstores stored hnever
  have hbefore : Sound (start.performAll before) := performAll_sound hstart before
  have hg : g = stored.performAll after := performAll_append start before (.proceed i :: after)
  have hopen : (stored.performAll after).device.lifecycle ≠ .closed := by
    rw [← hg, hlife]
    decide
  obtain ⟨r, hfind, hdeclared, hfitting, hsent⟩ :=
    performAll_carries (perform_sound hbefore _) hstores.carries hnever hopen
  rw [← hg] at hfind
  have hpending := hnone q.id r hfind
  obtain ⟨order, horder⟩ : ∃ order, r.order? = some order := by
    refine Option.ne_none_iff_exists'.1 fun hno => ?_
    rw [ReadingsRequest.order?_eq_none.1 hno] at hpending
    cases hpending
  refine ⟨r, order, hfind, hdeclared, horder, ?_, ?_⟩
  · have hsingle : r.subscription = .oneShot ↔ r.period = 0 := hfitting hpending
    have hperiod : r.period = q.period := congrArg Requirements.period hdeclared
    rw [ReadingsRequest.once_iff horder, hsingle, hperiod]
  · rw [horder, List.nil_append] at hsent
    exact hsent

/-- An init is through, two logins are about to store the same requirements, and the device has just begun to operate. -/
def twoLogins : List Op :=
  [.besides (.link fun k =>
      { k with ledger := (k.ledger.putAsset (spotAsset "a1")).putRequirements (spotRequirements "r1" "a1") }),
    .begin .init, .begin (.login spotDevice), .begin (.login spotDevice), .begin .operate] ++
  List.replicate 8 (.proceed 0) ++ List.replicate 10 (.proceed 1) ++ List.replicate 10 (.proceed 2) ++ [.proceed 3]

/-- all three replay, the one that operates first -/
def threeReplays : List Op := [3, 3, 1, 2, 1, 2, 2, 3].map .proceed

theorem activated_once_two_logins :
    let start := new (Device.new "dev-1" ⟨500⟩ ⟨1000⟩ .mean 10.0)
    let stored := (start.performAll twoLogins).perform (.proceed 1)
    ∃ order, order.cadence ≠ .once ∧ (stored.handed threeReplays).filter (·.serves "r1") = [order] := by
  obtain ⟨-, honce⟩ := activated_once "dev-1" ⟨500⟩ ⟨1000⟩ .mean 10.0 (twoLogins ++ .proceed 1 :: threeReplays)
    (by decide +kernel) (by decide +kernel)
  obtain ⟨r, order, -, -, -, hcadence, hhanded⟩ :=
    honce twoLogins 1 threeReplays (spotRequirements "r1" "a1") rfl ⟨⟨[.checkOperating], rfl⟩, by decide +kernel⟩
      (by decide +kernel)
  exact ⟨order, ⟨fun hsingle => absurd (hcadence.1 hsingle) (by decide), hhanded⟩⟩

end Agenda

end SensorNode
