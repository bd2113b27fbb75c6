/-
The orders that are placed in a run of the planner, one after the other, each with the request that it is placed for, as
the request is at that moment. The engine makes jobs of them in the same order, so that the number of an order among all
that have been placed is the name of its job (`Numbered`). What becomes of the request later makes no difference to that.
-/
import SensorNode.Proofs.Planning.Activation
import SensorNode.Proofs.Reading.Numbering

namespace SensorNode

/-- an order that is placed, and the request that it is for; an order of another caller is for none -/
structure Placement where
  order : Order
  request : Option ReadingsRequest

/-- the order that a request has become, placed for the request as it is -/
def ReadingsRequest.placement? (r : ReadingsRequest) : Option Placement := r.order?.map fun o => ⟨o, some r⟩

/-- the order is that of the request, or one whose readings are not for the ledger -/
def Placement.Fits (x : Placement) : Prop :=
  match x.request with
  | some r => r.order? = some x.order
  | none => ∃ label hold, x.order.recipient = .listener label hold

namespace Planner

variable {p : Planner}

/-- the requests as they are when they have been ordered one after the other -/
def enlisted (p : Planner) : List ReadingsRequest → List ReadingsRequest
  | [] => []
  | r :: rs => (p.enlist r).1 :: (p.enlist r).2.enlisted rs

/-- the requests that an operation activates, each as it is then -/
def activated (p : Planner) : Op → List ReadingsRequest
  | .submit q => (p.submit q).1.toList
  | .replayPending => p.enlisted p.requests.pending
  | _ => []

/-- the orders that an operation places; an engine that is closed takes none -/
def placed (p : Planner) (op : Op) : List Placement :=
  if p.engine.isOpen then
    match op with
    | .sendOnce label hold metrics => [⟨⟨metrics, .listener label hold, .once⟩, none⟩]
    | op => (p.activated op).filterMap ReadingsRequest.placement?
  else []

/-- the orders that are placed in a run, oldest first -/
def placements (p : Planner) : List Op → List Placement
  | [] => []
  | op :: ops => p.placed op ++ (p.step op).1.placements ops

theorem placed_fits (p : Planner) (op : Op) : ∀ x ∈ p.placed op, x.Fits := by
  intro x hx
  unfold placed at hx
  split_ifs at hx
  · split at hx
    · rw [List.mem_singleton.1 hx]
      exact ⟨_, _, rfl⟩
    · obtain ⟨r, -, hr⟩ := List.mem_filterMap.1 hx
      obtain ⟨o, ho, rfl⟩ := Option.map_eq_some_iff.1 hr
      exact ho
  · cases hx

theorem placements_fit (p : Planner) (ops : List Op) : ∀ x ∈ p.placements ops, x.Fits := by
  induction ops generalizing p with
  | nil => exact fun x hx => absurd hx List.not_mem_nil
  | cons op ops ih =>
    intro x hx
    rcases List.mem_append.1 hx with hx | hx
    · exact placed_fits p op x hx
    · exact ih _ x hx

theorem placements_append (p : Planner) (ops ops' : List Op) :
    p.placements (ops ++ ops') = p.placements ops ++ (p.run ops).placements ops' := by
  induction ops generalizing p with
  | nil => rfl
  | cons op ops ih => rw [List.cons_append, placements, placements, ih, List.append_assoc, run_cons]

/-! ## What is placed is queued -/

theorem map_order_placement? (rs : List ReadingsRequest) :
    (rs.filterMap ReadingsRequest.placement?).map Placement.order = rs.filterMap ReadingsRequest.order? := by
  rw [List.map_filterMap]
  congr 1
  funext r
  rw [ReadingsRequest.placement?, Option.map_map]
  exact Option.map_id'

theorem enlistAll_queue (p : Planner) (rs : List ReadingsRequest) :
    (rs.foldl (fun p r => (p.enlist r).2) p).engine.queue =
      p.engine.queue ++ if p.engine.isOpen then (p.enlisted rs).filterMap ReadingsRequest.order? else [] := by
  induction rs generalizing p with
  | nil => simp [enlisted]
  | cons r rs ih =>
    have hsame : (p.enlist r).2.engine.isOpen = p.engine.isOpen := (activate_rebooked p r).isOpen
    have hqueue : (p.enlist r).2.engine.queue = (p.activate r).2.engine.queue := rfl
    rw [List.foldl_cons, ih, hsame, hqueue]
    cases hopen : p.engine.isOpen with
    | false => simp [activate_queue_of_closed hopen]
    | true =>
      have hfirst : (p.enlisted (r :: rs)).filterMap ReadingsRequest.order? =
          (p.activate r).1.order?.toList ++ ((p.enlist r).2.enlisted rs).filterMap ReadingsRequest.order? := by
        show ((p.activate r).1 :: (p.enlist r).2.enlisted rs).filterMap ReadingsRequest.order? = _
        cases horder : (p.activate r).1.order? with
        | none => rw [List.filterMap_cons_none horder]; rfl
        | some o => rw [List.filterMap_cons_some horder]; rfl
      rw [if_pos rfl, if_pos rfl]
      calc (p.activate r).2.engine.queue ++ ((p.enlist r).2.enlisted rs).filterMap ReadingsRequest.order?
          = (p.engine.queue ++ (p.activate r).1.order?.toList) ++
              ((p.enlist r).2.enlisted rs).filterMap ReadingsRequest.order? := by
            rw [(activate_of_open hopen r).2.2]
        _ = p.engine.queue ++ (p.enlisted (r :: rs)).filterMap ReadingsRequest.order? := by
            rw [List.append_assoc, hfirst]

theorem submit_queue (p : Planner) (q : Requirements) :
    (p.submit q).2.engine.queue =
      p.engine.queue ++ if p.engine.isOpen then (p.submit q).1.toList.filterMap ReadingsRequest.order? else [] := by
  have hsame : (p.withdraw q.id).2.engine.isOpen = p.engine.isOpen := (withdraw_rebooked p q.id).isOpen
  have hone := enlistAll_queue (p.withdraw q.id).2 [.ofRequirements q]
  rw [hsame, withdraw_queue] at hone
  unfold submit
  dsimp only
  by_cases hnear : (p.withdraw q.id).2.assets.contains q.assetId = true
  · rw [if_pos hnear]
    exact hone
  · rw [if_neg hnear, withdraw_queue]
    simp

/-- dropping requests concerns nothing but the flags -/
theorem cancelRequests_eq (p : Planner) (rs : List ReadingsRequest) :
    ∃ flags, rs.foldl cancelRequest p = { p with engine := { p.engine with flags } } := by
  induction rs generalizing p with
  | nil => exact ⟨_, rfl⟩
  | cons r rs ih => exact ih (p.cancelRequest r)

/-- an operation that is not the engine's own only places and cancels orders -/
theorem step_rebooked {op : Op} (hop : ∀ m, op ≠ .reader m) : p.engine.Rebooked (p.step op).1.engine := by
  cases op with
  | submit q => exact submit_rebooked p q
  | withdraw id => exact withdraw_rebooked p id
  | storePending q => simp only [step, storePending]; split_ifs <;> exact .refl _
  | replayPending => exact enlistAll_rebooked p _
  | cancelAll =>
    obtain ⟨flags, h⟩ := cancelRequests_eq p p.requests.values
    exact ⟨flags, _, _, congrArg Planner.engine h⟩
  | clear =>
    obtain ⟨flags, h⟩ := cancelRequests_eq { p with requests := ∅ } p.requests.values
    exact ⟨flags, _, _, congrArg Planner.engine h⟩
  | sendOnce label hold metrics =>
    simp only [step, Engine.sendOnce]
    split_ifs <;> exact ⟨_, _, _, rfl⟩
  | reader m => exact absurd rfl (hop m)
  | _ => exact .refl _

theorem step_queue {op : Op} (hop : ∀ m, op ≠ .reader m) :
    (p.step op).1.engine.queue = p.engine.queue ++ (p.placed op).map Placement.order := by
  have nothing : p.placed op = [] → (p.step op).1.engine.queue = p.engine.queue →
      (p.step op).1.engine.queue = p.engine.queue ++ (p.placed op).map Placement.order := by
    intro hnone hqueue
    rw [hnone, hqueue, List.map_nil, List.append_nil]
  cases op with
  | submit q =>
    simp only [step, placed, activated, submit_queue]
    split_ifs
    · rw [map_order_placement?]
    · rfl
  | replayPending =>
    simp only [step, placed, activated, replayPending, enlistAll_queue]
    split_ifs
    · rw [map_order_placement?]
    · rfl
  | sendOnce label hold metrics =>
    simp only [step, placed, Engine.sendOnce]
    split_ifs <;> simp
  | reader m => exact absurd rfl (hop m)
  | withdraw id => exact nothing (by simp [placed, activated]) (withdraw_queue p id)
  | storePending q => exact nothing (by simp [placed, activated]) (by simp only [step, storePending]; split_ifs <;> rfl)
  | cancelAll =>
    obtain ⟨flags, h⟩ := cancelRequests_eq p p.requests.values
    exact nothing (by simp [placed, activated]) (congrArg (·.engine.queue) h)
  | clear =>
    obtain ⟨flags, h⟩ := cancelRequests_eq { p with requests := ∅ } p.requests.values
    exact nothing (by simp [placed, activated]) (congrArg (·.engine.queue) h)
  | _ => exact nothing (by simp [placed, activated]) rfl

/-! ## The names of jobs -/

/-- The orders that have been placed are named in their order: those that have a name have left the queue, and a job has
the order of its name. -/
structure Numbered (placements : List Placement) (e : Engine) : Prop where
  named : e.nextJob ≤ placements.length
  queue : e.isOpen = true → e.queue = (placements.drop e.nextJob).map Placement.order
  jobs : ∀ name job, e.jobs.find? name = some job → placements[name]?.map Placement.order = some job.order

section

variable {placements : List Placement} {e : Engine}

/-- it is a matter of the orders, whatever requests they are for -/
theorem numbered_iff : Numbered placements e ↔ Engine.Numbered (placements.map Placement.order) e := by
  constructor
  · intro h
    refine ⟨by simpa using h.named, fun hopen => ?_, fun name job hj => ?_⟩
    · rw [h.queue hopen, List.map_drop]
    · rw [List.getElem?_map]
      exact h.jobs name job hj
  · intro h
    refine ⟨by simpa using h.named, fun hopen => ?_, fun name job hj => ?_⟩
    · rw [h.queue hopen, List.map_drop]
    · rw [← List.getElem?_map]
      exact h.jobs name job hj

/-- orders are placed behind the others -/
theorem Numbered.place (h : Numbered placements e) {e' : Engine} (hbooked : e.Rebooked e') {new : List Placement}
    (hqueue : e'.queue = e.queue ++ new.map Placement.order) : Numbered (placements ++ new) e' := by
  have hopen := hbooked.isOpen
  obtain ⟨flags, subscriptions, queue, rfl⟩ := hbooked
  rw [numbered_iff, List.map_append]
  exact (numbered_iff.1 h).place rfl rfl hopen hqueue

theorem new_numbered (timeout : Duration) (policy : Reduction) : Numbered [] (Engine.new timeout policy) :=
  numbered_iff.2 (Engine.new_numbered timeout policy)

end

theorem step_numbered {placements : List Placement} (h : Numbered placements p.engine) (op : Op) :
    Numbered (placements ++ p.placed op) (p.step op).1.engine := by
  by_cases hop : ∀ m, op ≠ .reader m
  · exact h.place (step_rebooked hop) (step_queue hop)
  · obtain ⟨m, rfl⟩ : ∃ m, op = .reader m := by simpa using hop
    obtain ⟨posted, postings, hstep⟩ := step_reader p m
    have hnone : p.placed (.reader m) = [] := by simp [placed, activated]
    rw [hstep, hnone, List.append_nil]
    exact numbered_iff.2 ((numbered_iff.1 h).move m)

theorem run_numbered {placements : List Placement} (h : Numbered placements p.engine) (ops : List Op) :
    Numbered (placements ++ p.placements ops) (p.run ops).engine := by
  induction ops generalizing p placements with
  | nil => exact (List.append_nil placements).symm ▸ h
  | cons op ops ih =>
    rw [Planner.placements, ← List.append_assoc]
    exact ih (step_numbered h op)

end Planner

end SensorNode
