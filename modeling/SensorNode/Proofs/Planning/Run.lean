/-
Runs of the planner with the reading engine that it drives: requirements come and go, assets come and go, the ledger
fails or does not, callers of the engine order single readings, and in between the engine goes on in any way. Nobody but
the planner asks the engine for subscriptions.
-/
import SensorNode.Planner
import SensorNode.Proofs.Reading.Jobs

namespace SensorNode

/-- a call that goes through gives what the ledger has to give -/
theorem LedgerLink.attempt_ok {α : Type} {k : LedgerLink} {call : LedgerCall} {value v : α}
    (h : k.attempt call value = .ok v) : v = value := by
  unfold attempt at h
  split at h
  · cases h
  · exact (Except.ok.inj h).symm

namespace Engine

variable {e e' e'' : Engine}

/-- orders have been placed or cancelled; of the engine nothing else is touched -/
def Rebooked (e e' : Engine) : Prop := ∃ flags subscriptions queue, e' = { e with flags, subscriptions, queue }

theorem Rebooked.refl (e : Engine) : Rebooked e e := ⟨e.flags, e.subscriptions, e.queue, rfl⟩

theorem Rebooked.trans (h : Rebooked e e') (h' : Rebooked e' e'') : Rebooked e e'' := by
  obtain ⟨flags, subscriptions, queue, rfl⟩ := h
  obtain ⟨flags', subscriptions', queue', rfl⟩ := h'
  exact ⟨flags', subscriptions', queue', rfl⟩

theorem Rebooked.loop (h : Rebooked e e') : e'.loop = e.loop ∧ e'.stopping = e.stopping := by
  obtain ⟨flags, subscriptions, queue, rfl⟩ := h
  exact ⟨rfl, rfl⟩

theorem Rebooked.isOpen (h : Rebooked e e') : e'.isOpen = e.isOpen := by
  unfold Engine.isOpen
  rw [h.loop.1]

theorem Rebooked.pool (h : Rebooked e e') : e'.pool = e.pool := by
  obtain ⟨flags, subscriptions, queue, rfl⟩ := h
  rfl

theorem Rebooked.fleet (h : Rebooked e e') : e'.fleet = e.fleet := by
  obtain ⟨flags, subscriptions, queue, rfl⟩ := h
  rfl

end Engine

namespace Planner

inductive Op
  | submit (q : Requirements)
  | withdraw (id : String)
  | storePending (q : Requirements)
  | replayPending
  | cancelAll
  | clear
  | assets (assets : Assets)
  | link (link : LedgerLink)
  /-- a caller of the engine orders one reading -/
  | sendOnce (label : String) (hold : Duration) (metrics : List Metric)
  /-- the engine goes on, and what it delivers is taken -/
  | reader (m : Engine.Move)

def step (p : Planner) : Op → Planner × List Engine.Entry
  | .submit q => ((p.submit q).2, [])
  | .withdraw id => ((p.withdraw id).2, [])
  | .storePending q => ((p.storePending q).2, [])
  | .replayPending => (p.replayPending.2, [])
  | .cancelAll => (p.cancelAll.2, [])
  | .clear => (p.clear, [])
  | .assets assets => ({ p with assets }, [])
  | .link link => ({ p with link }, [])
  | .sendOnce label hold metrics => ({ p with engine := p.engine.sendOnce (.listener label hold) metrics }, [])
  | .reader m =>
    let (engine, entries) := p.engine.move m
    (receiveAll { p with engine } (entries.map Engine.Entry.effect), entries)

/-- the planner after a run -/
def run (p : Planner) (ops : List Op) : Planner := ops.foldl (fun p op => (p.step op).1) p

/-- what is to be seen of the engine in a run -/
def log (p : Planner) : List Op → List Engine.Entry
  | [] => []
  | op :: ops => (p.step op).2 ++ log (p.step op).1 ops

variable {p : Planner}

theorem run_cons (p : Planner) (op : Op) (ops : List Op) : p.run (op :: ops) = (p.step op).1.run ops := rfl

theorem log_cons (p : Planner) (op : Op) (ops : List Op) :
    p.log (op :: ops) = (p.step op).2 ++ (p.step op).1.log ops := rfl

/-- a job of the engine that goes on is a case of what the engine may do -/
theorem step_advance (p : Planner) (name : Nat) : (p.step (.reader (.advance name))).1 = (p.advance name).1 := by
  simp only [step, Engine.move, advance]
  cases hj : p.engine.jobs.find? name with
  | none => simp only [Engine.entries, hj, Engine.advance_of_none p.engine name hj, List.map_nil]
  | some job =>
    rw [Engine.entries_of_find? hj, List.map_map]
    exact congrArg _ (List.map_id _)

/-! ## What operations leave as it is -/

/-- the postings of a delivery concern nothing but what has been posted -/
theorem receiveAll_eq (p : Planner) (effects : List Effect) :
    ∃ posted postings, p.receiveAll effects =
      { p with link := { p.link with ledger := { p.link.ledger with posted } }, postings } := by
  induction effects generalizing p with
  | nil => exact ⟨p.link.ledger.posted, p.postings, rfl⟩
  | cons effect effects ih =>
    have hone : ∃ posted postings, p.receiveAll [effect] =
        { p with link := { p.link with ledger := { p.link.ledger with posted } }, postings } := by
      cases effect with
      | started order sensors => exact ⟨_, _, rfl⟩
      | delivered d =>
        simp only [receiveAll, List.foldl_cons, List.foldl_nil, receive]
        split
        · exact ⟨_, _, rfl⟩
        · split_ifs
          · exact ⟨_, _, rfl⟩
          · split
            · rename_i link hpost
              obtain rfl := LedgerLink.attempt_ok hpost
              exact ⟨_, _, rfl⟩
            · exact ⟨p.link.ledger.posted, _, rfl⟩
    obtain ⟨posted, postings, hone⟩ := hone
    obtain ⟨posted', postings', hrest⟩ :=
      ih { p with link := { p.link with ledger := { p.link.ledger with posted } }, postings }
    exact ⟨posted', postings', (congrArg (receiveAll · effects) hone).trans hrest⟩

theorem step_reader (p : Planner) (m : Engine.Move) :
    ∃ posted postings, (p.step (.reader m)).1 =
      { p with
        engine := (p.engine.move m).1
        link := { p.link with ledger := { p.link.ledger with posted } }
        postings := postings } :=
  receiveAll_eq { p with engine := (p.engine.move m).1 } _

/-- what dropping a request comes to for the engine -/
theorem cancelRequest_cases (p : Planner) (r : ReadingsRequest) :
    ((∀ h, r.subscription ≠ .periodic h) ∧ p.cancelRequest r = p) ∨
      ∃ h, r.subscription = .periodic h ∧ p.cancelRequest r = { p with engine := p.engine.cancel h } := by
  unfold cancelRequest ReadingsRequest.cancel
  split
  · rename_i h hs
    exact Or.inr ⟨h, hs, rfl⟩
  · rename_i hnot
    exact Or.inl ⟨hnot, rfl⟩

/-- what ordering a request comes to: one reading, a subscription, or nothing if the engine refuses -/
theorem activate_cases (p : Planner) (r : ReadingsRequest) :
    p.activate r = ({ r with subscription := .oneShot },
        { p with engine := p.engine.sendOnce (.ledger r.id r.assetId) r.metrics }) ∨
      p.activate r = ({ r with subscription := .pending }, p) ∨
      ∃ handle engine, p.engine.subscribe (.ledger r.id r.assetId) (.ofSeconds r.period.toNat) r.metrics =
          .ok (handle, engine) ∧
        p.activate r = ({ r with subscription := .periodic handle }, { p with engine }) := by
  unfold activate
  dsimp only
  split_ifs
  · exact Or.inl rfl
  · split
    · rename_i handle engine hs
      exact Or.inr (Or.inr ⟨handle, engine, hs, rfl⟩)
    · exact Or.inr (Or.inl rfl)

theorem activate_rebooked (p : Planner) (r : ReadingsRequest) : p.engine.Rebooked (p.activate r).2.engine := by
  rcases activate_cases p r with h | h | ⟨handle, engine, he, h⟩ <;> rw [h]
  · unfold Engine.sendOnce
    split_ifs <;> exact ⟨_, _, _, rfl⟩
  · exact .refl _
  · obtain ⟨-, rfl⟩ := Engine.subscribe_ok he
    exact ⟨_, _, _, rfl⟩

theorem enlistAll_rebooked (p : Planner) (rs : List ReadingsRequest) :
    p.engine.Rebooked (rs.foldl (fun p r => (p.enlist r).2) p).engine := by
  induction rs generalizing p with
  | nil => exact .refl _
  | cons r rs ih => exact (activate_rebooked p r).trans (ih (p.enlist r).2)

theorem withdraw_rebooked (p : Planner) (id : String) : p.engine.Rebooked (p.withdraw id).2.engine := by
  unfold withdraw
  split <;> exact ⟨_, _, _, rfl⟩

theorem submit_rebooked (p : Planner) (q : Requirements) : p.engine.Rebooked (p.submit q).2.engine := by
  apply (withdraw_rebooked p q.id).trans
  unfold submit
  dsimp only
  split_ifs
  · exact activate_rebooked (p.withdraw q.id).2 (.ofRequirements q)
  · exact .refl _

theorem activate_id (p : Planner) (r : ReadingsRequest) : (p.activate r).1.id = r.id := by
  rcases activate_cases p r with h | h | ⟨handle, engine, -, h⟩ <;> rw [h]

theorem activate_requests (p : Planner) (r : ReadingsRequest) : (p.activate r).2.requests = p.requests := by
  rcases activate_cases p r with h | h | ⟨handle, engine, -, h⟩ <;> rw [h]

theorem activate_eq (p : Planner) (r : ReadingsRequest) : ∃ engine, (p.activate r).2 = { p with engine } := by
  rcases activate_cases p r with h | h | ⟨handle, engine, -, h⟩ <;> exact ⟨_, congrArg Prod.snd h⟩

/-- but for the engine and the requests nothing is touched when requests are ordered -/
theorem enlistAll_eq (p : Planner) (rs : List ReadingsRequest) :
    ∃ engine requests, rs.foldl (fun p r => (p.enlist r).2) p = { p with engine, requests } := by
  induction rs generalizing p with
  | nil => exact ⟨p.engine, p.requests, rfl⟩
  | cons r rs ih =>
    obtain ⟨engine, hactivate⟩ := activate_eq p r
    obtain ⟨engine', requests', hrest⟩ := ih (p.enlist r).2
    refine ⟨engine', requests', hrest.trans ?_⟩
    simp only [enlist, hactivate]

/-- withdrawing concerns nothing but the requests and the engine -/
theorem withdraw_eq (p : Planner) (id : String) :
    ∃ engine requests, (p.withdraw id).2 = { p with engine, requests } := by
  unfold withdraw
  split
  · exact ⟨_, _, rfl⟩
  · exact ⟨p.engine, p.requests, rfl⟩

/-- so does submitting -/
theorem submit_eq (p : Planner) (q : Requirements) :
    ∃ engine requests, (p.submit q).2 = { p with engine, requests } := by
  obtain ⟨engine, requests, hwithdraw⟩ := withdraw_eq p q.id
  unfold submit enlist
  dsimp only
  split_ifs
  · obtain ⟨engine', hactivate⟩ := activate_eq (p.withdraw q.id).2 (.ofRequirements q)
    rw [hactivate, hwithdraw]
    exact ⟨engine', _, rfl⟩
  · exact ⟨engine, requests, hwithdraw⟩

theorem put_find? (m : Requests) (r : ReadingsRequest) (id : String) :
    (m.put r).find? id = if id = r.id then some r else m.find? id := Keyed.find?_insert ..

theorem enlist_find? (p : Planner) (r : ReadingsRequest) (id : String) :
    (p.enlist r).2.requests.find? id = if id = r.id then some (p.activate r).1 else p.requests.find? id := by
  simp only [enlist, put_find?, activate_id, activate_requests]

theorem withdraw_find? (p : Planner) (id id' : String) :
    (p.withdraw id).2.requests.find? id' = if id' = id then none else p.requests.find? id' := by
  unfold withdraw
  split
  · exact Keyed.find?_erase ..
  · rename_i hnone
    split_ifs with hid
    · rw [hid]
      exact hnone
    · rfl

/-- requirements take the place of those with their id if their asset is near, and else leave it empty -/
theorem submit_find? (p : Planner) (q : Requirements) (id : String) :
    (p.submit q).2.requests.find? id =
      if id = q.id then
        if p.assets.contains q.assetId then some ((p.withdraw q.id).2.activate (.ofRequirements q)).1 else none
      else p.requests.find? id := by
  obtain ⟨engine, requests, hwithdraw⟩ := withdraw_eq p q.id
  have hassets : (p.withdraw q.id).2.assets = p.assets := by rw [hwithdraw]
  simp only [submit, hassets]
  by_cases hid : id = q.id <;> by_cases hnear : p.assets.contains q.assetId = true <;>
    simp [hid, hnear, enlist_find?, withdraw_find?, ReadingsRequest.ofRequirements]

end Planner

end SensorNode
