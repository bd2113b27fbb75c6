/-
The planner turns requirements into orders for the reading engine. Requirements are accepted for assets that are near;
an accepted request with period zero orders one reading and any other a subscription. Whatever replaces or drops a
request cancels its subscription first. Readings that come of a request are posted to the ledger under its ids.
-/
import SensorNode.Entity.RecordId
import SensorNode.Ledger.Link
import SensorNode.NearbyAssets
import SensorNode.Reading.Step
import SensorNode.Request

namespace SensorNode

/-- an attempt to post the readings of a cycle -/
structure Posting where
  time : Nat
  accepted : Bool
  requirementsId : String
  assetId : String
  values : Readings

structure Planner where
  deviceId : String
  engine : Engine
  assets : Assets
  requests : Requests
  link : LedgerLink
  /-- attempts to post, newest first -/
  postings : List Posting

namespace Planner

def new (deviceId : String) (timeout : Duration) (policy : Reduction) : Planner where
  deviceId := deviceId
  engine := .new timeout policy
  assets := ∅
  requests := ∅
  link := .new
  postings := []

/-- Orders what a request asks for. One reading counts as ordered whatever the engine makes of it; a subscription that
the engine refuses leaves the request pending. -/
def activate (p : Planner) (r : ReadingsRequest) : ReadingsRequest × Planner :=
  let recipient := Recipient.ledger r.id r.assetId
  if r.period = 0 then
    ({ r with subscription := .oneShot }, { p with engine := p.engine.sendOnce recipient r.metrics })
  else
    match p.engine.subscribe recipient (.ofSeconds r.period.toNat) r.metrics with
    | .ok (handle, engine) => ({ r with subscription := .periodic handle }, { p with engine })
    | .error _ => ({ r with subscription := .pending }, p)

/-- cancels what a request holds -/
def cancelRequest (p : Planner) (r : ReadingsRequest) : Planner :=
  { p with engine := { p.engine with flags := r.cancel p.engine.flags } }

/-- orders what a request asks for and keeps the request -/
def enlist (p : Planner) (r : ReadingsRequest) : ReadingsRequest × Planner :=
  let (r, p) := p.activate r
  (r, { p with requests := p.requests.put r })

/-- drops the request `id` and cancels what it holds; tells whether there was one -/
def withdraw (p : Planner) (id : String) : Bool × Planner :=
  match p.requests.find? id with
  | some r => (true, cancelRequest { p with requests := p.requests.erase id } r)
  | none => (false, p)

/-- takes new or changed requirements in the place of those with their id, if their asset is near -/
def submit (p : Planner) (q : Requirements) : Option ReadingsRequest × Planner :=
  let (_, p) := p.withdraw q.id
  if p.assets.contains q.assetId then
    let (r, p) := p.enlist (.ofRequirements q)
    (some r, p)
  else (none, p)

/-- keeps requirements without ordering anything, if their asset is near and their id is new -/
def storePending (p : Planner) (q : Requirements) : Bool × Planner :=
  if p.assets.contains q.assetId ∧ ¬p.requests.contains q.id then
    (true, { p with requests := p.requests.put (.ofRequirements q) })
  else (false, p)

/-- orders what every pending request asks for; tells how many there were -/
def replayPending (p : Planner) : Nat × Planner :=
  let pending := p.requests.pending
  (pending.length, pending.foldl (fun p r => (p.enlist r).2) p)

/-- cancels every subscription and keeps the requests; tells how many were live -/
def cancelAll (p : Planner) : Nat × Planner :=
  let live := p.requests.values.filter fun r => r.isSubscribed p.engine.flags
  (live.length, p.requests.values.foldl cancelRequest p)

/-- cancels every subscription and drops the requests -/
def clear (p : Planner) : Planner := p.requests.values.foldl cancelRequest { p with requests := ∅ }

/-! ### Posting -/

/-- the record of a delivery; the time since the clock was started stands in for the time of day -/
def record (p : Planner) (requirementsId assetId : String) (d : Delivery) : ReadingsRecord :=
  .make d.time p.link.ledger.posted.length requirementsId assetId p.deviceId d.readings

/-- readings for the ledger are posted unless there are none; a failure is noted and forgotten -/
def receive (p : Planner) (d : Delivery) : Planner :=
  match d.recipient with
  | .listener .. => p
  | .ledger requirementsId assetId =>
    if d.readings.isEmpty then p
    else
      let note (accepted : Bool) : List Posting :=
        ⟨d.time, accepted, requirementsId, assetId, d.readings⟩ :: p.postings
      match p.link.post (p.record requirementsId assetId d) with
      | .ok link => { p with link, postings := note true }
      | .error _ => { p with postings := note false }

def receiveAll (p : Planner) (effects : List Effect) : Planner :=
  effects.foldl (fun p effect =>
    match effect with
    | .delivered d => p.receive d
    | .started .. => p) p

/-- a job of the engine goes on, and what it delivers is taken -/
def advance (p : Planner) (job : Nat) : Planner × List Effect :=
  let (engine, effects) := p.engine.advance job
  (receiveAll { p with engine } effects, effects)

end Planner

end SensorNode
