/-
The steps of the reading engine. Each step takes one task from one point at which it waits to the next: the drive loop
dispatches an order or ends, a player goes on with a harvest, a job goes from phase to phase. Steps that cannot be
taken change nothing. What a step does for others to see are its effects.
-/
import SensorNode.Reading.Engine

namespace SensorNode

/-- readings handed to a recipient -/
structure Delivery where
  time : Nat
  recipient : Recipient
  readings : Readings

/-- what a step of a job does for others to see -/
inductive Effect
  /-- a cycle for this order starts over these sensors -/
  | started (order : Order) (sensors : List Sensor)
  | delivered (delivery : Delivery)

namespace Engine

/-! ### Time -/

/-- The clock counts seconds up to 2^63 - 1; a job whose first tick lies beyond them dies before it waits. -/
def horizon : Nat := Nat.pow 2 63 * 1000

/-- a tick more than this many milliseconds late is late -/
def lateness : Nat := 5

/-- When the tick after one that was due at `due` and is taken now is due: one period after it, or, when it was late,
at the next multiple of the period from it that is after now. -/
def nextTick (period : Duration) (due now : Nat) : Nat :=
  if due + lateness < now then now + period.millis - (now - due) % period.millis else due + period.millis

/-! ### The drive loop -/

/-- The next order leaves the queue and becomes a job, unless it is a subscription that has been cancelled. Either way a
name is used up, so that the names of later jobs do not depend on who was cancelled. -/
def dispatch (e : Engine) : Engine :=
  match e.loop, e.queue with
  | .running, order :: rest =>
    let spawned := { e with
      queue := rest, jobs := e.jobs.insert e.nextJob ⟨order, .fresh⟩, nextJob := e.nextJob + 1 }
    match order.cadence with
    | .once => spawned
    | .every _ handle =>
      if e.flags.isCancelled handle then
        { e with queue := rest, subscriptions := e.subscriptions.erase handle, nextJob := e.nextJob + 1 }
      else spawned
  | _, _ => e

/-- the drive loop ends once it has been told to; what is queued is dropped -/
def endLoop (e : Engine) : Engine :=
  if e.loop = .running ∧ e.stopping then cancelAll { e with loop := .ended, queue := [] } else e

/-! ### Jobs -/

def setPhase (e : Engine) (name : Nat) (phase : Job.Phase) : Engine :=
  { e with jobs := e.jobs.modify name fun job => { job with phase := phase } }

/-- the job is over, and with it the subscription it was for -/
def endJob (e : Engine) (name : Nat) (order : Order) : Engine :=
  let e := { e with jobs := e.jobs.erase name }
  match order.cadence with
  | .once => e
  | .every _ handle => { e with subscriptions := e.subscriptions.erase handle }

def isCancelled (e : Engine) (order : Order) : Bool :=
  match order.cadence with
  | .once => false
  | .every _ handle => e.flags.isCancelled handle

/-- the sensors of a cycle for `metrics`: active ones of the pool that produce one of them -/
def eligible (e : Engine) (metrics : List Metric) : List Sensor :=
  e.pool.values.filter fun s => s.supportsAny metrics && e.fleet.isActive s

/-- after a delivery a job that is done once or has been cancelled ends, and another waits for its next tick -/
def afterDelivery (e : Engine) (name : Nat) (order : Order) (next : Nat) : Engine :=
  match order.cadence with
  | .once => e.endJob name order
  | .every _ handle =>
    if e.flags.isCancelled handle then e.endJob name order else e.setPhase name (.waiting next)

/-- the recipient takes this long over a delivery -/
def holdOf : Recipient → Duration
  | .listener _ hold => hold
  | .ledger .. => ⟨0⟩

/-- a cycle that is due ends: its errors are reported, it counts, and its readings are delivered -/
def completeCycle (e : Engine) (name : Nat) (order : Order) (h : Harvesting) (next : Nat) : Engine × List Effect :=
  let outcome := h.cycle.outcome e.policy
  let e := { e with
    errors := (outcome.errors.map fun x => (e.now, x)).reverse ++ e.errors
    completedCycles := e.completedCycles + 1 }
  let hold := holdOf order.recipient
  let e := if hold.millis = 0 then e.afterDelivery name order next
    else e.setPhase name (.delivering (e.now + hold.millis) next)
  (e, [.delivered ⟨e.now, order.recipient, outcome.readings⟩])

/-- a cycle starts; one without sensors, or without time, is due at once -/
def startCycle (e : Engine) (name : Nat) (order : Order) (next : Nat) : Engine × List Effect :=
  let sensors := e.eligible order.metrics
  let h := Harvesting.start sensors order.metrics e.now e.timeout
  if h.isDue e.now then
    let (e, effects) := e.completeCycle name order h next
    (e, .started order sensors :: effects)
  else (e.setPhase name (.harvesting h next), [.started order sensors])

/-- a job goes on: cancellation is looked at before each tick and after each delivery, and nowhere in between -/
def advance (e : Engine) (name : Nat) : Engine × List Effect :=
  match e.jobs.find? name with
  | none => (e, [])
  | some ⟨order, phase⟩ =>
    match order.cadence, phase with
    | .once, .fresh => e.startCycle name order 0
    | .every period handle, .fresh =>
      let due := e.now + period.millis
      if horizon ≤ due then ({ e with jobs := e.jobs.erase name }, [])
      else if e.flags.isCancelled handle then (e.endJob name order, [])
      else (e.setPhase name (.waiting due), [])
    | .every period handle, .waiting due =>
      if e.flags.isCancelled handle then (e.endJob name order, [])
      else if due ≤ e.now then e.startCycle name order (nextTick period due e.now)
      else (e, [])
    | .once, .waiting _ => (e, [])
    | _, .harvesting h next => if h.isDue e.now then e.completeCycle name order h next else (e, [])
    | _, .delivering done next => if done ≤ e.now then (e.afterDelivery name order next, []) else (e, [])

/-- the player in seat `n` of a job's cycle goes on -/
def play (e : Engine) (name n : Nat) : Engine :=
  match e.jobs.find? name with
  | some ⟨_, .harvesting h next⟩ =>
    let (h, fleet) := h.play e.now n e.fleet
    { e.setPhase name (.harvesting h next) with fleet := fleet }
  | _ => e

/-! ### What can go on -/

/-- the drive loop can take a step -/
def loopIsReady (e : Engine) : Bool := e.loop = .running && (e.stopping || !e.queue.isEmpty)

/-- the drive loop takes a step; told to stop, it does not dispatch any more -/
def stepLoop (e : Engine) : Engine := if e.stopping then e.endLoop else e.dispatch

/-- `advance` would take a step -/
def jobIsReady (e : Engine) (name : Nat) : Bool :=
  match e.jobs.find? name with
  | none => false
  | some ⟨order, phase⟩ =>
    match phase with
    | .fresh => true
    | .waiting due => e.isCancelled order || due ≤ e.now
    | .harvesting h _ => h.isDue e.now
    | .delivering done _ => done ≤ e.now

/-- `play` would take a step -/
def playerIsReady (e : Engine) (name n : Nat) : Bool :=
  match e.jobs.find? name with
  | some ⟨_, .harvesting h _⟩ => !h.isDue e.now && ((h.players[n]?).map (·.isReady e.now)).getD false
  | _ => false

/-- the times at which a job or one of its players can go on -/
def Job.times (job : Job) : List Nat :=
  match job.phase with
  | .fresh => []
  | .waiting due => [due]
  | .harvesting h _ => [h.nextTime]
  | .delivering done _ => [done]

/-- the earliest time after now at which something can go on -/
def nextTime? (e : Engine) : Option Nat :=
  let times := (e.jobs.values.flatMap Job.times).filter fun t => e.now < t
  times.foldl (fun least t => some ((least.map fun l => min l t).getD t)) none

end Engine

end SensorNode
