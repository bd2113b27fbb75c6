/-
The reading engine: what it is asked to do and what it keeps. Orders wait in a queue until the drive loop dispatches
them; each becomes a job of its own. An order is carried out once, or every period until its handle is cancelled, and
each time it runs one harvest cycle over the pool and delivers the readings to its recipient.
-/
import SensorNode.Cancellation
import SensorNode.Harvest.Play

namespace SensorNode

/-- who receives the readings of a cycle -/
inductive Recipient
  /-- a caller of the engine, who takes some time over each delivery -/
  | listener (label : String) (hold : Duration)
  /-- the ledger, for these requirements and this asset -/
  | ledger (requirementsId assetId : String)
  deriving DecidableEq, Inhabited

/-- how often an order is carried out -/
inductive Cadence
  | once
  | every (period : Duration) (handle : CancelHandle)
  deriving DecidableEq, Inhabited

structure Order where
  metrics : List Metric
  recipient : Recipient
  cadence : Cadence
  deriving DecidableEq, Inhabited

/-- how far a job is; a periodic one keeps the time at which its next tick is due -/
inductive Job.Phase
  /-- it has not run yet -/
  | fresh
  | waiting (due : Nat)
  | harvesting (h : Harvesting) (next : Nat)
  | delivering (done : Nat) (next : Nat)
  deriving Inhabited

/-- an order that has been dispatched -/
structure Job where
  order : Order
  phase : Job.Phase
  deriving Inhabited

/-- the drive loop -/
inductive DriveLoop
  | notStarted
  | running
  | ended
  deriving DecidableEq, Repr, Inhabited

structure Engine where
  /-- milliseconds since the clock was started -/
  now : Nat
  timeout : Duration
  policy : Reduction
  fleet : Fleet
  pool : Register
  queue : List Order
  loop : DriveLoop
  /-- the drive loop has been told to stop -/
  stopping : Bool
  flags : CancelFlags
  /-- handles of the subscriptions that have not come to their end -/
  subscriptions : List CancelHandle
  jobs : Keyed Nat Job
  /-- the name of the next job -/
  nextJob : Nat
  completedCycles : Nat
  /-- errors of the sensors with the times of their reports, newest first -/
  errors : List (Nat × HarvestError)

/-- why a subscription is refused -/
inductive SubscribeError
  | zeroPeriod
  | closed
  deriving DecidableEq, Repr

def SubscribeError.message : SubscribeError → String
  | .zeroPeriod => "Subscription period must be positive"
  | .closed => "Reader is closed"

namespace Engine

def new (timeout : Duration) (policy : Reduction) : Engine where
  now := 0
  timeout := timeout
  policy := policy
  fleet := []
  pool := ∅
  queue := []
  loop := .notStarted
  stopping := false
  flags := .none
  subscriptions := []
  jobs := ∅
  nextJob := 0
  completedCycles := 0
  errors := []

/-- adds sensors to the pool, in the place of those with their ids -/
def registerSensors (e : Engine) (sensors : List Sensor) : Engine := { e with pool := e.pool.addAll sensors }

/-- puts other sensors in the place of the whole pool -/
def replaceSensors (e : Engine) (sensors : List Sensor) : Engine := { e with pool := Register.ofSensors sensors }

/-- orders are taken until the drive loop has ended -/
def isOpen (e : Engine) : Bool := e.loop ≠ .ended

/-- queues one cycle; a closed engine drops the order -/
def sendOnce (e : Engine) (recipient : Recipient) (metrics : List Metric) : Engine :=
  if e.isOpen then { e with queue := e.queue ++ [⟨metrics, recipient, .once⟩] } else e

/-- queues a subscription; its handle counts as live from now on -/
def subscribe (e : Engine) (recipient : Recipient) (period : Duration) (metrics : List Metric) :
    Except SubscribeError (CancelHandle × Engine) :=
  if period.millis = 0 then .error .zeroPeriod
  else if e.isOpen then
    let (handle, flags) := e.flags.issue
    .ok (handle,
      { e with
        flags := flags
        subscriptions := e.subscriptions ++ [handle]
        queue := e.queue ++ [⟨metrics, recipient, .every period handle⟩] })
  else .error .closed

def cancel (e : Engine) (handle : CancelHandle) : Engine := { e with flags := e.flags.cancel handle }

/-- subscriptions that are not cancelled -/
def activeSubscriptions (e : Engine) : Nat := (e.subscriptions.filter fun h => !e.flags.isCancelled h).length

/-- cancels every subscription and forgets them -/
def cancelAll (e : Engine) : Engine :=
  { e with flags := e.flags.cancelAll e.subscriptions, subscriptions := [] }

/-- tells the drive loop to stop and cancels every subscription -/
def shutdown (e : Engine) : Engine := cancelAll { e with stopping := true }

/-- starts the drive loop, which happens once -/
def process (e : Engine) : Option Engine :=
  if e.loop = .notStarted then some { e with loop := .running } else none

/-- what is said when the drive loop has been started before -/
def processRefused : String := "Reader is already processing or has been closed"

end Engine

end SensorNode
