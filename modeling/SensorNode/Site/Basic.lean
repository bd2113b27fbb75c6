/-
The site: all that a device keeps about its network and its surroundings. To the planner it adds the identity, the
event bus, and the watch over the ledger's changes.
-/
import SensorNode.Bus
import SensorNode.Identity
import SensorNode.Planner

namespace SensorNode

/-- How far the watch is. It is started once and waits for the device to be logged on. -/
inductive Watch.State
  | notStarted
  | awaitingLogin
  | running
  deriving DecidableEq, Repr, Inhabited

/-- how far a listener is -/
inductive Listener.Stage
  /-- it has not asked for its stream yet -/
  | spawned
  | listening (stream : Nat)
  | ended
  deriving DecidableEq, Repr, Inhabited

/-- a task that takes in the changes of one topic -/
structure Listener where
  topic : Topic
  stage : Listener.Stage
  deriving DecidableEq, Repr, Inhabited

def Listener.isAlive (l : Listener) : Bool := l.stage ≠ .ended

structure Watch where
  state : Watch.State
  /-- a call that starts the watch is between its two looks at the identity; others wait until it is through -/
  locked : Bool
  /-- the handler that resumes the start at the next login -/
  resumption : Option Nat
  /-- every listener there has been -/
  listeners : List Listener
  deriving DecidableEq, Repr, Inhabited

def Watch.new : Watch := ⟨.notStarted, false, none, []⟩

/-- the name by which the watch is known among the parts of a device -/
def Watch.name : String := "events_observer"

structure Site extends Planner where
  identity : Identity
  bus : Bus
  /-- how near an asset must be to be kept, in metres -/
  threshold : Float
  watch : Watch

namespace Site

def new (id : String) (timeout : Duration) (policy : Reduction) (threshold : Float) : Site where
  toPlanner := .new id timeout policy
  identity := .ofId id
  bus := .new
  threshold := threshold
  watch := .new

def emit (s : Site) (event : DomainEvent) : Site := { s with bus := s.bus.emit event }

/-- takes an asset that is near `origin`, and drops the entry of any other -/
def putNear (s : Site) (asset : Asset) (origin : Location) : Site :=
  { s with assets := (s.assets.putNear asset origin s.threshold).1 }

end Site

end SensorNode
