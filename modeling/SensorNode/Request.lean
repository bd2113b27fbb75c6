/-
Readings requests: requirements that the node has accepted, each with the subscription it holds. A request holds at
most one.
-/
import SensorNode.Cancellation
import SensorNode.Duration
import SensorNode.Entity.Basic

namespace SensorNode

/-- what has been asked of the reading engine for a request -/
inductive Subscription
  /-- nothing yet -/
  | pending
  /-- one reading -/
  | oneShot
  /-- a reading every period, until the handle is cancelled -/
  | periodic (handle : CancelHandle)
  deriving DecidableEq, Repr, Inhabited

structure ReadingsRequest where
  id : String
  assetId : String
  metrics : List Metric
  /-- seconds; zero asks for one reading -/
  period : UInt64
  subscription : Subscription
  deriving DecidableEq, Inhabited

/-- requests by id -/
abbrev Requests := Keyed String ReadingsRequest

namespace ReadingsRequest

def ofRequirements (q : Requirements) : ReadingsRequest := ⟨q.id, q.assetId, q.metrics, q.period, .pending⟩

def isPending (r : ReadingsRequest) : Bool := r.subscription = .pending

/-- its periodic subscription is live -/
def isSubscribed (r : ReadingsRequest) (flags : CancelFlags) : Bool :=
  match r.subscription with
  | .periodic handle => !flags.isCancelled handle
  | _ => false

/-- cancels the periodic subscription, if it has one -/
def cancel (r : ReadingsRequest) (flags : CancelFlags) : CancelFlags :=
  match r.subscription with
  | .periodic handle => flags.cancel handle
  | _ => flags

/-- the name of the state that a request is in -/
def stateName (r : ReadingsRequest) (flags : CancelFlags) : String :=
  match r.subscription with
  | .pending => "pending"
  | .oneShot => "oneshot"
  | .periodic handle => if flags.isCancelled handle then "cancelled" else "live"

end ReadingsRequest

namespace Requests

/-- puts a request under its id -/
def put (m : Requests) (r : ReadingsRequest) : Requests := m.insert r.id r

/-- the requests that wait for a subscription -/
def pending (m : Requests) : List ReadingsRequest := m.values.filter ReadingsRequest.isPending

end Requests

end SensorNode
