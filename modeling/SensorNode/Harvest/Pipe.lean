/-
The pipe of one harvest cycle: a queue of results for each requested metric, and one queue of errors. What arrives for
a metric that nobody requested is ignored; a value that is not finite is an error, requested or not.
-/
import SensorNode.Decimal.Layout
import SensorNode.Keyed
import SensorNode.Metric
import SensorNode.Sample

namespace SensorNode

/-- one value from one sensor -/
structure ReadingResult where
  source : String
  sample : Sample
  deriving DecidableEq, Inhabited

/-- what a sensor complains about while it harvests, tied to a metric or not -/
structure HarvestError where
  source : String
  metric : Option Metric
  message : String
  deriving DecidableEq, Inhabited

namespace HarvestError

def text (e : HarvestError) : String :=
  match e.metric with
  | some m => "sensor '" ++ e.source ++ "' failed reading " ++ m.name ++ ": " ++ e.message
  | none => "sensor '" ++ e.source ++ "' failed: " ++ e.message

/-- a cause and what was said about it on the way out, the last word first -/
def chain (root : String) (contexts : List String) : String :=
  ": ".intercalate (contexts.reverse ++ [root])

def nonFinite (s : Sample) : String := "non-finite value " ++ Decimal.text .plain s.value

end HarvestError

structure Pipe where
  /-- results of each requested metric, in the order of writing -/
  queues : Keyed Metric (List ReadingResult)
  errors : List HarvestError
  deriving Inhabited

namespace Pipe

/-- an empty queue for each distinct metric -/
def ofMetrics (metrics : List Metric) : Pipe where
  queues := metrics.foldl (fun queues m => if queues.contains m then queues else queues.insert m []) ∅
  errors := []

def wants (p : Pipe) (m : Metric) : Bool := p.queues.contains m

def fail (p : Pipe) (source : String) (metric : Option Metric) (message : String) : Pipe :=
  { p with errors := p.errors ++ [⟨source, metric, message⟩] }

def write (p : Pipe) (source : String) (m : Metric) (s : Sample) : Pipe :=
  if s.isFinite then { p with queues := p.queues.modify m (· ++ [⟨source, s⟩]) }
  else p.fail source (some m) (HarvestError.nonFinite s)

end Pipe

end SensorNode
