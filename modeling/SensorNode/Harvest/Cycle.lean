/-
One harvest cycle. All its sensors harvest at the same time into one pipe, in whatever order their writes come; the
cycle is over when every one of them has returned or died, or at its deadline. The readings are made of what the
sensors that returned have written; errors count whoever reported them.
-/
import SensorNode.Entity.Basic
import SensorNode.Reduction
import SensorNode.Sensor.Instrument

namespace SensorNode

/-- how far a sensor is in a cycle -/
inductive Seat.Status
  | harvesting
  | returned
  | died
  deriving DecidableEq, Repr, Inhabited

/-- the place of one sensor in a cycle -/
structure Seat where
  source : String
  status : Seat.Status
  deriving DecidableEq, Repr, Inhabited

structure Cycle where
  pipe : Pipe
  seats : List Seat
  deriving Inhabited

/-- what a cycle comes to -/
structure CycleOutcome where
  readings : Readings
  errors : List HarvestError
  dispatched : Nat
  timedOut : Bool

namespace Cycle

/-- a cycle for `metrics` at its start, with a seat for each sensor -/
def start (sources : List String) (metrics : List Metric) : Cycle where
  pipe := Pipe.ofMetrics metrics
  seats := sources.map fun id => ⟨id, .harvesting⟩

/-- what a harvesting sensor does in a cycle -/
inductive Event
  | write (metric : Metric) (sample : Sample)
  | writeIfWanted (metric : Metric) (sample : Sample)
  | fail (metric : Option Metric) (message : String)
  | returned
  | died

/-- the sensor in place `n` does something; nothing comes of it once it has returned or died -/
def apply (c : Cycle) (n : Nat) (event : Event) : Cycle :=
  match c.seats[n]? with
  | some ⟨source, .harvesting⟩ =>
    match event with
    | .write m s => { c with pipe := c.pipe.write source m s }
    | .writeIfWanted m s => if c.pipe.wants m then { c with pipe := c.pipe.write source m s } else c
    | .fail m message => { c with pipe := c.pipe.fail source m message }
    | .returned => { c with seats := c.seats.set n ⟨source, .returned⟩ }
    | .died => { c with seats := c.seats.set n ⟨source, .died⟩ }
  | _ => c

/-- a schedule of events, each with the place of its sensor -/
def run (c : Cycle) (schedule : List (Nat × Event)) : Cycle :=
  schedule.foldl (fun c e => c.apply e.1 e.2) c

/-- no sensor is harvesting any more -/
def isOver (c : Cycle) : Bool := c.seats.all fun s => s.status ≠ .harvesting

/-- ids of the sensors that have returned -/
def completed (c : Cycle) : List String :=
  (c.seats.filter fun s => s.status = .returned).map Seat.source

/-- the samples of a queue that count -/
def counted (c : Cycle) (queue : List ReadingResult) : List Sample :=
  (queue.filter fun r => c.completed.contains r.source).map ReadingResult.sample

/-- one reading for each requested metric with a sample that counts -/
def readings (c : Cycle) (policy : Reduction) : Readings :=
  c.pipe.queues.filterMapValues fun queue => policy.reduce (c.counted queue)

/-- the cycle ends here -/
def outcome (c : Cycle) (policy : Reduction) : CycleOutcome where
  readings := c.readings policy
  errors := c.pipe.errors
  dispatched := c.seats.length
  timedOut := !c.isOver

end Cycle

end SensorNode
