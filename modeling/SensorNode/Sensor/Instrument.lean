/-
Instruments: the devices behind the sensors. An instrument either holds fixed values, with noise or without, or plays
scripts, one for each harvest in turn. The fleet is all instruments there are.
-/
import SensorNode.Duration
import SensorNode.Harvest.Pipe
import SensorNode.Sensor.Basic

namespace SensorNode

/-- one step of a harvest -/
inductive HarvestStep
  | sleep (time : Duration)
  | write (metric : Metric) (sample : Sample)
  /-- the same, but only where the cycle requests the metric -/
  | writeIfWanted (metric : Metric) (sample : Sample)
  | fail (metric : Option Metric) (message : String)
  /-- the harvest breaks off for good -/
  | die
  deriving Inhabited

/-- what an instrument does when it is harvested -/
inductive Behaviour
  /-- writes fixed values, in the order of their metrics, each with the noise drawn for that harvest -/
  | fixed (values : Keyed Metric Float) (jitter : Float) (noise : Nat → Metric → Float)
  /-- plays the scripts in turn; closing it may fail -/
  | scripted (scripts : List (List HarvestStep)) (closeFails : Bool)

/-- an instrument, its state, and how often it was used -/
structure Instrument where
  sensor : Sensor
  behaviour : Behaviour
  initFails : Bool
  /-- connected and usable -/
  active : Bool
  harvests : Nat
  finished : Nat
  inits : Nat
  closes : Nat

namespace Instrument

/-- the range of the noise, from minus to plus the amplitude, is wide enough to overflow -/
def noiseOverflows (jitter : Float) : Bool :=
  let largestDraw := Float.ofBits 0x3feffffffffffffe
  !((jitter - (-jitter)) / largestDraw).isFinite

/-- noise is added when its amplitude is positive and finite -/
def isNoisy (jitter : Float) : Bool := 0.0 < jitter && jitter.isFinite

/-- the writes of fixed values; with noise whose range overflows the first draw breaks the harvest off -/
def fixedSteps (values : Keyed Metric Float) (jitter : Float) (noise : Metric → Float) : List HarvestStep :=
  let sorted := values.entries.mergeSort fun a b => Metric.le a.1 b.1
  if isNoisy jitter && noiseOverflows jitter && !sorted.isEmpty then [.die]
  else sorted.map fun e => .write e.1 (Sample.ofFloat (e.2 + if isNoisy jitter then noise e.1 else 0.0))

/-- the steps of the `n`-th harvest -/
def steps (i : Instrument) (n : Nat) : List HarvestStep :=
  match i.behaviour with
  | .fixed values jitter noise => fixedSteps values jitter (noise n)
  | .scripted scripts _ => if scripts.isEmpty then [] else scripts.getD (n % scripts.length) []

/-- Prepares the instrument; `false` when that fails. A fixed one becomes active. -/
def init (i : Instrument) : Instrument × Bool :=
  let i := { i with inits := i.inits + 1 }
  if i.initFails then (i, false)
  else
    match i.behaviour with
    | .fixed .. => ({ i with active := true }, true)
    | .scripted .. => (i, true)

/-- Releases the instrument; `false` when that fails, and then it stays as active as it was. -/
def close (i : Instrument) : Instrument × Bool :=
  let i := { i with closes := i.closes + 1 }
  match i.behaviour with
  | .scripted _ true => (i, false)
  | _ => ({ i with active := false }, true)

/-- an instrument that holds the given values, the last of several for one metric -/
def fixed (key : Nat) (id : String) (values : List (Metric × Float)) (jitter : Float)
    (noise : Nat → Metric → Float) : Instrument :=
  let values := Keyed.ofList values
  { sensor := ⟨key, id, Metric.sortedSet values.keys⟩
    behaviour := .fixed values jitter.abs noise
    initFails := false, active := true, harvests := 0, finished := 0, inits := 0, closes := 0 }

/-- the mock of debug environments -/
def debug (key : Nat) (jitter : Float) (noise : Nat → Metric → Float) : Instrument :=
  fixed key "STATIC_MOCK" [(.temperature, 21.0), (.humidity, 45.0), (.luminosity, 300.0)] jitter noise

/-- an instrument that plays scripts -/
def scripted (sensor : Sensor) (scripts : List (List HarvestStep)) (initFails closeFails active : Bool) :
    Instrument where
  sensor := sensor
  behaviour := .scripted scripts closeFails
  initFails := initFails
  active := active
  harvests := 0
  finished := 0
  inits := 0
  closes := 0

/-- what a step puts into a pipe -/
def put (source : String) (p : Pipe) : HarvestStep → Pipe
  | .write m s => p.write source m s
  | .writeIfWanted m s => if p.wants m then p.write source m s else p
  | .fail m message => p.fail source m message
  | .sleep _ | .die => p

/-- a harvest into a pipe, from its first step to its last -/
def harvest (i : Instrument) (p : Pipe) : Instrument × Pipe :=
  ({ i with harvests := i.harvests + 1 }, (i.steps i.harvests).foldl (put i.sensor.id) p)

end Instrument

/-- all instruments; the sensor of each names its place -/
abbrev Fleet := List Instrument

namespace Fleet

def find? (f : Fleet) (s : Sensor) : Option Instrument := f[s.instrument]?

def update (f : Fleet) (key : Nat) (change : Instrument → Instrument) : Fleet := f.modify key change

def isActive (f : Fleet) (s : Sensor) : Bool := ((f.find? s).map Instrument.active).getD false

/-- a harvest begins: it is counted, and its steps are those of its number -/
def beginHarvest (f : Fleet) (s : Sensor) : Fleet × List HarvestStep :=
  match f.find? s with
  | some i => (f.update s.instrument fun i => { i with harvests := i.harvests + 1 }, i.steps i.harvests)
  | none => (f, [])

/-- a harvest has run to its end -/
def endHarvest (f : Fleet) (s : Sensor) : Fleet :=
  f.update s.instrument fun i => { i with finished := i.finished + 1 }

/-- prepares a sensor's instrument; `false` when that fails -/
def init (f : Fleet) (s : Sensor) : Fleet × Bool :=
  match f.find? s with
  | some i => (f.update s.instrument fun i => i.init.1, i.init.2)
  | none => (f, false)

/-- releases a sensor's instrument, whether or not that fails -/
def close (f : Fleet) (s : Sensor) : Fleet := f.update s.instrument fun i => i.close.1

end Fleet

end SensorNode
