/-
Harvest cycles on a clock. Each seat of a cycle has a player that carries out the steps of its sensor's harvest and
sleeps in between; `runCycle` is one cycle with nothing else going on.
-/
import SensorNode.Harvest.Cycle

namespace SensorNode

/-- how far a player is -/
inductive Player.Stage
  /-- the harvest has not begun -/
  | fresh
  /-- the steps that are left, to go on with at a given time -/
  | playing (rest : List HarvestStep) (wake : Nat)
  | over
  deriving Inhabited

structure Player where
  sensor : Sensor
  stage : Player.Stage
  deriving Inhabited

/-- a cycle that is under way -/
structure Harvesting where
  cycle : Cycle
  players : List Player
  deadline : Nat
  deriving Inhabited

namespace Player

/-- it can go on at this time -/
def isReady (p : Player) (now : Nat) : Bool :=
  match p.stage with
  | .fresh => true
  | .playing _ wake => wake ≤ now
  | .over => false

/-- when it can go on -/
def wake? (p : Player) : Option Nat :=
  match p.stage with
  | .playing _ wake => some wake
  | _ => none

/-- plays steps in seat `n` up to the next sleep or to the end -/
def play (now n : Nat) : List HarvestStep → Cycle → Cycle × Player.Stage
  | [], c => (c.apply n .returned, .over)
  | .sleep time :: rest, c => (c, .playing rest (now + time.millis))
  | .write m s :: rest, c => play now n rest (c.apply n (.write m s))
  | .writeIfWanted m s :: rest, c => play now n rest (c.apply n (.writeIfWanted m s))
  | .fail m message :: rest, c => play now n rest (c.apply n (.fail m message))
  | .die :: _, c => (c.apply n .died, .over)

end Player

namespace Harvesting

/-- a cycle begins: it has until `timeout` from now -/
def start (sensors : List Sensor) (metrics : List Metric) (now : Nat) (timeout : Duration) : Harvesting where
  cycle := Cycle.start (sensors.map Sensor.id) metrics
  players := sensors.map fun s => ⟨s, .fresh⟩
  deadline := now + timeout.millis

/-- every sensor has returned or died, or the deadline has come -/
def isDue (h : Harvesting) (now : Nat) : Bool := h.cycle.isOver || h.deadline ≤ now

/-- the player in seat `n` goes on; its harvest counts as finished when it returns -/
def play (h : Harvesting) (now n : Nat) (fleet : Fleet) : Harvesting × Fleet :=
  match h.players[n]? with
  | none => (h, fleet)
  | some p =>
    if p.isReady now then
      let (fleet, steps) := match p.stage with
        | .fresh => fleet.beginHarvest p.sensor
        | .playing rest _ => (fleet, rest)
        | .over => (fleet, [])
      let (cycle, stage) := Player.play now n steps h.cycle
      let returned := (cycle.seats[n]?.map Seat.status) = some .returned
      ({ h with cycle, players := h.players.set n { p with stage } },
        if returned then fleet.endHarvest p.sensor else fleet)
    else (h, fleet)

/-- every player that can go on at this time does so, once -/
def playAll (h : Harvesting) (now : Nat) (fleet : Fleet) : Harvesting × Fleet :=
  (List.range h.players.length).foldl (fun (h, fleet) n => h.play now n fleet) (h, fleet)

/-- the earliest time at which a player can go on, or the deadline if that is earlier -/
def nextTime (h : Harvesting) : Nat :=
  (h.players.filterMap Player.wake?).foldl min h.deadline

/-- goes on from time to time until the cycle is due; each round uses up steps of the harvests -/
def finish : Nat → Harvesting → Nat → Fleet → Harvesting × Nat × Fleet
  | 0, h, now, fleet => (h, now, fleet)
  | fuel + 1, h, now, fleet =>
    if h.isDue now then (h, now, fleet)
    else
      let (h, fleet) := h.playAll now fleet
      if h.isDue now then (h, now, fleet) else finish fuel h h.nextTime fleet

end Harvesting

/-- the number of steps in the longest harvest of an instrument -/
def Instrument.longestHarvest (i : Instrument) : Nat :=
  match i.behaviour with
  | .fixed .. => 0
  | .scripted scripts _ => (scripts.map List.length).foldl max 0

/-- One cycle over `sensors` from time 0, with nothing else going on: its outcome, when it ended, and the fleet
afterwards. -/
def runCycle (fleet : Fleet) (sensors : List Sensor) (metrics : List Metric) (timeout : Duration)
    (policy : Reduction) : CycleOutcome × Nat × Fleet :=
  let rounds := (sensors.length + 1) * ((fleet.map Instrument.longestHarvest).foldl max 0 + 2)
  let (h, now, fleet) := Harvesting.finish rounds (Harvesting.start sensors metrics 0 timeout) 0 fleet
  (h.cycle.outcome policy, now, fleet)

end SensorNode
