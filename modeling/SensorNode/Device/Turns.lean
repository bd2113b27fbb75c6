/-
Turns: the order in which the tasks of a device go on. A task that becomes ready queues up behind those that are ready
already, and its turn lasts as long as it is ready, though only for so many steps. `settle` gives turns until no task is
ready, and `elapse` lets time go by.
-/
import SensorNode.Device.Procedure

namespace SensorNode

/-- the tasks of a device -/
inductive Task
  | driveLoop
  | job (name : Nat)
  | player (job seat : Nat)
  | listener (n : Nat)
  | handler (n : Nat)
  deriving DecidableEq, Repr, Inhabited

namespace Device

/-- the tasks that are there at present -/
def tasks (d : Device) : List Task :=
  .driveLoop :: (List.range d.watch.listeners.length).map .listener ++
    (List.range d.bus.handlers.length).map .handler ++
    d.engine.jobs.entries.flatMap fun (name, job) =>
      match job.phase with
      | .harvesting h _ => .job name :: (List.range h.players.length).map (.player name)
      | _ => [.job name]

/-- a task can go on -/
def isReady (d : Device) : Task → Bool
  | .driveLoop => d.engine.loopIsReady
  | .job name => d.engine.jobIsReady name
  | .player job seat => d.engine.playerIsReady job seat
  | .listener n => d.listenerIsReady n
  | .handler n => d.bus.handlerIsReady n

/-- a task goes on, up to the next point at which others may -/
def step (d : Device) : Task → Device × List Effect
  | .driveLoop => ({ d with engine := d.engine.stepLoop }, [])
  | .job name =>
    let (planner, effects) := d.toPlanner.advance name
    (d.setPlanner planner, effects)
  | .player job seat => ({ d with engine := d.engine.play job seat }, [])
  | .listener n => ({ d with toSite := d.toSite.listen n }, [])
  | .handler n => (d.handle n, [])

end Device

/-- a device whose tasks take turns -/
structure Turns where
  device : Device
  /-- the tasks, the one whose last turn is longest past first -/
  line : List Task
  /-- the tasks that are ready, in the order of their turns to come -/
  queue : List Task
  /-- the steps that the first of the queue has taken in its present turn -/
  taken : Nat
  /-- what the engine has delivered, newest first -/
  deliveries : List Delivery

/-- what was delivered among effects, in front of earlier deliveries -/
def Effect.collect (effects : List Effect) (earlier : List Delivery) : List Delivery :=
  effects.foldl (fun all effect =>
    match effect with
    | .delivered d => d :: all
    | .started .. => all) earlier

namespace Turns

/-- puts new members of a set behind those that were in it before -/
def lineUp (line present : List Task) : List Task :=
  line.filter present.contains ++ present.filter fun t => !line.contains t

/-- The device has changed. Of tasks that become ready at once, the one whose last turn is longest past comes first. -/
def update (t : Turns) (d : Device) : Turns :=
  let line := lineUp t.line d.tasks
  { t with device := d, line, queue := lineUp t.queue (line.filter d.isReady) }

def new (d : Device) : Turns := update ⟨d, [], [], 0, []⟩ d

/-- The first of the queue has taken a step: a listener takes one change in a step, a handler one event, and the drive
loop one order. It stays at the front while it is ready, but after a full turn it goes behind all that are ready by
then. -/
def pass (t : Turns) (task : Task) : Turns :=
  match t.queue with
  | front :: rest =>
    if front ≠ task then { t with taken := 0 }
    else if t.taken + 1 < turnLength then { t with taken := t.taken + 1 }
    else { t with queue := rest ++ [front], taken := 0 }
  | [] => { t with taken := 0 }

/-- a task goes on -/
def step (t : Turns) (task : Task) : Turns :=
  let (d, effects) := t.device.step task
  pass (update { t with
    line := t.line.erase task ++ [task]
    deliveries := Effect.collect effects t.deliveries } d) task

/-- as many steps, or fewer if no task is ready before that -/
def run : Nat → Turns → Turns
  | 0, t => t
  | fuel + 1, t =>
    match t.queue with
    | task :: _ => run fuel (t.step task)
    | [] => t

/-- more steps than a device takes at one time -/
def plenty : Nat := Nat.pow 2 48

/-- gives turns until no task is ready -/
def settle (t : Turns) : Turns := run plenty t

/-- the clock shows a later time -/
def setClock (t : Turns) (now : Nat) : Turns :=
  t.update { t.device with engine := { t.device.engine with now } }

/-- Goes on from time to time, up to and with `limit`, as long as something falls due by then. Time moves on with every
round, so that there are at most as many rounds as milliseconds. -/
def fallDue (limit : Nat) : Nat → Turns → Turns
  | 0, t => t
  | rounds + 1, t =>
    match t.device.engine.nextTime? with
    | some time => if time ≤ limit then fallDue limit rounds (t.setClock time).settle else t
    | none => t

/-- lets time go by and does all that falls due -/
def elapse (t : Turns) (span : Duration) : Turns :=
  let t := t.settle
  let target := t.device.engine.now + span.millis
  (fallDue target span.millis t).setClock target

/-- Scans the sensor buses while the other tasks go on. What the scan leads to comes first at the time at which it
ends. -/
def discover (t : Turns) (scan : Scan) : Turns × Except Failure (Nat × Nat) :=
  let target := t.device.engine.now + (t.device.scanEnd scan).millis
  let span := target - t.device.engine.now
  let t := (if span = 0 then t else fallDue (target - 1) span t.settle).setClock target
  let (d, result) := t.device.discover scan
  ((t.update d).settle, result)

end Turns

end SensorNode
