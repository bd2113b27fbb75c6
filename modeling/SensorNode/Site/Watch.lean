/-
The watch over the ledger. Starting it spawns a listener for each topic, at once if the device is logged on and else at
the next login. A start is taken in steps, between which logins, stops and other starts may come; `start` and `resume`
take all of them without a break. Stopping aborts the resumption and the listeners.
-/
import SensorNode.Site.Changes

namespace SensorNode

/-- what a call that starts the watch does next -/
inductive Watch.Call
  /-- looks at the identity for the first time -/
  | start
  /-- installs a handler for the next login -/
  | install
  /-- looks at the identity again -/
  | recheck (handler : Nat)
  /-- keeps the handler -/
  | keep (handler : Nat)
  /-- the handler has seen a login -/
  | resume
  /-- spawns the listeners -/
  | spawn
  deriving DecidableEq, Repr, Inhabited

namespace Site

def setWatch (s : Site) (watch : Watch) : Site := { s with watch }

/-- A call takes its next step; it is through when there is none after that. While another call holds the lock, a call
that needs it stays where it is. -/
def stepCall (s : Site) : Watch.Call → Site × Option Watch.Call
  | .start =>
    if s.watch.locked then (s, some .start)
    else if s.watch.state ≠ .notStarted then (s, none)
    else if s.identity.isLoggedOn then (s.setWatch { s.watch with state := .running }, some .spawn)
    else (s.setWatch { s.watch with locked := true }, some .install)
  | .install =>
    let (handler, bus) := s.bus.once .loggedOn
    ({ s with bus }, some (.recheck handler))
  | .recheck handler =>
    if s.identity.isLoggedOn then
      ({ s with bus := s.bus.abort handler, watch := { s.watch with state := .running, locked := false } },
        some .spawn)
    else (s.setWatch { s.watch with state := .awaitingLogin }, some (.keep handler))
  | .keep handler => (s.setWatch { s.watch with resumption := some handler, locked := false }, none)
  | .resume =>
    if s.watch.locked then (s, some .resume)
    else if s.watch.state = .awaitingLogin then (s.setWatch { s.watch with state := .running }, some .spawn)
    else (s, none)
  | .spawn =>
    let spawned := [Topic.assets, .devices, .requirements].map fun topic => ⟨topic, .spawned⟩
    (s.setWatch { s.watch with listeners := s.watch.listeners ++ spawned }, none)

/-- as many steps of a call, without a break -/
def runCall : Nat → Site → Watch.Call → Site
  | 0, s, _ => s
  | fuel + 1, s, call =>
    match s.stepCall call with
    | (s, some next) => runCall fuel s next
    | (s, none) => s

/-- starts the watch; only the first start does anything -/
def start (s : Site) : Site := s.runCall 4 .start

/-- the device is logged on: a watch that waits for it spawns its listeners -/
def resume (s : Site) : Site := s.runCall 2 .resume

/-! ### Stopping -/

/-- aborts the handler that waits for a login -/
def stopResumption (s : Site) : Site :=
  match s.watch.resumption with
  | some handler => { s with bus := s.bus.abort handler, watch := { s.watch with resumption := none } }
  | none => s

/-- a listener ends and gives its stream up -/
def endListener (s : Site) (n : Nat) : Site :=
  match s.watch.listeners[n]? with
  | some l =>
    let s := s.setWatch { s.watch with listeners := s.watch.listeners.set n { l with stage := .ended } }
    match l.stage with
    | .listening stream => { s with link := { s.link with ledger := s.link.ledger.dropStream stream } }
    | _ => s
  | none => s

/-- aborts the listeners -/
def stopListeners (s : Site) : Site := (List.range s.watch.listeners.length).foldl endListener s

def stop (s : Site) : Site := s.stopResumption.stopListeners

/-! ### Listening -/

/-- a listener has something to do -/
def listenerIsReady (s : Site) (n : Nat) : Bool :=
  match s.watch.listeners[n]? with
  | some ⟨_, .spawned⟩ => true
  | some ⟨_, .listening stream⟩ =>
    match s.link.ledger.streams[stream]? with
    | some c => !c.unread.isEmpty || c.closed
    | none => false
  | _ => false

/-- A listener asks for its stream, and ends if it gets none. Then it takes in one change after the other, until the
stream has ended. -/
def listen (s : Site) (n : Nat) : Site :=
  match s.watch.listeners[n]? with
  | some ⟨topic, .spawned⟩ =>
    match s.link.subscribe topic with
    | .ok (stream, link) =>
      { s with
        link := link
        watch := { s.watch with listeners := s.watch.listeners.set n ⟨topic, .listening stream⟩ } }
    | .error _ => s.endListener n
  | some ⟨topic, .listening stream⟩ =>
    match s.link.ledger.next? stream with
    | some (event, ledger) => { s with link := { s.link with ledger } }.applyChange topic event
    | none => if s.listenerIsReady n then s.endListener n else s
  | _ => s

end Site

end SensorNode
