/-
The event bus. It keeps the last 256 events: a receiver that is further behind loses what is older. A handler looks at
one event after the other in a receiver of its own, until it gets the first of its kind and is done. Tasks take turns of
a bounded length; `settle` gives the handlers turns until none of them can go on.
-/
import SensorNode.Request

namespace SensorNode

/-- the most steps of a task before others have their turn -/
def turnLength : Nat := 128

/-- what the parts of a node tell each other -/
inductive DomainEvent
  /-- the ledger has confirmed the device -/
  | loggedOn
  | moved (old new : Location)
  /-- the ledger has dropped the device -/
  | removed
  /-- requirements have become requests -/
  | submitted (requests : List ReadingsRequest)
  deriving DecidableEq, Inhabited

inductive DomainEventKind
  | loggedOn
  | moved
  | removed
  | submitted
  deriving DecidableEq, Repr, Inhabited

def DomainEvent.kind : DomainEvent → DomainEventKind
  | .loggedOn => .loggedOn
  | .moved .. => .moved
  | .removed => .removed
  | .submitted _ => .submitted

/-- a receiver: how many events it is past, and whether anyone holds it -/
structure Receiver where
  position : Nat
  live : Bool
  deriving DecidableEq, Repr, Inhabited

/-- a handler waits, is done, or has been aborted -/
inductive Handler.Status
  | waiting
  | done
  | aborted
  deriving DecidableEq, Repr, Inhabited

structure Handler where
  kind : DomainEventKind
  receiver : Nat
  status : Handler.Status
  deriving DecidableEq, Repr, Inhabited

structure Bus where
  /-- every event published so far, newest first -/
  events : List DomainEvent
  sent : Nat
  receivers : List Receiver
  handlers : List Handler
  deriving Inhabited

namespace Bus

def new : Bus := ⟨[], 0, [], []⟩

/-- events that are kept -/
def capacity : Nat := 256

def emit (b : Bus) (event : DomainEvent) : Bus := { b with events := event :: b.events, sent := b.sent + 1 }

/-- a receiver for the events from now on -/
def subscribe (b : Bus) : Nat × Bus :=
  (b.receivers.length, { b with receivers := b.receivers ++ [⟨b.sent, true⟩] })

def drop (b : Bus) (receiver : Nat) : Bus :=
  { b with receivers := b.receivers.modify receiver fun r => { r with live := false } }

/-- receivers that someone holds, handlers included -/
def receiverCount (b : Bus) : Nat := (b.receivers.filter Receiver.live).length

/-- the events that a receiver at this position can still get, oldest first -/
def unread (b : Bus) (position : Nat) : List DomainEvent :=
  (b.events.take (min (b.sent - position) capacity)).reverse

/-- how many events a receiver at this position has lost -/
def lag (b : Bus) (position : Nat) : Nat := b.sent - position - capacity

/-- everything that waits in a receiver: how many events it has lost, and the others -/
def receive (b : Bus) (receiver : Nat) : (Nat × List DomainEvent) × Bus :=
  match b.receivers[receiver]? with
  | some r =>
    ((b.lag r.position, b.unread r.position),
      { b with receivers := b.receivers.set receiver { r with position := b.sent } })
  | none => ((0, []), b)

/-- A handler for the next event of a kind. Its receiver is there at once, so that no event from now on is missed. -/
def once (b : Bus) (kind : DomainEventKind) : Nat × Bus :=
  let (receiver, b) := b.subscribe
  (b.handlers.length, { b with handlers := b.handlers ++ [⟨kind, receiver, .waiting⟩] })

def setStatus (b : Bus) (handler : Nat) (status : Handler.Status) : Bus :=
  { b with handlers := b.handlers.modify handler fun h => { h with status := status } }

/-- a waiting handler is aborted and its receiver dropped -/
def abort (b : Bus) (handler : Nat) : Bus :=
  match b.handlers[handler]? with
  | some ⟨_, receiver, .waiting⟩ => (b.setStatus handler .aborted).drop receiver
  | _ => b

/-- a handler has something to look at -/
def handlerIsReady (b : Bus) (handler : Nat) : Bool :=
  match b.handlers[handler]? with
  | some ⟨_, receiver, .waiting⟩ => ((b.receivers[receiver]?).map fun r => decide (r.position < b.sent)).getD false
  | _ => false

/-- the next event for a receiver; one that has lost events is first told so, and goes on with the oldest that is kept -/
def next (b : Bus) (receiver : Nat) : Option DomainEvent × Bus :=
  match b.receivers[receiver]? with
  | some r =>
    let lost := b.lag r.position
    let (event, position) :=
      if lost = 0 then ((b.unread r.position).head?, min (r.position + 1) b.sent) else (none, r.position + lost)
    (event, { b with receivers := b.receivers.set receiver { r with position } })
  | none => (none, b)

/-- a waiting handler looks at what is next for its receiver: an event of its kind is handed out and the handler is
done -/
def poll (b : Bus) (handler : Nat) : Option DomainEvent × Bus :=
  match b.handlers[handler]? with
  | some ⟨kind, receiver, .waiting⟩ =>
    let (event, b) := b.next receiver
    match event.filter fun e => e.kind = kind with
    | some event => (some event, (b.setStatus handler .done).drop receiver)
    | none => (none, b)
  | _ => (none, b)

/-- a handler has its turn of at most this many steps, and hands out an event or not -/
def takeTurn (handler : Nat) : Nat → Bus → Option DomainEvent × Bus
  | 0, b => (none, b)
  | steps + 1, b =>
    match b.poll handler with
    | (some event, b) => (some event, b)
    | (none, b) => takeTurn handler steps b

/-- one turn for each handler, and which events were handed out to which -/
def round (b : Bus) : List (Nat × DomainEvent) × Bus :=
  (List.range b.handlers.length).foldl (fun (fired, b) handler =>
    match takeTurn handler turnLength b with
    | (some event, b) => (fired ++ [(handler, event)], b)
    | (none, b) => (fired, b)) ([], b)

/-- All handlers go on as far as they can. Three turns are enough to learn of a loss and to look at all events that are
kept. -/
def settle (b : Bus) : List (Nat × DomainEvent) × Bus :=
  let (first, b) := b.round
  let (second, b) := b.round
  let (third, b) := b.round
  (first ++ second ++ third, b)

end Bus

end SensorNode
