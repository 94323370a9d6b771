import PubSub.Config
import PubSub.Context
import PubSub.Log
import PubSub.Reader.Node

/-!
# The in-memory bus

A bus carries messages from writers to listeners inside one program.
Written messages wait in a bounded queue.  A dispatcher takes them off in
order and spawns, for every listener on the message's stream, an
invocation of its handler; each invocation holds one of a bounded number
of permits until it ends.  A watcher waits for the bus's context to end,
then closes the queue, waits for the dispatcher to empty it, and collects
all permits: when it has them, no handler is running and the bus has
stopped.

Dispatcher, watcher, write calls and invocations act in turns.  What one
of them does between two waits is a single step here, and any order of
steps is possible.

* `Bus` — the state;
* `Call`, `Invocation`, `Dispatcher`, `Watcher` — who acts;
* `BusEvent` — what can be seen of a step.
-/

namespace PubSub

/-- Where a write call stands with its next message. -/
inductive Place where
  /-- About to try. -/
  | calling
  /-- In line for a free slot of the queue. -/
  | waiting
  /-- A slot is set aside for it. -/
  | granted
  deriving DecidableEq, Repr

/-- A call that writes messages, one after the other. -/
structure Call where
  id : Nat
  ctx : Context
  pending : List Message
  written : Nat
  place : Place

/-- An invocation of a listener's handler that has not ended.  It is
`entered` once its handler has been called. -/
structure Invocation where
  id : Nat
  task : Task
  message : Message
  ctx : Context
  entered : Bool

/-- How the dispatcher stands with the permit for the next listener. -/
inductive Turn where
  | asking
  /-- In line for a permit. -/
  | waiting
  /-- A permit is set aside for it. -/
  | holding
  deriving DecidableEq, Repr

/-- What the dispatcher is doing. -/
inductive Dispatcher where
  | unstarted
  | receiving
  /-- A message has been taken off; `task` and `rest` are the listeners it
  still has to be given to. -/
  | placing (message : Message) (task : Task) (rest : List Task) (turn : Turn)
  /-- The queue was closed and empty. -/
  | returned
  | aborted (why : Abort)

/-- What the watcher is doing. -/
inductive Watcher where
  | unstarted
  | watching
  /-- Waiting for the dispatcher. -/
  | joining
  /-- Collecting permits. -/
  | draining (held : Nat)
  | stopped
  deriving DecidableEq, Repr

/-- The state of a bus. -/
structure Bus where
  /-- The bounds, at least one each. -/
  config : BusConfig
  /-- The context that the bus was first started with. -/
  root : Option Context
  /-- Can new calls begin? -/
  senderOpen : Bool
  /-- Does anyone still take messages off? -/
  receiverOpen : Bool
  queue : List Message
  /-- The calls in line for a slot. -/
  line : List Nat
  /-- The calls that are not over. -/
  calls : List Call
  /-- In the order of their registration. -/
  listeners : List Task
  dispatcher : Dispatcher
  watcher : Watcher
  /-- The permits that nobody holds. -/
  permits : Nat
  /-- The invocations that have not ended. -/
  running : List Invocation
  nextCall : Nat
  nextInvocation : Nat

/-- How an invocation ended. -/
inductive Ending where
  /-- The handler returned. -/
  | returned (outcome : Except Error Unit)
  /-- The context ended first. -/
  | interrupted (e : Error)
  /-- The handler gave up in mid-air. -/
  | collapsed

/-- What can be seen of a step. -/
inductive BusEvent where
  /-- A message was put on the queue by a call. -/
  | accepted (call : Nat) (message : Message)
  /-- A call is over; it wrote so many messages. -/
  | answered (call : Nat) (result : Except Error Nat)
  /-- A message was taken off the queue. -/
  | taken (message : Message)
  /-- An invocation was begun. -/
  | spawned (invocation : Invocation)
  /-- An invocation called its handler. -/
  | entered (invocation : Nat)
  /-- An invocation ended. -/
  | ended (invocation : Nat) (ending : Ending)
  | log (e : LogEvent)

namespace Bus

/-- A bus with the given bounds that has not been started. -/
def ofConfig (config : BusConfig) : Bus where
  config
  root := none
  senderOpen := true
  receiverOpen := true
  queue := []
  line := []
  calls := []
  listeners := []
  dispatcher := .unstarted
  watcher := .unstarted
  permits := config.maxInFlight
  running := []
  nextCall := 0
  nextInvocation := 0

/-- Has the bus been started? -/
def isStarted (b : Bus) : Bool := b.root.isSome

/-- Has the bus stopped? -/
def isStopped (b : Bus) : Bool := b.watcher = .stopped

/-- The number of listeners on a stream. -/
def listenerCount (b : Bus) (stream : String) : Nat :=
  (b.listeners.filter (·.stream == stream)).length

/-- The call of a number. -/
def call? (b : Bus) (id : Nat) : Option Call := b.calls.find? (·.id == id)

/-- The invocation of a number, if it has not ended. -/
def invocation? (b : Bus) (id : Nat) : Option Invocation :=
  b.running.find? (·.id == id)

end Bus
end PubSub
