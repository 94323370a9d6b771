import PubSub.Race
import PubSub.Scenario.Schedule

/-!
# The program of a scenario

What the program can do, one thing after the other.  Where it has to
wait, everybody else acts meanwhile.

* `Scenario.derive` — contexts;
* `Scenario.publish`, `Scenario.writeRaw`, `Scenario.writeBus`, `Scenario.post` —
  writing;
* `Scenario.read`, `Scenario.startReaders`, `Scenario.deliver` — reading;
* `Scenario.sleep`, `Scenario.race`, `Scenario.waitForEnd`, `Scenario.join`,
  `Scenario.waitForStop` — waiting;
* `Scenario.record` — what has happened since the last time.
-/

namespace PubSub

/-- What the program comes to, if it does not wait in vain. -/
abbrev Done (α : Type) := Except Abort (Scenario × Option α)

/-- From what a context is derived. -/
inductive Origin where
  | fresh
  /-- The token of another context. -/
  | sharing (ctx : Context)
  | copy (ctx : Context)
  | child (ctx : Context)

/-- A context to be derived.  The timeout and the deadline are in
nanoseconds, the deadline from the start of the clock. -/
structure ContextPlan where
  origin : Origin
  timeout : Option Nat
  deadline : Option Nat
  correlationId : Option String
  causationId : Option String

namespace ContextPlan

/-- The context from which the plan begins. -/
def basis (p : ContextPlan) (t : Tokens) : Context × Tokens :=
  match p.origin with
  | .fresh => Context.fresh t
  | .sharing ctx => (ctx.ofToken, t)
  | .copy ctx => (ctx, t)
  | .child ctx => ctx.child t

/-- The context, or a child that ends a span after `now` if there is one. -/
def limited (now : Nat) (span : Option Nat) (ctx : Context) (t : Tokens) :
    Except Abort (Context × Tokens) :=
  match span with
  | some span => ctx.withTimeout now span t
  | none => .ok (ctx, t)

/-- The planned context. -/
def derive (p : ContextPlan) (now : Nat) (t : Tokens) :
    Except Abort (Context × Tokens) := do
  let (ctx, t) := p.basis t
  let (ctx, t) ← limited now p.timeout ctx t
  let (ctx, t) ← limited 0 p.deadline ctx t
  .ok
    ({ ctx with
        correlationId := p.correlationId <|> ctx.correlationId
        causationId := p.causationId <|> ctx.causationId }, t)

end ContextPlan

namespace Scenario

/-- The context of a name. -/
def context? (s : Scenario) (name : String) : Option Context := s.contexts.lookup name

/-- Derive a context. -/
def derive (s : Scenario) (p : ContextPlan) : Except Abort (Scenario × Context) := do
  let a := s.system.ambient
  let (ctx, tokens) ← p.derive a.now a.tokens
  .ok ({ s with system := { s.system with ambient := { a with tokens } } }, ctx)

/-- Give a context a name. -/
def nameContext (s : Scenario) (name : String) (ctx : Context) : Scenario :=
  { s with contexts := putLast name ctx s.contexts }

/-- Cancel a context. -/
def cancel (s : Scenario) (ctx : Context) : Scenario := s.rouse (s.moved (.cancel ctx))

/-- Plan to cancel a context after a span. -/
def planCancel (s : Scenario) (ctx : Context) (span : Nat) : Scenario :=
  let time := wakeAt (Span.ofMillis s.now + span)
  ({ s with planned := s.planned ++ [(time, ctx)] }.setAlarms .canceller).enlist [.canceller]

/-- Waiting for an instant. -/
def sleeping : Errand Nat Unit where
  isReady s time := time ≤ s.now
  wakes _ time := [time]
  turn s _ := .ok (s, .inr ())

/-- Wait for a span to pass. -/
def sleep (s : Scenario) (span : Nat) : Done Unit :=
  s.carryOut sleeping (wakeAt (Span.ofMillis s.now + span))

/-- Waiting for a condition, but not beyond an instant. -/
def watching {α : Type} (find : Scenario → Option α) (wakes : List Nat) :
    Errand Nat (Option α) where
  isReady s time := (find s).isSome || time ≤ s.now
  wakes _ time := time :: wakes
  turn s _ := .ok (s, .inr (find s))

/-- Wait for a condition, for a span at most. -/
def watchFor {α : Type} (s : Scenario) (find : Scenario → Option α) (wakes : List Nat)
    (within : Nat) : Done (Option α) :=
  s.carryOut (watching find wakes) (wakeAt (Span.ofMillis s.now + within))

/-- Wait for a context to end. -/
def waitForEnd (s : Scenario) (ctx : Context) (within : Nat) : Done (Option Error) :=
  s.watchFor (fun s => s.system.ambient.err ctx) ctx.endsAt?.toList within

/-- Wait for a background call: its result, and when it was over. -/
def join (s : Scenario) (name : String) (within : Nat) :
    Done (Option (Except Error Unit × Nat)) :=
  s.watchFor (fun s =>
    match s.posts.lookup name with
    | some (.over result time) => some (result, time)
    | _ => none) [] within

/-- Wait for the bus to stop. -/
def waitForStop (s : Scenario) (within : Nat) : Done (Option Unit) :=
  s.watchFor (fun s => if s.bus.isStopped then some () else none) [] within

/-- Playing an act. -/
def acting : Work Unit (Scenario × Playing) Unit := fun m _ (s, p) =>
  if m.isPast (Span.ofMillis p.wake) then
    match p.act.collapse with
    | some text => ((s, p), some (.error (.application text)))
    | none => ((s.cancelAll (cancelledBy p), p), some (.ok (p.act.outcome p.attempt)))
  else ((s, p), none)

/-- Playing an act under a context that may end first. -/
def racing : Errand Playing (Except Error Unit) where
  isReady s p := s.system.ambient.isDone p.ctx || p.wake ≤ s.now
  wakes _ p := p.wake :: p.ctx.endsAt?.toList
  turn s p := do
    let ((s, p), verdict) := p.ctx.resume acting s.system.ambient.present () (s, p)
    match verdict.conclusion? with
    | none => .ok (s, .inl p)
    | some conclusion => .ok (s, .inr (← conclusion))

/-- Play an act, unless a context ends first. -/
def race (s : Scenario) (ctx : Context) (act : Act) : Done (Except Error Unit) :=
  s.carryOut racing (s.play act 1 ctx)

/-- Delivering a message. -/
def delivering : Errand Run (Except Error Unit) where
  isReady s run := run.isReady s.system.ambient
  wakes _ run :=
    run.wake?.toList ++ if run.isPausing then run.ctx.endsAt?.toList else []
  turn s run :=
    let (s, upshot, cancels) := s.turnRun run
    let s := s.cancelAll cancels
    match upshot with
    | .going run => .ok (s, .inl run)
    | .returned outcome => .ok (s, .inr outcome)
    | .collapsed text => .error (.application text)

/-- Deliver a message to a handler, through the stages before it. -/
def deliver (s : Scenario) (target : Target) (ctx : Context) (message : Message) :
    Done (Except Error Unit) :=
  let (s, run) := s.beginRun target ctx message
  s.carryOut delivering run

/-- Writing to the bus: the call is the program's own. -/
def calling : Errand Nat (Except Error Nat) where
  isReady s call := s.isReady (.writer call)
  wakes s call := s.wakesOf (.writer call)
  turn s call :=
    let (s, events) := s.move (.call call)
    let result := events.findSome? fun
      | .answered _ result => some result
      | _ => none
    .ok (s, result.elim (.inl call) .inr)

/-- Write messages to the bus. -/
def writeBus (s : Scenario) (ctx : Context) (messages : List Message) :
    Done (Except Error Nat) :=
  match s.bus.beginCall ctx messages with
  | .error e => .ok (s, some (.error e))
  | .ok (call, _) => (s.moved (.write ctx messages)).carryOut calling call

/-- Write one message to the bus. -/
def writeBusOne (s : Scenario) (ctx : Context) (message : Message) :
    Done (Except Error Unit) :=
  (s.writeBus ctx [message]).map fun (s, result) => (s, result.map (·.map fun _ => ()))

/-- Write one message to the bus in the background. -/
def post (s : Scenario) (name : String) (ctx : Context) (message : Message) : Scenario :=
  match s.bus.beginCall ctx [message] with
  | .error e => { s with posts := putLast name (.over (.error e) s.now) s.posts }
  | .ok (call, _) =>
      let s := s.moved (.write ctx [message])
      { s with posts := putLast name (.pending call) s.posts }.enlist [.writer call]

/-- Write one message to a sink. -/
def send (s : Scenario) (sink : Sink) (ctx : Context) (message : Message) :
    Done (Except Error Unit) :=
  match sink with
  | .outlet o =>
      let (result, shelf) := o.write s.shelf message
      .ok (s.stock shelf, some result)
  | .bus => s.writeBusOne ctx message

/-- Write a batch to a sink. -/
def sendBatch (s : Scenario) (sink : Sink) (ctx : Context) (messages : List Message) :
    Done (Except Error Nat) :=
  match sink with
  | .outlet o =>
      let (result, shelf) := o.writeBatch s.shelf messages
      .ok (s.stock shelf, some result)
  | .bus => s.writeBus ctx messages

/-- Publish under a key. -/
def publish (s : Scenario) (ctx : Context) (key : String) (content : Content) :
    Done (Except Error Unit) :=
  let (made, hub) := s.hub.publish ctx s.now key content
  let s := { s with hub }
  match made with
  | .error e => .ok (s, some (.error e))
  | .ok (sink, message) => s.send sink ctx message

/-- Publish a batch. -/
def publishBatch (s : Scenario) (ctx : Context) (items : List Hub.Item) :
    Done (Except Error Nat) :=
  let (made, hub) := s.hub.publishBatch ctx s.now items
  let s := { s with hub }
  match made with
  | .error e => .ok (s, some (.error e))
  | .ok (sink, messages) => s.sendBatch sink ctx messages

/-- Write a message as it is to the hub's writer. -/
def writeRaw (s : Scenario) (ctx : Context) (message : Message) :
    Done (Except Error Unit) :=
  match s.hub.getWriter with
  | .error e => .ok (s, some (.error e))
  | .ok sink => s.send sink ctx message

/-- Write messages as they are to the hub's writer. -/
def writeRawBatch (s : Scenario) (ctx : Context) (messages : List Message) :
    Done (Except Error Nat) :=
  match s.hub.getWriter with
  | .error e => .ok (s, some (.error e))
  | .ok sink => s.sendBatch sink ctx messages

/-- Register a reader.  The number of the hub's nodes is returned. -/
def read (s : Scenario) (key handler : String) (options : ReaderOptions Feed) :
    Scenario × Except Error Nat :=
  match s.hub.read key handler options with
  | .error e => (s, .error e)
  | .ok (hub, ns) => ({ s with hub }.notes ns, .ok hub.nodes.length)

/-- The refusal of a task. -/
def refusal : Error := .driver "subscription refused"

/-- Hand a task to a feed. -/
def execute (s : Scenario) (feed : Feed) (task : Task) : Except Error Unit × Scenario :=
  match feed with
  | .recorder accepts =>
      if accepts.any (· ≤ s.tasks.length) then (.error refusal, s)
      else (.ok (), { s with tasks := s.tasks ++ [task] })
  | .refusing => (.error refusal, s)
  | .bus => (.ok (), s.moved (.register task))

/-- Start the readers of the hub. -/
def startReaders (s : Scenario) : Scenario × Except Error Unit :=
  let (outcome, s) := s.hub.startWith execute report s
  (s, outcome)

/-- Start the bus. -/
def startBus (s : Scenario) (ctx : Context) : Scenario :=
  s.rouse ((s.moved (.start ctx)).setAlarms .watcher)

/-- Bind a payload type to a stream. -/
def setStream (s : Scenario) (type : PayloadType) (m : Metadata) : Scenario :=
  { s with hub := s.hub.setStream type m }

/-- Bind any key to a stream. -/
def setStreamByKey (s : Scenario) (key : String) (m : Metadata) : Scenario :=
  { s with hub := s.hub.setStreamByKey key m }

/-- Keep a copy of the registry. -/
def snapshot (s : Scenario) (name : String) : Scenario :=
  { s with snapshots := putLast name s.hub.registry s.snapshots }

/-- Make the buffer of lines unusable. -/
def spoilLines (s : Scenario) : Scenario :=
  { s with shelf := { s.shelf with lines := none } }

/-- Let everybody act who can without time passing, and take what has been
written in the journal. -/
def record (s : Scenario) : Scenario × Journal :=
  let s := s.settle
  ({ s with journal := .blank }, s.journal.sorted)

end Scenario
end PubSub
