import PubSub.Bus.Basic

/-!
# Steps of the bus

Slots of the queue and permits are handed out in the order in which they
were asked for: whoever gives one back gives it to the first in line.

* `Bus.start`, `Bus.register`, `Bus.beginCall` — what is done to a bus;
* `Bus.stepCall`, `Bus.stepDispatcher`, `Bus.stepWatcher`,
  `Bus.pollInvocation` — what its parties do;
* `Bus.callReady`, `Bus.dispatcherReady`, `Bus.watcherReady` — whether
  there is something for them to do.
-/

namespace PubSub.Bus

/-- The slots of the queue that are neither filled nor set aside. -/
def freeSlots (b : Bus) : Nat :=
  b.config.queueCapacity - b.queue.length
    - (b.calls.filter (·.place == .granted)).length

/-- Change the call of a number. -/
def updateCall (b : Bus) (id : Nat) (f : Call → Call) : Bus :=
  { b with calls := b.calls.map fun c => if c.id = id then f c else c }

/-- A slot has become free: it is set aside for the first call in line. -/
def releaseSlot (b : Bus) : Bus :=
  match b.line with
  | [] => b
  | id :: line => { b with line }.updateCall id fun c => { c with place := .granted }

/-- A permit has become free: it goes to whoever is in line for it. -/
def releasePermit (b : Bus) : Bus :=
  match b.dispatcher, b.watcher with
  | .placing m task rest .waiting, _ =>
      { b with dispatcher := .placing m task rest .holding }
  | _, .draining held =>
      if held < b.config.maxInFlight then { b with watcher := .draining (held + 1) }
      else { b with permits := b.permits + 1 }
  | _, _ => { b with permits := b.permits + 1 }

/-- Start the bus under a context.  Only the first start counts. -/
def start (b : Bus) (ctx : Context) : Bus × List BusEvent :=
  if b.isStarted then (b, [])
  else
    ({ b with root := some ctx, dispatcher := .receiving, watcher := .watching },
      [.log (.plain .debug "in-memory bus started"
        [("queue_capacity", .number b.config.queueCapacity),
          ("max_in_flight", .number b.config.maxInFlight)])])

/-- Register a listener. -/
def register (b : Bus) (task : Task) : Bus × List BusEvent :=
  ({ b with listeners := b.listeners ++ [task] },
    [.log (.plain .debug "bus listener registered"
      [("stream", .text task.stream), ("group", .text task.group)])])

/-- Begin a call that writes messages, unless the bus is not open. -/
def beginCall (b : Bus) (ctx : Context) (messages : List Message) :
    Except Error (Nat × Bus) :=
  if !b.isStarted then .error .busNotStarted
  else if !b.senderOpen then .error .busClosed
  else
    .ok (b.nextCall,
      { b with
        calls := b.calls ++ [⟨b.nextCall, ctx, messages, 0, .calling⟩]
        nextCall := b.nextCall + 1 })

/-- End a call. -/
def answer (b : Bus) (c : Call) (result : Except Error Nat) : Bus × List BusEvent :=
  ({ b with
      calls := b.calls.filter (·.id ≠ c.id)
      line := b.line.filter (· ≠ c.id) },
    [.answered c.id result])

/-- End a call for which a slot was set aside: the next in line gets it. -/
def forfeit (b : Bus) (c : Call) (result : Except Error Nat) : Bus × List BusEvent :=
  let (b, events) := b.answer c result
  (if b.receiverOpen then b.releaseSlot else b, events)

/-- Put a call's next message on the queue. -/
def push (b : Bus) (c : Call) (m : Message) (pending : List Message) :
    Bus × List BusEvent :=
  ({ b with queue := b.queue ++ [m] }.updateCall c.id fun c =>
      { c with pending, written := c.written + 1, place := .calling },
    [.accepted c.id m])

/-- Put a call in line for a slot. -/
def queueUp (b : Bus) (c : Call) : Bus × List BusEvent :=
  ({ b with line := b.line ++ [c.id] }.updateCall c.id fun c =>
      { c with place := .waiting },
    [])

/-- Has a call something to do? -/
def callReady (b : Bus) (a : Ambient) (c : Call) : Bool :=
  match c.place with
  | .calling | .granted => true
  | .waiting => a.isDone c.ctx || !b.receiverOpen

/-- A step of a call.  Its context is looked at before anything else. -/
def stepCall (b : Bus) (a : Ambient) (c : Call) : Bus × List BusEvent :=
  match c.pending, c.place, a.err c.ctx with
  | [], _, _ => b.answer c (.ok c.written)
  | _, .granted, some e => b.forfeit c (.error e)
  | _, _, some e => b.answer c (.error e)
  | m :: pending, place, none =>
      if !b.receiverOpen then b.answer c (.error .busClosed)
      else
        match place with
        | .granted => b.push c m pending
        | .calling =>
            if 0 < b.freeSlots then b.push c m pending else b.queueUp c
        | .waiting => (b, [])

/-- Can no message come any more? -/
def isClosed (b : Bus) : Bool := !b.senderOpen && b.calls.isEmpty

/-- Has the dispatcher something to do? -/
def dispatcherReady (b : Bus) : Bool :=
  match b.dispatcher with
  | .receiving => !b.queue.isEmpty || b.isClosed
  | .placing _ _ _ turn => turn ≠ .waiting
  | _ => false

/-- What the dispatcher does after a message has been given to a listener. -/
def nextPlacing (m : Message) : List Task → Dispatcher
  | [] => .receiving
  | task :: rest => .placing m task rest .asking

/-- Report a message that nobody listens for. -/
def unheard (m : Message) : BusEvent :=
  .log (.plain .warn "no listener, message dropped"
    [("stream", .text m.stream), ("id", .text m.id)])

/-- Take a message off the queue.  It is meant for the listeners that its
stream has now. -/
def take (b : Bus) (m : Message) (queue : List Message) : Bus × List BusEvent :=
  let b := { b with queue }.releaseSlot
  match b.listeners.filter (·.stream == m.stream) with
  | [] => (b, [.taken m, unheard m])
  | task :: rest => ({ b with dispatcher := .placing m task rest .asking }, [.taken m])

/-- The context for an invocation: a child of the bus's context, with a
deadline if the task has a timeout. -/
def contextFor (root : Context) (task : Task) (a : Ambient) :
    Except Abort (Context × Tokens) :=
  if task.timeout = 0 then .ok (root.child a.tokens)
  else root.withTimeout a.now task.timeout a.tokens

/-- The dispatcher breaks down: nobody takes messages off any more. -/
def abort (b : Bus) (why : Abort) : Bus :=
  { b with dispatcher := .aborted why, receiverOpen := false, queue := [] }.releasePermit

/-- Begin an invocation with the permit that the dispatcher has. -/
def spawn (b : Bus) (a : Ambient) (m : Message) (task : Task) (rest : List Task) :
    Bus × Tokens × List BusEvent :=
  match b.root with
  | none => (b, a.tokens, [])
  | some root =>
      match contextFor root task a with
      | .error why => (b.abort why, a.tokens, [])
      | .ok (ctx, tokens) =>
          let i : Invocation := ⟨b.nextInvocation, task, m, ctx, false⟩
          ({ b with
              running := b.running ++ [i]
              nextInvocation := b.nextInvocation + 1
              dispatcher := nextPlacing m rest },
            tokens, [.spawned i])

/-- A step of the dispatcher. -/
def stepDispatcher (b : Bus) (a : Ambient) : Bus × Tokens × List BusEvent :=
  match b.dispatcher with
  | .receiving =>
      match b.queue with
      | m :: queue =>
          let (b, events) := b.take m queue
          (b, a.tokens, events)
      | [] =>
          if b.isClosed then
            ({ b with dispatcher := .returned, receiverOpen := false }, a.tokens, [])
          else (b, a.tokens, [])
  | .placing m task rest .asking =>
      if 0 < b.permits then
        { b with permits := b.permits - 1 }.spawn a m task rest
      else ({ b with dispatcher := .placing m task rest .waiting }, a.tokens, [])
  | .placing m task rest .holding => b.spawn a m task rest
  | _ => (b, a.tokens, [])

/-- Has the watcher something to do? -/
def watcherReady (b : Bus) (a : Ambient) : Bool :=
  match b.watcher with
  | .watching => b.root.any a.isDone
  | .joining =>
      match b.dispatcher with
      | .returned | .aborted _ => true
      | _ => false
  | .draining held => held = b.config.maxInFlight
  | _ => false

/-- Report the end of the dispatcher, if it was no regular one. -/
def joinEvents (b : Bus) : List BusEvent :=
  match b.dispatcher with
  | .aborted why =>
      [.log (.plain .error "bus dispatch loop aborted"
        [("error", .text s!"task 1 panicked with message {Text.quoted why.message}")])]
  | _ => []

/-- A step of the watcher. -/
def stepWatcher (b : Bus) (a : Ambient) : Bus × List BusEvent :=
  if !b.watcherReady a then (b, [])
  else
    match b.watcher with
    | .watching =>
        ({ b with senderOpen := false, watcher := .joining },
          [.log (.plain .debug "in-memory bus shutting down" [])])
    | .joining =>
        ({ b with watcher := .draining b.permits, permits := 0 }, b.joinEvents)
    | .draining held =>
        ({ b with watcher := .stopped, permits := b.permits + held },
          [.log (.plain .debug "in-memory bus stopped" [])])
    | _ => (b, [])

/-- What a handler has to say when it is asked. -/
inductive Reply where
  | pending
  | returned (outcome : Except Error Unit)
  | collapsed

/-- What is reported of an invocation that failed. -/
def failureEvent (i : Invocation) (e : Error) : BusEvent :=
  let fields : Fields :=
    [("stream", .text i.message.stream), ("id", .text i.message.id),
      ("group", .text i.task.group), ("error", .text e.message)]
  if e.isContextEnd then .log (.plain .warn "message handler interrupted" fields)
  else .log (.plain .error "message handler failed" fields)

/-- What is reported of an invocation that has ended. -/
def endingEvents (i : Invocation) (ending : Ending) : List BusEvent :=
  .ended i.id ending ::
    match ending with
    | .returned (.error e) | .interrupted e => [failureEvent i e]
    | _ => []

/-- End an invocation and give its permit back. -/
def finish (b : Bus) (i : Invocation) (ending : Ending) : Bus × List BusEvent :=
  ({ b with running := b.running.filter (·.id ≠ i.id) }.releasePermit,
    endingEvents i ending)

/-- Call the handler of an invocation. -/
def enterHandler (b : Bus) (i : Invocation) : Bus × List BusEvent :=
  ({ b with running := b.running.map fun j =>
      if j.id = i.id then { j with entered := true } else j },
    [.entered i.id])

/-- Ask an invocation.  If its context has ended (`ended`), the handler
has no say; if not, the handler is called, or asked for its outcome. -/
def pollInvocation (b : Bus) (i : Invocation) (ended : Option Error) (reply : Reply) :
    Bus × List BusEvent :=
  match ended, i.entered, reply with
  | some e, _, _ => b.finish i (.interrupted e)
  | none, false, _ => b.enterHandler i
  | none, true, .pending => (b, [])
  | none, true, .returned outcome => b.finish i (.returned outcome)
  | none, true, .collapsed => b.finish i .collapsed

end PubSub.Bus
