import PubSub.Scenario.Basic

/-!
# Turns

What a party of a scenario does when its turn comes.

* `Scenario.beginRun`, `Scenario.turnRun` — deliveries and their handlers;
* `Scenario.isReady`, `Scenario.turn` — the parties.
-/

namespace PubSub

/-- The pace of a scenario: a pause lasts as long as its interval. -/
def Pace.even : Pace := RetryPolicy.pace fun _ => 0.5

/-- Where a run stands after a turn. -/
inductive Upshot where
  | going (run : Run)
  | returned (outcome : Except Error Unit)
  | collapsed (text : String)

namespace Run

/-- Where a run stands, if its handler was not given up. -/
def upshot (run : Run) : Upshot :=
  match run.delivery.progress with
  | .finished outcome => .returned outcome
  | _ => .going run

/-- When the run wants to be woken. -/
def wake? (run : Run) : Option Nat :=
  match run.playing, run.delivery.progress with
  | some p, _ => some p.wake
  | none, .pausing until_ .. => some (wakeAt until_)
  | none, _ => none

/-- Is the run in a pause? -/
def isPausing (run : Run) : Bool :=
  match run.delivery.progress with
  | .pausing .. => true
  | _ => false

/-- Is there something to do for the run?  Only in a pause does it look at
its context. -/
def isReady (run : Run) (a : Ambient) : Bool :=
  run.wake?.all (· ≤ a.now) || run.isPausing && a.isDone run.ctx

end Run

namespace Scenario

/-- An act that begins now. -/
def play (s : Scenario) (act : Act) (attempt : Nat) (ctx : Context) : Playing :=
  ⟨act, attempt, ctx, wakeAt (Span.ofMillis s.now + act.duration)⟩

/-- Call a handler: its next act begins. -/
def callHandler (s : Scenario) (handler : String) (arrival : Arrival) :
    Scenario × Playing :=
  let key := (handler, arrival.message.id)
  let attempt := (s.counts.lookup key).getD 0 + 1
  let act := ((s.cast.lookup handler).getD .blank).act arrival.message.id attempt
  let beginning : Beginning := ⟨s.now, handler, attempt, arrival.ctx, arrival.message⟩
  ({ s with
      counts := (key, attempt) :: s.counts
      called := s.called ++ [arrival.ctx]
      journal := { s.journal with beginnings := s.journal.beginnings ++ [beginning] } },
    s.play act attempt arrival.ctx)

/-- Go on with a run after its delivery has moved. -/
def follow (s : Scenario) (run : Run) (step : Delivery × List Note) : Scenario × Run :=
  let s := s.notes step.2
  match step.1.progress with
  | .handling arrival _ =>
      let (s, playing) := s.callHandler run.handler arrival
      (s, { run with delivery := step.1, playing := some playing })
  | _ => (s, { run with delivery := step.1, playing := none })

/-- Begin to deliver a message. -/
def beginRun (s : Scenario) (target : Target) (ctx : Context) (message : Message) :
    Scenario × Run :=
  let step := Delivery.begin .even s.now (s.system.ambient.isDone ctx) target.stages
    ⟨ctx, message⟩
  s.follow ⟨target.handler, message.id, ctx, step.1, none⟩ step

/-- The clock and the tokens after an act has done its cancelling. -/
def ambientAfter (s : Scenario) (p : Playing) : Ambient :=
  let a := s.system.ambient
  if p.act.cancels then { a with tokens := a.tokens.cancel p.ctx } else a

/-- The contexts that an act cancels. -/
def cancelledBy (p : Playing) : List Context := if p.act.cancels then [p.ctx] else []

/-- An act is over: the delivery goes on with its outcome.  The last
component names the contexts to be cancelled. -/
def endAct (s : Scenario) (run : Run) (p : Playing) :
    Scenario × Upshot × List Context :=
  match p.act.collapse with
  | some text => (s.finish run p .dropped, .collapsed text, cancelledBy p)
  | none =>
      let outcome := p.act.outcome p.attempt
      let manner := match outcome with
        | .ok () => Manner.succeeded
        | .error _ => .failed
      let ended := (s.ambientAfter p).isDone run.ctx
      let (s, run) := (s.finish run p manner).follow run
        (run.delivery.returned .even s.now ended outcome)
      (s, run.upshot, cancelledBy p)

/-- Let a run go on that has something to do. -/
def turnRun (s : Scenario) (run : Run) : Scenario × Upshot × List Context :=
  let ended := s.system.ambient.isDone run.ctx
  match run.playing with
  | some p => if s.now < p.wake then (s, .going run, []) else s.endAct run p
  | none =>
      if run.isPausing then
        let step := if ended then run.delivery.giveUp .even s.now
          else run.delivery.resume .even s.now ended
        let (s, run) := s.follow run step
        (s, run.upshot, [])
      else (s, run.upshot, [])

/-- The run of an invocation. -/
def run? (s : Scenario) (id : Nat) : Option Run := s.runs.lookup id

/-- Forget the run of an invocation. -/
def dropRun (s : Scenario) (id : Nat) : Scenario :=
  { s with runs := s.runs.filter (·.1 != id) }

/-- Keep the run of an invocation. -/
def keepRun (s : Scenario) (id : Nat) (run : Run) : Scenario :=
  { s with runs := (id, run) :: s.runs.filter (·.1 != id) }

/-- Cancel contexts. -/
def cancelAll (s : Scenario) (ctxs : List Context) : Scenario :=
  ctxs.foldl (fun s ctx => s.moved (.cancel ctx)) s

/-- An invocation goes on after its run has had a turn.  Its own
cancelling takes effect when it has answered. -/
def answerRun (s : Scenario) (id : Nat) (upshot : Upshot) (cancels : List Context) :
    Scenario :=
  let s := match upshot with
    | .going run => s.keepRun id run
    | .returned outcome => (s.moved (.invocation id (.returned outcome))).dropRun id
    | .collapsed _ => (s.moved (.invocation id .collapsed)).dropRun id
  s.cancelAll cancels

/-- The context of an invocation has ended: what its handler is playing is
dropped. -/
def interrupt (s : Scenario) (i : Invocation) : Scenario :=
  let s := match s.run? i.id with
    | some run => run.playing.elim s fun p => s.finish run p .dropped
    | none => s
  (s.moved (.invocation i.id .pending)).dropRun i.id

/-- The turn of an invocation. -/
def turnInvocation (s : Scenario) (i : Invocation) : Scenario :=
  match s.system.ambient.err i.ctx, s.run? i.id with
  | some _, _ => s.interrupt i
  | none, none =>
      let (s, run) := (s.moved (.invocation i.id .pending)).beginRun i.task.target i.ctx
        i.message
      s.answerRun i.id run.upshot []
  | none, some run =>
      let (s, upshot, cancels) := s.turnRun run
      s.answerRun i.id upshot cancels

/-- Carry out the first planned cancellation that is due. -/
def turnCanceller (s : Scenario) : Scenario :=
  match s.planned.find? (·.1 ≤ s.now) with
  | some (time, ctx) =>
      { s with planned := s.planned.filter (time < ·.1) }.moved (.cancel ctx)
  | none => s

/-- Has a party something to do? -/
def isReady (s : Scenario) : Party → Bool
  | .writer call => (s.bus.call? call).any (s.bus.callReady s.system.ambient)
  | .dispatcher => s.bus.dispatcherReady
  | .watcher => s.bus.watcherReady s.system.ambient
  | .invocation id =>
      (s.bus.invocation? id).any fun i =>
        s.system.ambient.isDone i.ctx || (s.run? id).all (·.isReady s.system.ambient)
  | .canceller => s.planned.any (·.1 ≤ s.now)

/-- The turn of a party. -/
def turn (s : Scenario) : Party → Scenario
  | .writer call => s.moved (.call call)
  | .dispatcher => s.moved .dispatcher
  | .watcher => s.moved .watcher
  | .invocation id =>
      match s.bus.invocation? id with
      | some i => s.turnInvocation i
      | none => s
  | .canceller => s.turnCanceller

/-- When a party wants to be woken, if not by another one: the end of its
context comes before its own work. -/
def wakesOf (s : Scenario) : Party → List Nat
  | .writer call => ((s.bus.call? call).bind (·.ctx.endsAt?)).toList
  | .dispatcher => []
  | .watcher =>
      match s.bus.watcher with
      | .watching => (s.bus.root.bind (·.endsAt?)).toList
      | _ => []
  | .invocation id =>
      match s.bus.invocation? id with
      | some i => i.ctx.endsAt?.toList ++ ((s.run? id).bind (·.wake?)).toList
      | none => []
  | .canceller => s.planned.map (·.1)

end Scenario
end PubSub
