import PubSub.Bus.Step

/-!
# A bus and its surroundings

A bus runs under a clock, among contexts that anyone may derive and
cancel.  A move is one step of a party of the bus, or something that the
surroundings do: a call, a registration, a cancellation, time that
passes.  What the handlers do is also up to the surroundings, through
their replies.

* `System`, `Move` — the states and what can happen in them;
* `System.apply` — the state after a move, and what can be seen of it;
* `System.run` — the same for many moves;
* `System.Reachable` — the states of all runs of a bus.
-/

namespace PubSub

/-- A bus, the clock and the tokens. -/
structure System where
  bus : Bus
  ambient : Ambient

/-- Something that can happen. -/
inductive Move where
  | start (ctx : Context)
  | register (task : Task)
  | write (ctx : Context) (messages : List Message)
  | call (id : Nat)
  | dispatcher
  | watcher
  | invocation (id : Nat) (reply : Bus.Reply)
  /-- Hand out a token. -/
  | issue
  | cancel (ctx : Context)
  /-- Let time pass. -/
  | advance (millis : Nat)

namespace System

/-- A bus that has not been started, at the beginning of time. -/
def initial (config : BusConfig) (tokens : Tokens) : System :=
  ⟨.ofConfig config.effective, ⟨0, tokens⟩⟩

/-- The system after a step that concerns the bus alone. -/
def ofStep (s : System) (step : Bus × List BusEvent) : System × List BusEvent :=
  ({ s with bus := step.1 }, step.2)

/-- The state after a move, and what can be seen of it.  A party that has
nothing to do does nothing. -/
def apply (s : System) : Move → System × List BusEvent
  | .start ctx => s.ofStep (s.bus.start ctx)
  | .register task => s.ofStep (s.bus.register task)
  | .write ctx messages =>
      match s.bus.beginCall ctx messages with
      | .ok (_, bus) => ({ s with bus }, [])
      | .error _ => (s, [])
  | .call id =>
      match s.bus.call? id with
      | some c => s.ofStep (s.bus.stepCall s.ambient c)
      | none => (s, [])
  | .dispatcher =>
      let (bus, tokens, events) := s.bus.stepDispatcher s.ambient
      (⟨bus, { s.ambient with tokens }⟩, events)
  | .watcher => s.ofStep (s.bus.stepWatcher s.ambient)
  | .invocation id reply =>
      match s.bus.invocation? id with
      | some i => s.ofStep (s.bus.pollInvocation i (s.ambient.err i.ctx) reply)
      | none => (s, [])
  | .issue =>
      let tokens := { s.ambient.tokens with issued := s.ambient.tokens.issued + 1 }
      ({ s with ambient := { s.ambient with tokens } }, [])
  | .cancel ctx =>
      ({ s with ambient := { s.ambient with tokens := s.ambient.tokens.cancel ctx } }, [])
  | .advance millis =>
      ({ s with ambient := { s.ambient with now := s.ambient.now + millis } }, [])

/-- The state after many moves, and what can be seen of them all. -/
def run (s : System) : List Move → System × List BusEvent
  | [] => (s, [])
  | m :: moves =>
      let (s, first) := s.apply m
      let (s, later) := s.run moves
      (s, first ++ later)

/-- The states of all runs from an initial one. -/
def Reachable (initial s : System) : Prop :=
  ∃ moves, (initial.run moves).1 = s

end System
end PubSub
