import PubSub.Scenario.Turn

/-!
# The schedule

The parties act in turns.  Whoever comes to have something to do takes a
place at the end of the queue; at its turn a party does all it can.  Time
passes only when the queue is empty and the program waits, and then to
the next instant at which somebody wants to be woken.

The program itself comes last: it goes on when the queue is empty.  Only
when time has passed does it go first.

* `Scenario.rouse` — who has come to have something to do;
* `Scenario.settle` — turns, until nobody has anything to do;
* `Errand`, `Scenario.carryOut` — what the program does and waits for.
-/

namespace PubSub

/-- Something that the program does and may have to wait for.  `σ` is
where it stands and `α` what it comes to. -/
structure Errand (σ α : Type) where
  /-- Can it go on? -/
  isReady : Scenario → σ → Bool
  /-- When it can go on if nothing happens before. -/
  wakes : Scenario → σ → List Nat
  /-- Go on. -/
  turn : Scenario → σ → Except Abort (Scenario × (σ ⊕ α))

namespace Scenario

/-- The background calls that are not over. -/
def writers (s : Scenario) : List Party :=
  s.posts.filterMap fun
    | (_, .pending call) => some (.writer call)
    | _ => none

/-- The invocations, in the order of their beginning. -/
def invocations (s : Scenario) : List Party :=
  s.bus.running.map fun i => .invocation i.id

/-- The parties in the order in which they take places in the queue. -/
def parties (s : Scenario) : List Party :=
  s.writers ++ .dispatcher :: .watcher :: s.invocations ++ [.canceller]

/-- The parties in the order in which a cancellation reaches them: of the
invocations the latest comes first. -/
def reached (s : Scenario) : List Party :=
  let ready := s.invocations.filter s.isReady
  ready.reverse.take 1 ++ ready ++ s.parties

/-- Give places in the queue to parties that have something to do. -/
def enlist (s : Scenario) (ps : List Party) : Scenario :=
  ps.foldl (fun s p =>
    if s.isReady p && !s.queue.contains p then { s with queue := s.queue ++ [p] }
    else s) s

/-- How many cancellations there have been. -/
def cancellations (s : Scenario) : Nat := s.system.ambient.tokens.cancelled.length

/-- Give places in the queue to all who have come to have something to do
since things stood as in `before`. -/
def rouse (before s : Scenario) : Scenario :=
  if s.cancellations = before.cancellations then s.enlist s.parties
  else s.enlist s.reached

/-- Set the alarms that a party wants and has not set. -/
def setAlarms (s : Scenario) (p : Party) : Scenario :=
  let wanted := (s.wakesOf p).filter fun t => s.now < t && !s.alarms.contains (t, p)
  { s with alarms := s.alarms ++ wanted.map (·, p) }

/-- Turns, until nobody has anything to do or `fuel` runs out. -/
def settleWithin : (fuel : Nat) → Scenario → Scenario
  | 0, s => s
  | fuel + 1, s =>
      match s.queue with
      | [] => s
      | p :: queue =>
          if s.isReady p then settleWithin fuel (s.rouse ((s.turn p).setAlarms p))
          else settleWithin fuel { s with queue }

/-- More turns than any scenario takes. -/
def manyTurns : Nat := 1000000000

/-- Turns, until nobody has anything to do. -/
def settle (s : Scenario) : Scenario := settleWithin manyTurns s

/-- The alarms that somebody still waits for. -/
def liveAlarms (s : Scenario) : List (Nat × Party) :=
  s.alarms.filter fun (t, p) => (s.wakesOf p).contains t

/-- Let time pass until the clock reads `time`, where the next alarms
are. -/
def advanceTo (s : Scenario) (time : Nat) : Scenario :=
  let due := (s.liveAlarms.filter (·.1 ≤ time)).map (·.2)
  let s := { s with alarms := s.liveAlarms.filter (time < ·.1) }
  let s := s.moved (.advance (time - s.now))
  (s.enlist due).enlist s.parties

variable {σ α : Type}

/-- The program goes on, until it has to wait. -/
def goOn (e : Errand σ α) :
    (fuel : Nat) → Scenario → σ → Except Abort (Scenario × (σ ⊕ α))
  | 0, s, x => .ok (s, .inl x)
  | fuel + 1, s, x =>
      if !e.isReady s x then .ok (s, .inl x)
      else do
        let (after, step) ← e.turn s x
        match step with
        | .inl x => goOn e fuel (s.rouse after) x
        | .inr a => .ok (s.rouse after, .inr a)

/-- The instant to which time passes when everybody waits. -/
def nextWake? (s : Scenario) (mine : List Nat) : Option Nat :=
  (mine ++ s.liveAlarms.map (·.1)).min?

/-- The program carries out an errand.  There is no result if it waits in
vain. -/
def carryOutWithin (e : Errand σ α) : (fuel : Nat) → Scenario → σ →
    Except Abort (Scenario × Option α)
  | 0, s, _ => .ok (s, none)
  | fuel + 1, s, x => do
      let (s, step) ← goOn e manyTurns s x
      match step with
      | .inr a => .ok (s, some a)
      | .inl x =>
          let s := s.settle
          if e.isReady s x then carryOutWithin e fuel s x
          else
            match s.nextWake? (e.wakes s x) with
            | some time => carryOutWithin e fuel (s.advanceTo time) x
            | none => .ok (s, none)

/-- The program carries out an errand. -/
def carryOut (s : Scenario) (e : Errand σ α) (x : σ) :
    Except Abort (Scenario × Option α) :=
  carryOutWithin e manyTurns s x

end Scenario
end PubSub
