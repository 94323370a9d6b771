import PubSub.Bus.System
import PubSub.Hub.Basic
import PubSub.Hub.Outlet
import PubSub.Scenario.Script

/-!
# Scenarios

A scenario is one program with a hub and a bus, under a clock of its own.
Its handlers follow scripts, and what they do is written down in a
journal.  Besides the program itself, the parties of the bus act: write
calls in the background, the dispatcher, the watcher and the invocations.

* `Scenario` — where things stand;
* `Run` — a delivery and the act that its handler is playing;
* `Journal` — what has happened.
-/

namespace PubSub

/-- Where a hub's messages go. -/
inductive Sink where
  | outlet (o : Outlet)
  | bus

/-- Where a reader's messages come from. -/
inductive Feed where
  /-- Nowhere: tasks are only recorded, as long as there are fewer than
  the given number. -/
  | recorder (accepts : Option Nat)
  /-- Nowhere: tasks are refused. -/
  | refusing
  | bus

/-- Who acts beside the program. -/
inductive Party where
  /-- A write call in the background. -/
  | writer (call : Nat)
  | dispatcher
  | watcher
  | invocation (id : Nat)
  /-- Who carries out the planned cancellations. -/
  | canceller
  deriving DecidableEq

/-- An act that is being played: the number of the call, the context it
was given, and when it will be over. -/
structure Playing where
  act : Act
  attempt : Nat
  ctx : Context
  wake : Nat

/-- A delivery to a handler under a context. -/
structure Run where
  handler : String
  messageId : String
  ctx : Context
  delivery : Delivery
  playing : Option Playing

/-- How an act ended. -/
inductive Manner where
  | succeeded
  | failed
  /-- Its context ended first, or it was given up. -/
  | dropped
  deriving DecidableEq

/-- A handler was called. -/
structure Beginning where
  time : Nat
  handler : String
  attempt : Nat
  ctx : Context
  message : Message

/-- An act ended. -/
structure Finish where
  time : Nat
  handler : String
  messageId : String
  attempt : Nat
  manner : Manner

/-- What has happened, in the order of events. -/
structure Journal where
  beginnings : List Beginning
  finishes : List Finish
  trace : List String
  logs : List LogEvent
  /-- The messages that outlets kept. -/
  written : List Message
  /-- The sizes of the batches that outlets took whole. -/
  batches : List Nat

/-- A write call in the background. -/
inductive Post where
  | pending (call : Nat)
  | over (result : Except Error Unit) (time : Nat)

/-- Where a scenario stands. -/
structure Scenario where
  system : System
  hub : Hub Sink Feed
  shelf : Shelf
  /-- The scripts of the handlers. -/
  cast : List (String × Script)
  /-- The contexts that the program has named. -/
  contexts : List (String × Context)
  /-- The contexts of the handler calls so far. -/
  called : List Context
  /-- How often a handler was called for a message. -/
  counts : List ((String × String) × Nat)
  /-- The runs of the bus's invocations. -/
  runs : List (Nat × Run)
  posts : List (String × Post)
  /-- The tasks that were recorded. -/
  tasks : List Task
  snapshots : List (String × Registry)
  /-- Cancellations to come, with their times. -/
  planned : List (Nat × Context)
  /-- The parties that have something to do, in the order of their turns. -/
  queue : List Party
  /-- When a party wants to be woken, in the order in which that was
  asked for. -/
  alarms : List (Nat × Party)
  journal : Journal

namespace Journal

/-- Nothing has happened. -/
def blank : Journal := ⟨[], [], [], [], [], []⟩

/-- Calls by time and handler. -/
def beginsBefore (a b : Beginning) : Bool :=
  a.time < b.time || a.time == b.time && decide (a.handler ≤ b.handler)

/-- Ends by time, handler, message and number of the call. -/
def finishesBefore (a b : Finish) : Bool :=
  if a.time ≠ b.time then a.time < b.time
  else if a.handler ≠ b.handler then decide (a.handler ≤ b.handler)
  else if a.messageId ≠ b.messageId then decide (a.messageId ≤ b.messageId)
  else a.attempt ≤ b.attempt

/-- The journal with its calls and ends in order. -/
def sorted (j : Journal) : Journal :=
  { j with
    beginnings := j.beginnings.mergeSort beginsBefore
    finishes := j.finishes.mergeSort finishesBefore }

end Journal

namespace Scenario

/-- The name of the context that is there from the start. -/
def rootName : String := "root"

/-- The beginning of a scenario. -/
def start (hub : Hub Sink Feed) (config : BusConfig) (cast : List (String × Script)) :
    Except Abort Scenario := do
  let bounds ← config.checked
  let (root, tokens) := Context.fresh .none
  .ok
    { system := .initial bounds tokens
      hub
      shelf := .empty
      cast
      contexts := [(rootName, root)]
      called := []
      counts := []
      runs := []
      posts := []
      tasks := []
      snapshots := []
      planned := []
      queue := []
      alarms := []
      journal := .blank }

/-- What the clock reads. -/
def now (s : Scenario) : Nat := s.system.ambient.now

/-- The bus. -/
def bus (s : Scenario) : Bus := s.system.bus

/-- Write down a log event. -/
def report (s : Scenario) (e : LogEvent) : Scenario :=
  { s with journal := { s.journal with logs := s.journal.logs ++ [e] } }

/-- Write down what a delivery tells. -/
def note (s : Scenario) : Note → Scenario
  | .log e => s.report e
  | .entry line | .trace line =>
      { s with journal := { s.journal with trace := s.journal.trace ++ [line] } }

/-- Write down many notes. -/
def notes (s : Scenario) (ns : List Note) : Scenario := ns.foldl note s

/-- Write down the end of an act of a run. -/
def finish (s : Scenario) (run : Run) (p : Playing) (manner : Manner) : Scenario :=
  let e : Finish := ⟨s.now, run.handler, run.messageId, p.attempt, manner⟩
  { s with journal := { s.journal with finishes := s.journal.finishes ++ [e] } }

/-- Put what the outlets took since on the shelf, and write it down. -/
def stock (s : Scenario) (shelf : Shelf) : Scenario :=
  let journal :=
    { s.journal with
      logs := s.journal.logs ++ shelf.reports
      written := s.journal.written ++ shelf.kept.drop s.shelf.kept.length
      batches := s.journal.batches ++ shelf.batches.drop s.shelf.batches.length }
  { s with shelf := { shelf with reports := [] }, journal }

/-- Settle the background call of a number. -/
def settlePost (s : Scenario) (call : Nat) (result : Except Error Nat) : Scenario :=
  { s with posts := s.posts.map fun (name, post) =>
      match post with
      | .pending id =>
          if id = call then (name, .over (result.map fun _ => ()) s.now) else (name, post)
      | .over .. => (name, post) }

/-- Take note of what can be seen of a move. -/
def observe (s : Scenario) : BusEvent → Scenario
  | .answered call result => s.settlePost call result
  | .log e => s.report e
  | _ => s

/-- Make a move. -/
def move (s : Scenario) (m : Move) : Scenario × List BusEvent :=
  let (system, events) := s.system.apply m
  (events.foldl observe { s with system }, events)

/-- Make a move of which nothing more needs to be known. -/
def moved (s : Scenario) (m : Move) : Scenario := (s.move m).1

end Scenario
end PubSub
