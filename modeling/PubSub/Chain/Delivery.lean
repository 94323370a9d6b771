import PubSub.Chain.Stage

/-!
# Deliveries

A delivery takes one message through the stages to the handler, and the
handler's outcome back.  On the way in, stages that have something to do
on the way out leave a frame.  When an attempt fails, the innermost
frame that repeats attempts may call for a pause and another attempt;
then everything inside that frame is entered again from the start.

A delivery never takes time by itself.  It waits for two things, the
handler and the end of a pause, and is told when they come.

* `Delivery.enter` — go in through stages;
* `Delivery.leave` — go out through frames with an outcome;
* `Delivery.begin`, `Delivery.returned`, `Delivery.resume`,
  `Delivery.giveUp` — what can happen to a delivery.
-/

namespace PubSub

/-- A repeated attempt: its policy, its number, when the first one began,
and what each of them enters. -/
structure Attempts where
  policy : RetryPolicy
  number : Nat
  began : Nat
  inner : List Stage
  arrival : Arrival

/-- What is left to do on the way out. -/
inductive Frame where
  | tag (name : String)
  | logging (span : LogSpan)
  | retry (attempts : Attempts)

/-- What a delivery tells the outside. -/
inductive Note where
  | log (e : LogEvent)
  /-- A tag is entered. -/
  | entry (line : String)
  | trace (line : String)

/-- Where a delivery stands.  Frames are listed from the innermost. -/
inductive Progress where
  /-- The handler has been entered and has not returned. -/
  | handling (arrival : Arrival) (frames : List Frame)
  /-- An attempt failed; the next one begins at an instant. -/
  | pausing (until_ : Nat) (failure : Error) (attempts : Attempts) (frames : List Frame)
  | finished (outcome : Except Error Unit)

/-- A delivery: where it stands, and how many pauses it has drawn. -/
structure Delivery where
  progress : Progress
  drawn : Nat

/-- The pause after a failed attempt, given the policy, how many repeats
came before, and how many pauses the delivery drew before. -/
abbrev Pace := RetryPolicy → (repeated drawn : Nat) → Nat

/-- The usual pace: pauses around the policy's intervals, for a sequence
of drawn numbers. -/
def RetryPolicy.pace (draws : Nat → Float) : Pace := fun policy repeated drawn =>
  policy.pause (policy.interval repeated) (draws drawn)

namespace Delivery

/-- The open spans, the outermost first. -/
def openSpans (frames : List Frame) : List LogSpan :=
  (frames.filterMap fun
    | .logging span => some span
    | _ => none).reverse

/-- An event inside the spans of some frames. -/
def report (level : LogLevel) (message : String) (fields : Fields)
    (frames : List Frame) : Note :=
  .log ⟨level, message, fields, openSpans frames⟩

/-- The error of a failed attempt as a field. -/
def errorField (e : Error) : String × FieldValue := ("error", .text e.message)

/-- What a logging stage reports of an outcome. -/
def reportOutcome (outcome : Except Error Unit) (frames : List Frame) : Note :=
  match outcome with
  | .ok () => report .debug "message handled" [] frames
  | .error e => report .warn "message handling failed" [errorField e] frames

/-- What a tag says on the way out. -/
def tagOutcome (name : String) : Except Error Unit → String
  | .ok () => name ++ " ok"
  | .error _ => name ++ " err"

/-- Whether another attempt follows a failed one: not after the context
has ended, and not beyond the budget. -/
def nextPause (pace : Pace) (now : Nat) (ended : Bool) (a : Attempts) (drawn : Nat) :
    Option Nat :=
  if ended then none
  else withinBudget a.policy.budget (Span.ofMillis (now - a.began))
    (pace a.policy (a.number - 1) drawn)

/-- Go out through frames with an outcome, up to a frame that calls for
another attempt.  `ended` says whether the delivery's context has
ended. -/
def leave (pace : Pace) (now : Nat) (ended : Bool) (outcome : Except Error Unit)
    (drawn : Nat) : List Frame → Delivery × List Note
  | [] => (⟨.finished outcome, drawn⟩, [])
  | .tag name :: frames =>
      let (d, notes) := leave pace now ended outcome drawn frames
      (d, .trace (tagOutcome name outcome) :: notes)
  | .logging span :: frames =>
      let (d, notes) := leave pace now ended outcome drawn frames
      (d, reportOutcome outcome (.logging span :: frames) :: notes)
  | .retry a :: frames =>
      match outcome with
      | .ok () => leave pace now ended outcome drawn frames
      | .error e =>
          let fields := [("attempt", .number a.number), errorField e]
          match nextPause pace now ended a drawn with
          | some pause =>
              (⟨.pausing (Span.ofMillis now + pause) e
                  { a with number := a.number + 1 } frames, drawn + 1⟩,
                [report .warn "attempt failed, backing off" fields frames])
          | none =>
              let (d, notes) := leave pace now ended outcome (drawn + 1) frames
              if ended then (d, notes)
              else (d, report .debug "retry budget exhausted" fields frames :: notes)

/-- Go in through stages, up to the handler or the first failure. -/
def enter (pace : Pace) (now : Nat) (ended : Bool) (drawn : Nat) :
    List Stage → Arrival → List Frame → Delivery × List Note
  | [], arrival, frames => (⟨.handling arrival frames, drawn⟩, [])
  | .unmarshal decoding :: stages, arrival, frames =>
      match decoding.restore arrival.message with
      | .ok message =>
          enter pace now ended drawn stages { arrival with message } frames
      | .error e => leave pace now ended (.error e) drawn frames
  | .group name :: stages, arrival, frames =>
      enter pace now ended drawn stages (arrival.inGroup name) frames
  | .correlation :: stages, arrival, frames =>
      enter pace now ended drawn stages arrival.inFlow frames
  | .retry policy :: stages, arrival, frames =>
      enter pace now ended drawn stages arrival
        (.retry ⟨policy, 1, now, stages, arrival⟩ :: frames)
  | .logging group :: stages, arrival, frames =>
      enter pace now ended drawn stages arrival
        (.logging (arrival.logSpan group) :: frames)
  | .tag name :: stages, arrival, frames =>
      let (d, notes) := enter pace now ended drawn stages arrival (.tag name :: frames)
      (d, .entry (arrival.tagLine name) :: notes)

/-- Begin a delivery. -/
def begin (pace : Pace) (now : Nat) (ended : Bool) (stages : List Stage)
    (arrival : Arrival) : Delivery × List Note :=
  enter pace now ended 0 stages arrival []

/-- The handler has returned. -/
def returned (pace : Pace) (now : Nat) (ended : Bool) (outcome : Except Error Unit)
    (d : Delivery) : Delivery × List Note :=
  match d.progress with
  | .handling _ frames => leave pace now ended outcome d.drawn frames
  | _ => (d, [])

/-- The pause is over. -/
def resume (pace : Pace) (now : Nat) (ended : Bool) (d : Delivery) :
    Delivery × List Note :=
  match d.progress with
  | .pausing _ _ attempts frames =>
      enter pace now ended d.drawn attempts.inner attempts.arrival
        (.retry attempts :: frames)
  | _ => (d, [])

/-- The context has ended during the pause: the last failure stands. -/
def giveUp (pace : Pace) (now : Nat) (d : Delivery) : Delivery × List Note :=
  match d.progress with
  | .pausing _ failure _ frames =>
      leave pace now true (.error failure) d.drawn frames
  | _ => (d, [])

end Delivery
end PubSub
