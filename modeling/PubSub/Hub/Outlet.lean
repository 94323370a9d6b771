import PubSub.Log
import PubSub.Message.Basic

/-!
# Outlets

An outlet is a writer that takes messages at once and keeps them in
memory, or merely reports them.  A batch is written message by message,
up to the first failure, unless the outlet has a way of its own.

* `Outlet` — the ways of writing;
* `Shelf` — what the outlets of a program have taken;
* `Outlet.write`, `Outlet.writeBatch` — writing.
-/

namespace PubSub

/-- A way of writing messages that never waits. -/
inductive Outlet where
  /-- Accept and forget. -/
  | discard
  /-- Append a line for each message to a buffer. -/
  | lines
  /-- Report each message. -/
  | report
  /-- Keep each message; the `failAt`-th call is refused. -/
  | keep (failAt : Option Nat)
  /-- Keep each message, and take batches whole. -/
  | keepWhole (failAt : Option Nat)
  deriving DecidableEq, Repr

/-- What has been written so far. -/
structure Shelf where
  /-- The lines of the buffer; `none` once the buffer cannot be locked any
  more. -/
  lines : Option (List String)
  calls : Nat
  kept : List Message
  batches : List Nat
  reports : List LogEvent

namespace Shelf

/-- Nothing written yet. -/
def empty : Shelf := ⟨some [], 0, [], [], []⟩

end Shelf

namespace Outlet

/-- The line for a message. -/
def lineOf (m : Message) : String :=
  s!"[{m.stream}] {m.type} {m.id} {Utf8.decodeLossy m.data}"

/-- The report of a message. -/
def reportOf (m : Message) : LogEvent :=
  .plain .info "message written"
    [("stream", .text m.stream), ("message_type", .text m.type), ("id", .text m.id),
      ("correlation_id", .text m.correlationId),
      ("payload", .text (Utf8.decodeLossy m.data))]

/-- Keep a message, unless this call is the one to be refused. -/
def keepOne (failAt : Option Nat) (s : Shelf) (m : Message) : Except Error Unit × Shelf :=
  let calls := s.calls + 1
  if failAt = some calls then
    (.error (.driver s!"write {calls} refused"), { s with calls })
  else (.ok (), { s with calls, kept := s.kept ++ [m] })

/-- Write one message. -/
def write (o : Outlet) (s : Shelf) (m : Message) : Except Error Unit × Shelf :=
  match o with
  | .discard => (.ok (), s)
  | .lines =>
      match s.lines with
      | some written => (.ok (), { s with lines := some (written ++ [lineOf m]) })
      | none => (.error (.lockPoisoned "log writer buffer"), s)
  | .report => (.ok (), { s with reports := s.reports ++ [reportOf m] })
  | .keep failAt | .keepWhole failAt => keepOne failAt s m

/-- Write messages one by one, up to the first failure. -/
def writeEach (o : Outlet) (s : Shelf) : List Message → Except Error Unit × Shelf
  | [] => (.ok (), s)
  | m :: messages =>
      match o.write s m with
      | (.ok (), s) => o.writeEach s messages
      | (.error e, s) => (.error e, s)

/-- Write a batch; its size is returned. -/
def writeBatch (o : Outlet) (s : Shelf) (messages : List Message) :
    Except Error Nat × Shelf :=
  match o with
  | .keepWhole _ =>
      (.ok messages.length,
        { s with kept := s.kept ++ messages, batches := s.batches ++ [messages.length] })
  | o =>
      let (result, s) := o.writeEach s messages
      (result.map fun _ => messages.length, s)

end Outlet
end PubSub
