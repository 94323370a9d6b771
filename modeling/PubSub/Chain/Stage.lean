import PubSub.Codec
import PubSub.Context
import PubSub.Log
import PubSub.Message.Basic
import PubSub.Registry
import PubSub.Retry.Backoff
import PubSub.Schemas

/-!
# Stages around a handler

Between a transport and a handler stand stages, each of which does one
thing to a delivery.  A hub names them as behaviors, the innermost
first; for a reader they are made ready with what they need, the
outermost first.

* `Behavior`, `Stage` — a stage as named, and made ready;
* `Decoding` — how data is restored to payloads;
* `Arrival` — what is passed from stage to stage.
-/

namespace PubSub

/-- What passes through the stages to the handler. -/
structure Arrival where
  ctx : Context
  message : Message

/-- How the data of a message becomes a payload: the streams as they were
known at one time, the codec, and the schemas if there are any. -/
structure Decoding where
  registry : Registry
  codec : Codec
  schemas : Option Schemas

namespace Decoding

/-- The definition of the schema that metadata names, empty where there is
none to look up. -/
def definition (schemas : Option Schemas) (m : Metadata) : Except Error String :=
  match schemas with
  | some s => if m.schema = "" then .ok "" else s.get m.schema m.schemaVersion
  | none => .ok ""

/-- The payload in the data of a message on a stream with this metadata
and type. -/
def payload (d : Decoding) (m : Metadata) (type : PayloadType) (data : Bytes) :
    Except Error Payload := do
  let schema ← definition d.schemas m
  let v ← (d.codec.unmarshal schema data).mapError .codec
  (type.restore v).mapError .ofMismatch

/-- The message with its payload.  On a stream that is not known, or has
no type, it stays as it is. -/
def restore (d : Decoding) (message : Message) : Except Error Message :=
  match d.registry.resolve message.stream with
  | .error _ => .ok message
  | .ok m =>
      match m.type with
      | none => .ok message
      | some type => do
          let payload ← d.payload m type message.data
          .ok { message with decoded := some payload }

end Decoding

/-- A stage by name. -/
inductive Behavior where
  /-- Restore the payload. -/
  | unmarshal
  /-- Put the reader's group on the message. -/
  | group
  /-- Let what the handler publishes belong to the flow of the message. -/
  | correlation
  /-- Repeat after failures. -/
  | retry
  /-- Report the outcome. -/
  | logging
  /-- Leave a trace of entering and leaving. -/
  | tag (name : String)
  deriving DecidableEq, Repr

/-- The behaviors of a hub that names none, the innermost first. -/
def Behavior.standard : List Behavior := [.unmarshal, .group, .correlation, .retry]

/-- A stage made ready. -/
inductive Stage where
  | unmarshal (decoding : Decoding)
  | group (name : String)
  | correlation
  | retry (policy : RetryPolicy)
  | logging (group : String)
  | tag (name : String)

/-- Make a behavior ready for a reader of the given group. -/
def Behavior.ready (decoding : Decoding) (group : String) (policy : RetryPolicy) :
    Behavior → Stage
  | .unmarshal => .unmarshal decoding
  | .group => .group group
  | .correlation => .correlation
  | .retry => .retry policy
  | .logging => .logging group
  | .tag name => .tag name

namespace Arrival

/-- The arrival with the reader's group, unless that is empty. -/
def inGroup (a : Arrival) (group : String) : Arrival :=
  if group = "" then a
  else { a with message := { a.message with group := some group } }

/-- The arrival in a context of the message's own flow, where the message
is the cause. -/
def inFlow (a : Arrival) : Arrival :=
  { a with ctx :=
    { a.ctx with
      correlationId := some a.message.correlationId
      causationId := some a.message.id } }

/-- The span in which the arrival is reported. -/
def logSpan (a : Arrival) (group : String) : LogSpan where
  name := "message"
  fields :=
    [("stream", .text a.message.stream), ("id", .text a.message.id),
      ("group", .text group), ("correlation_id", .text a.message.correlationId)]

/-- What a tag says on entry. -/
def tagLine (a : Arrival) (name : String) : String :=
  let group := a.message.group.getD "-"
  let decoded := a.message.decoded.isSome
  let correlationId := a.ctx.correlationId.getD "-"
  s!"{name} group={group} decoded={decoded} corr={correlationId}"

end Arrival
end PubSub
