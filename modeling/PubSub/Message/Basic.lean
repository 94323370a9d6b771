import PubSub.Payload
import PubSub.Time.Timestamp

/-!
# Messages

A message is the envelope in which data travels: where it goes, where it
comes from, what it is, and which flow it belongs to.  Two fields never
travel; the reading side fills them in for its handlers.

* `Message` — the envelope;
* `messageType` — the type attribute, made from source, stream and
  version;
* `Message.compose` — a new envelope.
-/

namespace PubSub

/-- The version of the envelope format. -/
def specVersion : String := "1.0"

/-- An envelope and its data. -/
structure Message where
  stream : String
  streamVersion : Nat
  id : String
  source : String
  specVersion : String
  type : String
  data : Bytes
  contentType : Option String
  schema : Option String
  schemaVersion : Option Nat
  time : Timestamp
  subject : Option String
  correlationId : String
  causationId : String
  /-- The payload, once the reading side has restored it. -/
  decoded : Option Payload
  /-- The group of the reader that handles the message. -/
  group : Option String

/-- The type of the messages of a stream.  The source leads it unless it
is empty or leads the stream already; a version other than zero ends
it. -/
def messageType (source stream : String) (version : Nat) : String :=
  let lead := if source = "" ∨ source.toList.isPrefixOf stream.toList then ""
    else source ++ "."
  let tail := if version = 0 then "" else ".v" ++ toString version
  lead ++ stream ++ tail

/-- What a new envelope is made from. -/
structure Draft where
  id : String
  source : String
  stream : String
  streamVersion : Nat
  data : Bytes
  contentType : Option String
  schema : Option String
  schemaVersion : Option Nat
  subject : Option String

/-- A new envelope.  It starts a flow of its own: its correlation and its
causation are its own id. -/
def Message.compose (draft : Draft) (time : Timestamp) : Message where
  stream := draft.stream
  streamVersion := draft.streamVersion
  id := draft.id
  source := draft.source
  specVersion := PubSub.specVersion
  type := messageType draft.source draft.stream draft.streamVersion
  data := draft.data
  contentType := draft.contentType
  schema := draft.schema
  schemaVersion := draft.schemaVersion
  time
  subject := draft.subject
  correlationId := draft.id
  causationId := draft.id
  decoded := none
  group := none

/-- The data as text, if it is text. -/
def Message.dataText? (m : Message) : Option String :=
  Utf8.toString? m.data

end PubSub
