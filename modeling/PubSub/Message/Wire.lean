import PubSub.Json.Record
import PubSub.Json.Writer
import PubSub.Message.Basic
import PubSub.Text.Base64

/-!
# Messages as JSON

On the wire a message is an object of up to fourteen members in a fixed
order, its data in base64, its optional members left out when they are
empty.  The two fields of the reading side are never written and never
read.

* `Message.wire` — the text of a message;
* `Message.ofWire` — the message of a text.
-/

namespace PubSub.Message

/-- A member that is left out when empty. -/
def optionalMember {α : Type} (name : String) (json : α → Json) :
    Option α → List (String × Json)
  | some a => [(name, json a)]
  | none => []

/-- The data in base64. -/
def dataText (m : Message) : String :=
  String.ofList ((Base64.encode m.data).map fun b => Char.ofNat b.toNat)

/-- The members in the order of the wire. -/
def members (m : Message) : List (String × Json) :=
  [("stream", .str m.stream), ("stream_version", .int m.streamVersion),
    ("id", .str m.id), ("source", .str m.source),
    ("specversion", .str m.specVersion), ("type", .str m.type),
    ("data", .str m.dataText)]
    ++ optionalMember "datacontenttype" Json.str m.contentType
    ++ optionalMember "dataschema" Json.str m.schema
    ++ optionalMember "dataschemaversion" (fun n : Nat => Json.int n) m.schemaVersion
    ++ [("time", .str m.time.write)]
    ++ optionalMember "subject" Json.str m.subject
    ++ [("correlation_id", .str m.correlationId), ("causation_id", .str m.causationId)]

/-- The text of a message. -/
def wire (m : Message) : String := (Json.obj m.members).text

open Json

/-- Data in base64.  What is wrong with it is noticed after the string. -/
def readData : Reader Bytes := fun bs => do
  let (s, rest) ← readText bs
  match Base64.decode (Utf8.ofString s) with
  | .ok data => .ok (data, rest)
  | .error flaw => .error (.unplaced (.refused flaw.message) rest)

/-- A timestamp. -/
def readTime : Reader Timestamp :=
  readTextAs "an RFC 3339 formatted date and time string" fun s =>
    (Timestamp.read s).mapError fun flaw => .refused flaw.message

/-- The message before any member is read. -/
def blank : Message where
  stream := ""
  streamVersion := 0
  id := ""
  source := ""
  specVersion := ""
  type := ""
  data := []
  contentType := none
  schema := none
  schemaVersion := none
  time := .afterStart 0
  subject := none
  correlationId := ""
  causationId := ""
  decoded := none
  group := none

/-- The members of a message on the wire. -/
def shape : Shape Message where
  name := "Message"
  blank
  slots :=
    [.of "stream" true readText fun m s => { m with stream := s },
      .of "stream_version" true (readUnsigned "u32" 32)
        fun m n => { m with streamVersion := n },
      .of "id" true readText fun m s => { m with id := s },
      .of "source" true readText fun m s => { m with source := s },
      .of "specversion" true readText fun m s => { m with specVersion := s },
      .of "type" true readText fun m s => { m with type := s },
      .of "data" true readData fun m data => { m with data },
      .of "datacontenttype" false (readOptional readText)
        fun m s => { m with contentType := s },
      .of "dataschema" false (readOptional readText) fun m s => { m with schema := s },
      .of "dataschemaversion" false (readOptional (readUnsigned "u32" 32))
        fun m n => { m with schemaVersion := n },
      .of "time" true readTime fun m time => { m with time },
      .of "subject" false (readOptional readText) fun m s => { m with subject := s },
      .of "correlation_id" true readText fun m s => { m with correlationId := s },
      .of "causation_id" true readText fun m s => { m with causationId := s }]

/-- The message of a text. -/
def ofWire (text : String) : Except Json.Error Message :=
  recordOfText shape text

end PubSub.Message
