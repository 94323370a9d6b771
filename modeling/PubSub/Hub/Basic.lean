import PubSub.Chain.Delivery
import PubSub.Config
import PubSub.Identifier
import PubSub.Reader.Node

/-!
# Hubs

A hub knows the streams, makes envelopes for what is published, and keeps
the nodes of its readers.  It does not send anything itself: publishing
gives the message for the writer, and starting gives the calls for the
drivers.

* `Hub.blank`, `Hub.ofConfig` — a hub at its beginning;
* `Hub.setStream`, `Hub.setStreamByKey` — binding streams;
* `Hub.envelope` — the message for one publication;
* `Hub.publish`, `Hub.publishBatch` — what a writer is asked to do;
* `Hub.read` — registering a reader;
* `Hub.startWith` — handing the nodes to their drivers.
-/

namespace PubSub

/-- A hub.  `ω` names writers and `δ` drivers of readers. -/
structure Hub (ω δ : Type) where
  name : String
  registry : Registry
  writer : Option ω
  codec : Codec
  ids : Ids
  schemas : Option Schemas
  baseOptions : ReaderOptions δ
  behaviors : List Behavior
  readerDriver : Option δ
  nodes : List (Node δ)

namespace Hub

variable {ω δ : Type}

/-- A hub without streams, writer, schemas and readers. -/
def blank (name : String) : Hub ω δ where
  name
  registry := .empty
  writer := none
  codec := .json
  ids := .version4
  schemas := none
  baseOptions := .unset
  behaviors := Behavior.standard
  readerDriver := none
  nodes := []

/-- A hub with the name and the reader options of a configuration. -/
def ofConfig (c : HubConfig) : Hub ω δ :=
  { blank c.name with baseOptions := c.reader.options }

/-- Bind a payload type to a stream. -/
def setStream (h : Hub ω δ) (type : PayloadType) (m : Metadata) : Hub ω δ :=
  { h with registry := h.registry.bind type m }

/-- Bind any key to a stream. -/
def setStreamByKey (h : Hub ω δ) (key : String) (m : Metadata) : Hub ω δ :=
  { h with registry := h.registry.set key m }

/-- A payload for a batch: its key, its JSON value and its subject. -/
structure Item where
  key : String
  json : Json
  subject : Option String

/-- An item, unless the payload cannot be written. -/
def Item.of (key : String) (content : Content) : Except Error Item := do
  .ok ⟨key, ← content.json.mapError .ofMismatch, content.subject⟩

/-- The stream of a key and the data for it: what can be found out before
an identifier is drawn. -/
def encode (h : Hub ω δ) (key : String) (json : Json) :
    Except Error (Metadata × Bytes) := do
  let m ← h.registry.get key
  let schema ← Decoding.definition h.schemas m
  .ok (m, ← (h.codec.marshal schema json).mapError .codec)

/-- The message from its parts.  It belongs to the flow of its context, or
begins one. -/
def assemble (h : Hub ω δ) (ctx : Context) (now : Nat) (m : Metadata) (data : Bytes)
    (id : String) (subject : Option String) : Message :=
  let hasSchema := m.schema ≠ ""
  let message := Message.compose
    { id
      source := h.name
      stream := m.stream
      streamVersion := m.streamVersion
      data
      contentType := some h.codec.contentType
      schema := if hasSchema then some m.schema else none
      schemaVersion := if hasSchema then some m.schemaVersion else none
      subject } (.afterStart now)
  let correlationId := ctx.correlationFor id
  { message with correlationId, causationId := ctx.causationFor correlationId }

/-- The message for an item, and the hub afterwards.  An identifier is
drawn only when the data is ready. -/
def envelope (h : Hub ω δ) (ctx : Context) (now : Nat) (item : Item) :
    Except Error Message × Hub ω δ :=
  match h.encode item.key item.json with
  | .error e => (.error e, h)
  | .ok (m, data) =>
      let (id, ids) := h.ids.draw
      (id.map fun id => h.assemble ctx now m data id item.subject, { h with ids })

/-- The writer of the hub. -/
def getWriter (h : Hub ω δ) : Except Error ω :=
  match h.writer with
  | some w => .ok w
  | none => .error .missingWriter

/-- Publish under a key: the message to write and the writer for it. -/
def publish (h : Hub ω δ) (ctx : Context) (now : Nat) (key : String)
    (content : Content) : Except Error (ω × Message) × Hub ω δ :=
  match h.getWriter, Item.of key content with
  | .error e, _ | _, .error e => (.error e, h)
  | .ok w, .ok item =>
      let (message, h) := h.envelope ctx now item
      (message.map (w, ·), h)

/-- The messages for items, up to the first failure. -/
def envelopes (h : Hub ω δ) (ctx : Context) (now : Nat) :
    List Item → Except Error (List Message) × Hub ω δ
  | [] => (.ok [], h)
  | item :: items =>
      match h.envelope ctx now item with
      | (.error e, h) => (.error e, h)
      | (.ok message, h) =>
          let (messages, h) := h.envelopes ctx now items
          (messages.map (message :: ·), h)

/-- Publish a batch: all its messages and the writer for them, or the
first failure. -/
def publishBatch (h : Hub ω δ) (ctx : Context) (now : Nat) (items : List Item) :
    Except Error (ω × List Message) × Hub ω δ :=
  match h.getWriter with
  | .error e => (.error e, h)
  | .ok w =>
      let (messages, h) := h.envelopes ctx now items
      (messages.map (w, ·), h)

/-- What a hub knows now for restoring payloads. -/
def decoding (h : Hub ω δ) : Decoding := ⟨h.registry, h.codec, h.schemas⟩

/-- The node for a stream, with the options of all layers. -/
def fork (h : Hub ω δ) (stream handler : String) (options : ReaderOptions δ) :
    Node δ :=
  Node.fork stream handler h.decoding h.behaviors
    (((ReaderOptions.builtIn h.readerDriver).overlay h.baseOptions).overlay options)

/-- What forking a node tells: the tags are made ready, innermost first,
and the node is reported. -/
def forkNotes (h : Hub ω δ) (n : Node δ) : List Note :=
  (h.behaviors.filterMap fun
    | .tag name => some (.trace s!"wrap {name} {h.name} {n.stream}")
    | _ => none)
  ++ [.log (.plain .debug "reader node forked"
      [("stream", .text n.stream), ("group", .text n.group),
        ("behaviors", .number h.behaviors.length)])]

/-- Register a reader for the stream that a key is bound to now.  A stream
without a name gets no node. -/
def read (h : Hub ω δ) (key handler : String) (options : ReaderOptions δ) :
    Except Error (Hub ω δ × List Note) := do
  let m ← h.registry.get key
  if m.stream = "" then .ok (h, [])
  else
    let n := h.fork m.stream handler options
    .ok ({ h with nodes := h.nodes ++ [n] }, h.forkNotes n)

/-- Make calls until one fails. -/
def callAll {σ : Type} (execute : σ → δ → Task → Except Error Unit × σ) :
    List (δ × Task) → σ → Except Error Unit × σ
  | [], s => (.ok (), s)
  | (driver, task) :: calls, s =>
      match execute s driver task with
      | (.ok (), s) => callAll execute calls s
      | (.error e, s) => (.error e, s)

/-- What starting a node tells when all its calls succeed. -/
def startedEvent (n : Node δ) : LogEvent :=
  match n.driver with
  | none => .plain .debug "reader node has no driver, skipping"
      [("stream", .text n.stream)]
  | some _ => .plain .debug "reader node started"
      [("stream", .text n.stream), ("group", .text n.group),
        ("concurrency_level", .number n.concurrency)]

/-- Hand nodes to their drivers, in order, until a call fails. -/
def startNodes {σ : Type} (execute : σ → δ → Task → Except Error Unit × σ)
    (report : σ → LogEvent → σ) : List (Node δ) → σ → Except Error Unit × σ
  | [], s => (.ok (), s)
  | n :: nodes, s =>
      match callAll execute n.calls s with
      | (.ok (), s) => startNodes execute report nodes (report s (startedEvent n))
      | (.error e, s) => (.error e, s)

/-- What starting a hub tells first. -/
def startingEvent (h : Hub ω δ) : LogEvent :=
  .plain .debug "starting reader nodes"
    [("instance", .text h.name), ("nodes", .number h.nodes.length)]

/-- Hand all nodes to their drivers. -/
def startWith {σ : Type} (h : Hub ω δ)
    (execute : σ → δ → Task → Except Error Unit × σ) (report : σ → LogEvent → σ)
    (s : σ) : Except Error Unit × σ :=
  startNodes execute report h.nodes (report s h.startingEvent)

end Hub
end PubSub
