import PubSub.Json.Record
import PubSub.Json.Writer
import PubSub.Payload

/-!
# The registry of streams

A registry binds keys to streams.  Each key has one entry, the last that
was set.  A stream can also be found by its name: if the name is itself
a key, that entry is meant; otherwise an index says through which key
the name is found.  The index keeps the first key that was bound to the
name for as long as the key stays bound to it, and then goes over to
another key that is bound to it.

* `Metadata` — what is known of a stream;
* `Registry.set`, `Registry.bind` — adding entries;
* `Registry.get`, `Registry.resolve` — entries by key and by name.
-/

namespace PubSub

/-- What is known of a stream. -/
structure Metadata where
  stream : String
  streamVersion : Nat
  /-- The name of the schema, empty for none. -/
  schema : String
  schemaVersion : Nat
  /-- The type that the data is restored to. -/
  type : Option PayloadType

namespace Metadata

/-- A stream without version, schema and type. -/
def ofStream (stream : String) : Metadata := ⟨stream, 0, "", 0, none⟩

/-- The members of the JSON form.  The type is not part of it. -/
def members (m : Metadata) : List (String × Json) :=
  [("stream", .str m.stream), ("stream_version", .int m.streamVersion),
    ("schema_definition", .str m.schema), ("schema_version", .int m.schemaVersion)]

/-- The JSON text. -/
def wire (m : Metadata) : String := (Json.obj m.members).text

open Json in
/-- The members of the JSON form, of which only the stream must be
there. -/
def shape : Shape Metadata where
  name := "StreamMetadata"
  blank := .ofStream ""
  slots :=
    [.of "stream" true readText fun m s => { m with stream := s },
      .of "stream_version" false (readUnsigned "u32" 32)
        fun m n => { m with streamVersion := n },
      .of "schema_definition" false readText fun m s => { m with schema := s },
      .of "schema_version" false (readUnsigned "u32" 32)
        fun m n => { m with schemaVersion := n }]

/-- The metadata of a JSON text. -/
def ofWire (text : String) : Except Json.Error Metadata :=
  Json.recordOfText shape text

/-- How a type is listed. -/
def typeListing (type : PayloadType) : String :=
  "TypeDescriptor(" ++ Text.quoted type.key ++ ")"

/-- How metadata is listed. -/
def listing (m : Metadata) : String :=
  Text.listedRecord "StreamMetadata"
    [("stream", Text.quoted m.stream), ("stream_version", toString m.streamVersion),
      ("schema_definition", Text.quoted m.schema),
      ("schema_version", toString m.schemaVersion),
      ("type_descriptor", Text.listedOption typeListing m.type)]

/-- The parts of metadata that can be compared: a type counts by its
key. -/
def comparable (m : Metadata) : String × Nat × String × Nat × Option String :=
  (m.stream, m.streamVersion, m.schema, m.schemaVersion, m.type.map (·.key))

end Metadata

/-- Bind a key to a value, in place if it is bound already, else at the
end. -/
def putLast {α : Type} (key : String) (value : α) :
    List (String × α) → List (String × α)
  | [] => [(key, value)]
  | (k, v) :: rest =>
      if k = key then (key, value) :: rest else (k, v) :: putLast key value rest

/-- Entries by key, and the index from stream names to keys. -/
structure Registry where
  entries : List (String × Metadata)
  index : List (String × String)

namespace Registry

/-- The registry without entries. -/
def empty : Registry := ⟨[], []⟩

/-- The entry of a key, if there is one. -/
def entry? (r : Registry) (key : String) : Option Metadata :=
  r.entries.lookup key

/-- The key through which a stream name is found. -/
def keyOf? (r : Registry) (name : String) : Option String :=
  r.index.lookup name

/-- The first key other than `key` that is bound to the stream `name`. -/
def otherKey? (r : Registry) (key name : String) : Option String :=
  (r.entries.find? fun (k, m) => k != key && m.stream == name).map (·.1)

/-- The index after `key` has left the stream `name`, through which it was
found: another key takes over, or the name is gone. -/
def reassign (r : Registry) (key name : String) : List (String × String) :=
  let others := r.index.filter (·.1 != name)
  match r.otherKey? key name with
  | some other => others ++ [(name, other)]
  | none => others

/-- The index before the new entry of `key` is added. -/
def release (r : Registry) (key : String) (m : Metadata) : List (String × String) :=
  match r.entry? key with
  | some previous =>
      if previous.stream ≠ m.stream ∧ r.keyOf? previous.stream = some key then
        r.reassign key previous.stream
      else r.index
  | none => r.index

/-- Bind a key to a stream. -/
def set (r : Registry) (key : String) (m : Metadata) : Registry :=
  let index := r.release key m
  { entries := putLast key m r.entries
    index := if (index.lookup m.stream).isSome then index
      else index ++ [(m.stream, key)] }

/-- Bind a payload type to a stream. -/
def bind (r : Registry) (type : PayloadType) (m : Metadata) : Registry :=
  r.set type.key { m with type := some type }

/-- The entry of a key. -/
def get (r : Registry) (key : String) : Except Error Metadata :=
  match r.entry? key with
  | some m => .ok m
  | none => .error (.missingStream key)

/-- The entry for a stream name: the name as a key, or the key that the
index gives. -/
def resolve (r : Registry) (name : String) : Except Error Metadata :=
  match r.entry? name with
  | some m => .ok m
  | none =>
      match (r.keyOf? name).bind r.entry? with
      | some m => .ok m
      | none => .error (.missingStream name)

/-- Is the key bound? -/
def contains (r : Registry) (key : String) : Bool := (r.entry? key).isSome

/-- The number of keys. -/
def size (r : Registry) : Nat := r.entries.length

end Registry
end PubSub
