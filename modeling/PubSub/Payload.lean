import PubSub.Error
import PubSub.Json.Decoder

/-!
# Payloads

A payload is a value of a known type, kept as the JSON value that its
type writes for it.  A type has a key, under which a registry knows it;
it restores payloads from JSON, writes them, and may name a subject.

* `PayloadType`, `Payload` — types and their values;
* `PayloadType.restore` — a payload from JSON;
* `Content` — what is published: a payload, or any JSON value.
-/

namespace PubSub

/-- A type of payloads. -/
structure PayloadType where
  name : String
  /-- The key under which streams of this type are registered. -/
  key : String
  decode : Json.Decoder
  /-- What is written for a restored value; a type may refuse. -/
  encode : Json → Except Json.Mismatch Json
  /-- What the payload is about. -/
  subject : Json → Option String

/-- A value of a payload type. -/
structure Payload where
  type : PayloadType
  value : Json

/-- The payload that a JSON value describes. -/
def PayloadType.restore (type : PayloadType) (v : Json) :
    Except Json.Mismatch Payload := do
  .ok ⟨type, ← type.decode v⟩

/-- The JSON value of a payload, if its type writes it. -/
def Payload.json (p : Payload) : Except Json.Mismatch Json :=
  p.type.encode p.value

/-- Something to publish: its JSON value, unless it cannot be written, and
its subject. -/
structure Content where
  json : Except Json.Mismatch Json
  subject : Option String

/-- Publish a payload. -/
def Payload.content (p : Payload) : Content := ⟨p.json, p.type.subject p.value⟩

/-- Publish a JSON value as it is, without a subject. -/
def Json.content (v : Json) : Content := ⟨.ok v, none⟩

end PubSub
