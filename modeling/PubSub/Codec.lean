import PubSub.Error
import PubSub.Json.Reader
import PubSub.Json.Writer

/-!
# Codecs

A codec turns a JSON value into the data of a message and back, given the
definition of the stream's schema (empty when there is none).

* `Codec.json` — JSON text, whatever the schema;
* `Codec.headed` — JSON text under a line that repeats the schema.
-/

namespace PubSub

/-- A way to write values as bytes. -/
structure Codec where
  contentType : String
  marshal : (schema : String) → Json → Except CodecError Bytes
  unmarshal : (schema : String) → Bytes → Except CodecError Json

namespace Codec

/-- The value of JSON text. -/
def parseJson (data : Bytes) : Except CodecError Json :=
  (Json.parse data).mapError .json

/-- Compact JSON text. -/
def json : Codec where
  contentType := "application/json"
  marshal _ v := .ok v.bytes
  unmarshal _ data := parseJson data

/-- A text divided at its first line end. -/
def divideLine? (cs : List Char) : Option (List Char × List Char) :=
  match cs.dropWhile (· ≠ '\n') with
  | [] => none
  | _ :: rest => some (cs.takeWhile (· ≠ '\n'), rest)

/-- Data under a schema line: the line must be the definition. -/
def unmarshalHeaded (schema : String) (data : Bytes) : Except CodecError Json :=
  match Utf8.decode? data with
  | none => .error (.other "not text")
  | some cs =>
      match divideLine? cs with
      | none => .error (.other "no schema line")
      | some (line, rest) =>
          if String.ofList line = schema then parseJson (Utf8.encode rest)
          else .error (.schemaMismatch s!"`{String.ofList line}` is not `{schema}`")

/-- Compact JSON text under a line that repeats the schema.  There is no
such text for `null`. -/
def headed : Codec where
  contentType := "application/x-schema"
  marshal schema
    | .null => .error (.other "null payload")
    | v => .ok (Utf8.ofString schema ++ Utf8.ofString "\n" ++ v.bytes)
  unmarshal := unmarshalHeaded

end Codec
end PubSub
