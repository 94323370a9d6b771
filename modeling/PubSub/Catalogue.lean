import PubSub.Json.Writer
import PubSub.Payload

/-!
# A catalogue of payload types

Nine types that between them use every way in which a payload is
written: records, tuples, bare values, choices, nested and optional
parts, and one that restores but refuses to be written.
-/

namespace PubSub.Catalogue

open Json Json.Decoder

/-- The text in a part of a record. -/
def textPart? (name : String) : Json → Option String
  | .obj members =>
      match Members.get? members name with
      | some (.str s) => some s
      | _ => none
  | _ => none

/-- Write every value. -/
def writeAny (v : Json) : Except Mismatch Json := .ok v

/-- An order has been placed. -/
def orderPlaced : PayloadType where
  name := "OrderPlaced"
  key := "orders.OrderPlaced"
  decode := record "OrderPlaced"
    [.required "order_id" text, .required "total" (unsigned "u64" 64)]
  encode := writeAny
  subject := textPart? "order_id"

/-- A payment has been captured. -/
def paymentCaptured : PayloadType where
  name := "PaymentCaptured"
  key := "payments.PaymentCaptured"
  decode := record "PaymentCaptured"
    [.required "payment_id" text, .required "amount" (unsigned "u64" 64)]
  encode := writeAny
  subject := textPart? "payment_id"

/-- An order has been shipped.  The declaration names no key, so the place
of the declaration and the name make one. -/
def orderShipped (place : String) : PayloadType where
  name := "OrderShipped"
  key := place ++ "::OrderShipped"
  decode := record "OrderShipped" [.required "order_id" text, .required "carrier" text]
  encode := writeAny
  subject := fun _ => none

/-- A text and a number; the number is the subject. -/
def pair : PayloadType where
  name := "Pair"
  key := "misc.Pair"
  decode := tuple "Pair" [text, signed "i32" 31]
  encode := writeAny
  subject
    | .arr [_, .int n] => some (String.ofList (writeInt n))
    | _ => none

/-- A text that is its own subject. -/
def name : PayloadType where
  name := "Name"
  key := "misc.Name"
  decode := text
  encode := writeAny
  subject
    | .str s => some s
    | _ => none

/-- A reading; its plain digits are the subject. -/
def gauge : PayloadType where
  name := "Gauge"
  key := "misc.Gauge"
  decode := record "Gauge" [.required "value" double]
  encode := writeAny
  subject
    | .obj members =>
        match Members.get? members "value" with
        | some (.float x) => some (String.ofList (Decimal.Style.plain.write x))
        | _ => none
    | _ => none

/-- One of three things that happened. -/
def event : PayloadType where
  name := "Event"
  key := "misc.Event"
  decode := choice
    [⟨"Ping", .nothing⟩, ⟨"Deleted", .value (unsigned "u32" 32)⟩,
      ⟨"Created", .parts [.required "id" text]⟩]
  encode := writeAny
  subject := fun _ => none

/-- A name that may hold another; `depth` bounds how many. -/
def nested : (depth : Nat) → Decoder
  | 0 => fun v => refuse v "struct Nested"
  | depth + 1 => record "Nested"
      [.required "name" text, ⟨"next", optional (nested depth), .none, false⟩]

/-- A nested name of any depth. -/
def nestedAny : Decoder := fun v => nested (v.nesting + 1) v

/-- Parts of every kind. -/
def rich : PayloadType where
  name := "Rich"
  key := "misc.Rich"
  decode := record "Rich"
    [.required "id" (signed "i64" 63),
      ⟨"label", text, .value (.str ""), false⟩,
      .required "flag" boolean,
      .required "tags" (listOf text),
      ⟨"level", optional (unsigned "u8" 8), .none, false⟩,
      ⟨"counts", mapOf (signed "i32" 31), .value (.obj []), false⟩,
      ⟨"nested", optional nestedAny, .value .null, true⟩]
  encode := writeAny
  subject
    | .obj members =>
        match Members.get? members "id" with
        | some (.int n) => some (String.ofList (writeInt n))
        | _ => none
    | _ => none

/-- A value that can be read but not written. -/
def broken : PayloadType where
  name := "Broken"
  key := "misc.Broken"
  decode := record "Broken" [.required "reason" text]
  encode v := .error (.refused ("refused: " ++ (textPart? "reason" v).getD ""))
  subject := textPart? "reason"

/-- All types of a catalogue that is declared at `place`. -/
def all (place : String) : List PayloadType :=
  [orderPlaced, paymentCaptured, orderShipped place, pair, name, gauge, event, rich, broken]

/-- The type of a name. -/
def find? (place typeName : String) : Option PayloadType :=
  (all place).find? (·.name == typeName)

end PubSub.Catalogue
