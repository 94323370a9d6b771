import PubSub.Json.Fault
import PubSub.Json.Record

/-!
# Restoring typed values from JSON

A type is known by its decoder, which accepts the JSON values that
describe values of the type and returns the one value that the type
itself would write.  So `{"value": 1}` and `[1]` both restore a gauge,
and both become `{"value": 1.0}`.

* `Decoder` — a type of values;
* `Decoder.text`, `Decoder.integer`, … — the simple types;
* `Decoder.record`, `Decoder.tuple`, `Decoder.choice` — types with parts.
-/

namespace PubSub.Json

/-- The value that a type writes for what it restores, or why it restores
nothing. -/
abbrev Decoder := Json → Except Mismatch Json

namespace Decoder

/-- Refuse a value of another type. -/
def refuse {α : Type} (v : Json) (expected : String) : Except Mismatch α :=
  .error (.wrongType (.ofJson v) expected)

/-- Texts. -/
def text : Decoder
  | .str s => .ok (.str s)
  | v => refuse v "a string"

/-- Truth values. -/
def boolean : Decoder
  | .bool b => .ok (.bool b)
  | v => refuse v "a boolean"

/-- Whole numbers from `low` to `high`. -/
def integer (name : String) (low high : Int) : Decoder
  | .int n =>
      if low ≤ n ∧ n ≤ high then .ok (.int n)
      else .error (.wrongValue (.int n) name)
  | v => refuse v name

/-- Whole numbers that fit `bits` bits without sign. -/
def unsigned (name : String) (bits : Nat) : Decoder :=
  integer name 0 (Int.pow 2 bits - 1)

/-- Whole numbers that fit `bits + 1` bits with sign. -/
def signed (name : String) (bits : Nat) : Decoder :=
  integer name (-Int.pow 2 bits) (Int.pow 2 bits - 1)

/-- The double nearest to a whole number of at most 64 bits. -/
def doubleOf : Int → Float
  | .ofNat n => n.toUInt64.toFloat
  | .negSucc n => -(n + 1).toUInt64.toFloat

/-- Doubles; a whole number becomes the nearest one. -/
def double : Decoder
  | .float x => .ok (.float x)
  | .int n => .ok (.float (doubleOf n))
  | v => refuse v "f64"

/-- The value of a type, or `null`. -/
def optional (d : Decoder) : Decoder
  | .null => .ok .null
  | v => d v

/-- Sequences of values of a type. -/
def listOf (d : Decoder) : Decoder
  | .arr items => do .ok (.arr (← items.mapM d))
  | v => refuse v "a sequence"

/-- Objects with any names and values of one type. -/
def mapOf (d : Decoder) : Decoder
  | .obj members => do
      .ok (.obj (← members.mapM fun (k, v) => do return (k, ← d v)))
  | v => refuse v "a map"

/-- What stands for a part that is not there. -/
inductive Absent where
  /-- The part must be there. -/
  | refused
  /-- `null`, but an array must have an item for it. -/
  | none
  /-- This value. -/
  | value (v : Json)

/-- One part of a record. -/
structure Part where
  name : String
  decode : Decoder
  absent : Absent
  /-- Is the part written only when it is not `null`? -/
  omitNull : Bool

/-- A part that must be there. -/
def Part.required (name : String) (decode : Decoder) : Part :=
  ⟨name, decode, .refused, false⟩

/-- What stands for a part missing from an object. -/
def Part.missingMember (p : Part) : Except Mismatch Json :=
  match p.absent with
  | .refused => .error (.missingField p.name)
  | .none => .ok .null
  | .value v => .ok v

/-- What stands for a part missing from an array. -/
def Part.missingItem (p : Part) (index : Nat) (expected : String) :
    Except Mismatch Json :=
  match p.absent with
  | .value v => .ok v
  | _ => .error (.wrongLength index expected)

/-- The written form of decoded parts. -/
def assembleParts (parts : List Part) (values : List Json) : Json :=
  .obj <| Members.ofList <| (parts.zip values).filterMap fun (p, v) =>
    match p.omitNull, v with
    | true, .null => none
    | _, _ => some (p.name, v)

/-- The parts found in an object, each restored, in the order of the
object. -/
def foundParts (parts : List Part) (members : List (String × Json)) :
    Except Mismatch (List (String × Json)) :=
  members.filterMapM fun (k, v) =>
    match parts.find? (·.name == k) with
    | some p => do return some (k, ← p.decode v)
    | none => .ok none

/-- A record from an object.  Members that are no parts are passed over. -/
def namedParts (parts : List Part) (members : List (String × Json)) :
    Except Mismatch Json := do
  let found ← foundParts parts members
  let values ← parts.mapM fun p =>
    match found.lookup p.name with
    | some v => .ok v
    | none => p.missingMember
  .ok (assembleParts parts values)

/-- The parts of a record from the items of an array. -/
def positionalParts (expected : String) :
    List Part → (index : Nat) → List Json → Except Mismatch (List Json)
  | [], _, _ => .ok []
  | p :: parts, index, v :: items => do
      let v ← p.decode v
      .ok (v :: (← positionalParts expected parts (index + 1) items))
  | p :: parts, index, [] => do
      let v ← p.missingItem index expected
      .ok (v :: (← positionalParts expected parts (index + 1) []))

/-- No item of an array may be left over. -/
def checkLength (known : Nat) (items : List Json) : Except Mismatch Unit :=
  if known < items.length then
    .error (.wrongLength items.length "fewer elements in array")
  else .ok ()

/-- Records, from objects or from arrays of the parts in their order. -/
def record (name : String) (parts : List Part) : Decoder
  | .obj members => namedParts parts members
  | .arr items => do
      let values ← positionalParts
        s!"struct {name} with {elements parts.length}" parts 0 items
      checkLength parts.length items
      .ok (assembleParts parts values)
  | v => refuse v ("struct " ++ name)

/-- Tuples, which are always arrays. -/
def tuple (name : String) (ds : List Decoder) : Decoder
  | .arr items => do
      let values ← positionalParts
        s!"tuple struct {name} with {elements ds.length}"
        (ds.map (Part.required "")) 0 items
      checkLength ds.length items
      .ok (.arr values)
  | v => refuse v ("tuple struct " ++ name)

/-- What one alternative of a choice carries. -/
inductive Carries where
  | nothing
  | value (d : Decoder)
  | parts (parts : List Part)

/-- An alternative: its name and what it carries. -/
structure Variant where
  name : String
  carries : Carries

/-- The value of an alternative, given by name alone or with content. -/
def Variant.decode (variant : Variant) (content : Option Json) : Except Mismatch Json :=
  match variant.carries, content with
  | .nothing, none | .nothing, some .null => .ok (.str variant.name)
  | .nothing, some v => refuse v "unit"
  | .value d, some v => do .ok (.obj [(variant.name, ← d v)])
  | .value _, none => .error (.wrongType .unitVariant "newtype variant")
  | .parts ps, some (.obj members) => do
      .ok (.obj [(variant.name, ← namedParts ps members)])
  | .parts _, some v => refuse v "struct variant"
  | .parts _, none => .error (.wrongType .unitVariant "struct variant")

/-- Choices, written as the name of the alternative, or as an object with
that one name and the content. -/
def choice (variants : List Variant) : Decoder := fun v =>
  let select (name : String) (content : Option Json) : Except Mismatch Json :=
    match variants.find? (·.name == name) with
    | some variant => variant.decode content
    | none => .error (.unknownVariant name (variants.map (·.name)))
  match v with
  | .str name => select name none
  | .obj [(name, content)] => select name (some content)
  | .obj _ => .error (.wrongValue .map "map with a single key")
  | v => refuse v "string or map"

end Decoder
end PubSub.Json
