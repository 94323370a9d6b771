import PubSub.Decimal.Style
import PubSub.Json.Basic
import PubSub.Text.Character
import PubSub.Text.Utf8

/-!
# What can be wrong with JSON

A text may break the grammar (`Flaw`), or its value may not be of the
kind that is asked for (`Mismatch`).  While reading, a fault carries the
number of bytes that were left when it was found; from that and the text
come its line and column.  A fault found in a value that is no longer
text has no place.

* `Flaw.message`, `Mismatch.message` — the wordings;
* `Fault` — a fault during reading;
* `Error` — a fault with its place, if it has one.
-/

namespace PubSub.Json

/-- A break of the grammar. -/
inductive Flaw where
  | eofList
  | eofObject
  | eofString
  | eofValue
  | expectedColon
  | expectedListCommaOrEnd
  | expectedObjectCommaOrEnd
  | expectedIdent
  | expectedValue
  | invalidEscape
  | invalidNumber
  | numberOutOfRange
  | invalidCodePoint
  | controlCharacter
  | keyMustBeString
  | loneSurrogate
  | trailingComma
  | trailingCharacters
  | unexpectedEndOfHexEscape
  | tooDeep
  deriving DecidableEq, Repr

/-- The wording of a break of the grammar. -/
def Flaw.message : Flaw → String
  | .eofList => "EOF while parsing a list"
  | .eofObject => "EOF while parsing an object"
  | .eofString => "EOF while parsing a string"
  | .eofValue => "EOF while parsing a value"
  | .expectedColon => "expected `:`"
  | .expectedListCommaOrEnd => "expected `,` or `]`"
  | .expectedObjectCommaOrEnd => "expected `,` or `\x7d`"
  | .expectedIdent => "expected ident"
  | .expectedValue => "expected value"
  | .invalidEscape => "invalid escape"
  | .invalidNumber => "invalid number"
  | .numberOutOfRange => "number out of range"
  | .invalidCodePoint => "invalid unicode code point"
  | .controlCharacter =>
      "control character (\\u0000-\\u001F) found while parsing a string"
  | .keyMustBeString => "key must be a string"
  | .loneSurrogate => "lone leading surrogate in hex escape"
  | .trailingComma => "trailing comma"
  | .trailingCharacters => "trailing characters"
  | .unexpectedEndOfHexEscape => "unexpected end of hex escape"
  | .tooDeep => "recursion limit exceeded"

/-- What was found where something else was asked for. -/
inductive Found where
  | null
  | bool (b : Bool)
  | int (n : Int)
  | float (x : Float)
  | str (s : String)
  | sequence
  | map
  | unitVariant
  deriving Repr

/-- The wording of what was found. -/
def Found.message : Found → String
  | .null => "null"
  | .bool b => s!"boolean `{b}`"
  | .int n => s!"integer `{n}`"
  | .float x => "floating point `" ++ String.ofList (Decimal.Style.json.write x) ++ "`"
  | .str s => "string " ++ Text.quoted s
  | .sequence => "sequence"
  | .map => "map"
  | .unitVariant => "unit variant"

/-- What a value is found to be. -/
def Found.ofJson : Json → Found
  | .null => .null
  | .bool b => .bool b
  | .int n => .int n
  | .float x => .float x
  | .str s => .str s
  | .arr _ => .sequence
  | .obj _ => .map

/-- A value that is not what is asked for. -/
inductive Mismatch where
  /-- A value of another type. -/
  | wrongType (found : Found) (expected : String)
  /-- The right type, but no such value. -/
  | wrongValue (found : Found) (expected : String)
  /-- A sequence of the wrong length. -/
  | wrongLength (length : Nat) (expected : String)
  | missingField (name : String)
  | duplicateField (name : String)
  | unknownVariant (name : String) (known : List String)
  /-- A rule of the type itself is broken. -/
  | refused (reason : String)
  deriving Repr

/-- The wording of a mismatch. -/
def Mismatch.message : Mismatch → String
  | .wrongType found expected => s!"invalid type: {found.message}, expected {expected}"
  | .wrongValue found expected => s!"invalid value: {found.message}, expected {expected}"
  | .wrongLength length expected => s!"invalid length {length}, expected {expected}"
  | .missingField name => s!"missing field `{name}`"
  | .duplicateField name => s!"duplicate field `{name}`"
  | .unknownVariant name known =>
      s!"unknown variant `{name}`, expected one of "
        ++ ", ".intercalate (known.map fun k => s!"`{k}`")
  | .refused reason => reason

/-- Either kind of fault. -/
inductive Cause where
  | flaw (f : Flaw)
  | mismatch (m : Mismatch)
  deriving Repr

/-- The wording of either kind of fault. -/
def Cause.message : Cause → String
  | .flaw f => f.message
  | .mismatch m => m.message

/-- A line and a column, both counted from one; a column of zero is just
after a line end.  Columns count bytes. -/
structure Place where
  line : Nat
  column : Nat
  deriving DecidableEq, Repr

/-- The place that lies after all of `before`. -/
def Place.after (before : Bytes) : Place where
  line := (before.filter (· = 10)).length + 1
  column := (before.reverse.takeWhile (· ≠ 10)).length

/-- A fault and, if it was found in a text, its place there. -/
structure Error where
  cause : Cause
  place : Option Place
  deriving Repr

/-- The wording of an error. -/
def Error.message (e : Error) : String :=
  match e.place with
  | some p => s!"{e.cause.message} at line {p.line} column {p.column}"
  | none => e.cause.message

/-- A mismatch in a value that is not text. -/
def Mismatch.toError (m : Mismatch) : Error := ⟨.mismatch m, none⟩

/-- A fault found while reading. -/
inductive Fault where
  /-- Found when `left` bytes were left. -/
  | placed (cause : Cause) (left : Nat)
  /-- Found in a member or item that has been read already; its place is
  where the reader stops after trying to close what it is in. -/
  | unplaced (mismatch : Mismatch) (rest : Bytes)

/-- A fault as an error of the whole text. -/
def Fault.toError (text : Bytes) : Fault → Error
  | .placed cause left => ⟨cause, some (.after (text.take (text.length - left)))⟩
  | .unplaced m rest =>
      ⟨.mismatch m, some (.after (text.take (text.length - rest.length)))⟩

/-- A reader takes what it needs from the front of a text and returns
what follows. -/
abbrev Reader (α : Type) := Bytes → Except Fault (α × Bytes)

/-- A flaw placed before the rest of the text. -/
def failBefore {α : Type} (f : Flaw) (rest : Bytes) : Except Fault α :=
  .error (.placed (.flaw f) rest.length)

/-- A flaw placed on the first byte of the rest of the text. -/
def failOn {α : Type} (f : Flaw) (rest : Bytes) : Except Fault α :=
  .error (.placed (.flaw f) (rest.length - 1))

/-- A mismatch placed before the rest of the text. -/
def mismatchBefore {α : Type} (m : Mismatch) (rest : Bytes) : Except Fault α :=
  .error (.placed (.mismatch m) rest.length)

end PubSub.Json
