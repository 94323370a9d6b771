import PubSub.Decimal.Style
import PubSub.Json.Basic
import PubSub.Text.Utf8

/-!
# Compact JSON text

A value is written without blanks.  Inside strings only the quote, the
backslash and the controls are escaped; a floating number always shows a
point or an exponent, so it is never taken for a whole one.

* `Json.write` — the characters of a value;
* `Json.text`, `Json.bytes` — the same as a string and in UTF-8.
-/

namespace PubSub.Json

/-- A control character without a short name, by its code point. -/
def escapeControl (c : Char) : List Char :=
  let digits := Nat.toDigits 16 c.toNat
  ['\\', 'u'] ++ List.replicate (4 - digits.length) '0' ++ digits

/-- One character inside a string. -/
def escapeChar (c : Char) : List Char :=
  if c = '"' then ['\\', '"']
  else if c = '\\' then ['\\', '\\']
  else if c = '\x08' then ['\\', 'b']
  else if c = '\t' then ['\\', 't']
  else if c = '\n' then ['\\', 'n']
  else if c = '\x0c' then ['\\', 'f']
  else if c = '\r' then ['\\', 'r']
  else if c.toNat < 0x20 then escapeControl c
  else [c]

/-- A string between quotes. -/
def writeString (s : String) : List Char :=
  '"' :: s.toList.flatMap escapeChar ++ ['"']

/-- A whole number. -/
def writeInt : Int → List Char
  | .ofNat n => Nat.toDigits 10 n
  | .negSucc n => '-' :: Nat.toDigits 10 (n + 1)

mutual

/-- The characters of a value. -/
def write : Json → List Char
  | null => ['n', 'u', 'l', 'l']
  | bool true => ['t', 'r', 'u', 'e']
  | bool false => ['f', 'a', 'l', 's', 'e']
  | int n => writeInt n
  | float x => Decimal.Style.json.write x
  | str s => writeString s
  | arr [] => ['[', ']']
  | arr (v :: rest) => '[' :: v.write ++ writeItems rest
  | obj [] => ['\x7b', '\x7d']
  | obj ((k, v) :: rest) =>
      '\x7b' :: writeString k ++ ':' :: v.write ++ writeMembers rest

/-- The items after the first, and the closing bracket. -/
def writeItems : List Json → List Char
  | [] => [']']
  | v :: rest => ',' :: v.write ++ writeItems rest

/-- The members after the first, and the closing brace. -/
def writeMembers : List (String × Json) → List Char
  | [] => ['\x7d']
  | (k, v) :: rest =>
      ',' :: writeString k ++ ':' :: v.write ++ writeMembers rest

end

/-- The compact text of a value. -/
def text (v : Json) : String :=
  String.ofList v.write

/-- The compact text of a value in UTF-8. -/
def bytes (v : Json) : Bytes :=
  Utf8.encode v.write

end PubSub.Json
