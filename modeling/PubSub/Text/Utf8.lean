/-!
# UTF-8, one byte at a time

A decoder that holds at most one unfinished character.  Each byte either
completes a character, extends the unfinished one, or cannot follow what
came before; the range allowed for the next byte rules out overlong
forms, surrogates and code points past U+10FFFF at the earliest byte
that shows them.

* `decode?` — the characters of a byte sequence, if it is well formed;
* `decodeLossy` — the same, with U+FFFD in place of each maximal
  malformed stretch;
* `encode` — the bytes of a character sequence.
-/

namespace PubSub

/-- Octets in transmission order. -/
abbrev Bytes := List UInt8

namespace Utf8

/-- A character begun but not finished: `need` continuation bytes are
owed, `value` holds the bits read so far, and the next byte must lie
between `low` and `high`. -/
structure Pending where
  need : Nat
  value : Nat
  low : Nat
  high : Nat
  deriving DecidableEq, Repr

/-- What one byte does to the decoder. -/
inductive Fed where
  /-- The byte completes this character. -/
  | char (c : Char)
  /-- More bytes are owed. -/
  | more (p : Pending)
  /-- The byte cannot stand here. -/
  | bad

/-- A byte that begins a character. -/
def begin (b : UInt8) : Fed :=
  let v := b.toNat
  if v < 0x80 then .char (Char.ofNat v)
  else if v < 0xC2 then .bad
  else if v < 0xE0 then .more ⟨1, v - 0xC0, 0x80, 0xBF⟩
  else if v = 0xE0 then .more ⟨2, 0, 0xA0, 0xBF⟩
  else if v = 0xED then .more ⟨2, 0xD, 0x80, 0x9F⟩
  else if v < 0xF0 then .more ⟨2, v - 0xE0, 0x80, 0xBF⟩
  else if v = 0xF0 then .more ⟨3, 0, 0x90, 0xBF⟩
  else if v < 0xF4 then .more ⟨3, v - 0xF0, 0x80, 0xBF⟩
  else if v = 0xF4 then .more ⟨3, 4, 0x80, 0x8F⟩
  else .bad

/-- A byte that continues the character `p`. -/
def extend (p : Pending) (b : UInt8) : Fed :=
  let v := b.toNat
  if v < p.low ∨ p.high < v then .bad
  else
    let value := p.value * 64 + (v - 0x80)
    if p.need ≤ 1 then .char (Char.ofNat value)
    else .more ⟨p.need - 1, value, 0x80, 0xBF⟩

/-- Decode from the middle of a sequence: `pending` is the character
begun by the bytes before. -/
def decodeFrom? : Option Pending → Bytes → Option (List Char)
  | none, [] => some []
  | some _, [] => none
  | pending, b :: rest =>
      match pending.elim (begin b) (extend · b) with
      | .char c => (decodeFrom? none rest).map (c :: ·)
      | .more p => decodeFrom? (some p) rest
      | .bad => none

/-- The characters of a well-formed sequence. -/
def decode? (bytes : Bytes) : Option (List Char) :=
  decodeFrom? none bytes

/-- The character that stands for malformed bytes. -/
def replacement : Char := '\uFFFD'

/-- Decode from the middle of a sequence, replacing what is malformed.
A byte that cannot continue the unfinished character ends the malformed
stretch before it and is read again as a beginning. -/
def decodeLossyFrom : Option Pending → Bytes → List Char
  | none, [] => []
  | some _, [] => [replacement]
  | none, b :: rest =>
      match begin b with
      | .char c => c :: decodeLossyFrom none rest
      | .more p => decodeLossyFrom (some p) rest
      | .bad => replacement :: decodeLossyFrom none rest
  | some p, b :: rest =>
      match extend p b with
      | .char c => c :: decodeLossyFrom none rest
      | .more q => decodeLossyFrom (some q) rest
      | .bad =>
          match begin b with
          | .char c => replacement :: c :: decodeLossyFrom none rest
          | .more q => replacement :: decodeLossyFrom (some q) rest
          | .bad => replacement :: replacement :: decodeLossyFrom none rest

/-- The text of a byte sequence, with U+FFFD for each malformed stretch. -/
def decodeLossy (bytes : Bytes) : String :=
  String.ofList (decodeLossyFrom none bytes)

/-- The part of a sequence from its first malformed character on, after a
character begun at `started`. -/
def malformedFrom : (started : Option (Pending × Bytes)) → Bytes → Bytes
  | none, [] => []
  | some (_, start), [] => start
  | none, b :: rest =>
      match begin b with
      | .char _ => malformedFrom none rest
      | .more p => malformedFrom (some (p, b :: rest)) rest
      | .bad => b :: rest
  | some (p, start), b :: rest =>
      match extend p b with
      | .char _ => malformedFrom none rest
      | .more q => malformedFrom (some (q, start)) rest
      | .bad => start

/-- The part of a sequence from its first malformed character on. -/
def malformed (bytes : Bytes) : Bytes := malformedFrom none bytes

/-- The bytes of a character sequence. -/
def encode (cs : List Char) : Bytes :=
  cs.flatMap String.utf8EncodeChar

/-- The bytes of a text. -/
def ofString (s : String) : Bytes :=
  encode s.toList

/-- The text of a byte sequence, if it is well formed. -/
def toString? (bytes : Bytes) : Option String :=
  (decode? bytes).map String.ofList

end Utf8
end PubSub
