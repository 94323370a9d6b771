import PubSub.Text.Utf8

/-!
# Base64

The standard alphabet with canonical padding.  Three bytes become four
symbols; one or two bytes at the end become two or three symbols and
padding up to four.  Reading accepts no other spelling: the padding must
be there, and the bits of the last symbol that no byte uses must be
zero.

* `encode` — the symbols of a byte sequence;
* `decode` — the bytes of a symbol sequence, or what is wrong with it.
-/

namespace PubSub.Base64

/-- What can be wrong with a symbol sequence. -/
inductive Flaw where
  /-- This byte cannot stand at this offset. -/
  | symbol (byte : UInt8) (offset : Nat)
  /-- The sequence breaks off after a single symbol of a group. -/
  | length (n : Nat)
  /-- The last symbol carries bits that no byte uses. -/
  | lastSymbol (byte : UInt8) (offset : Nat)
  /-- The padding does not complete the last group. -/
  | padding
  deriving DecidableEq, Repr

/-- The wording of a flaw. -/
def Flaw.message : Flaw → String
  | .symbol b i => s!"Invalid symbol {b.toNat}, offset {i}."
  | .length n => s!"Invalid input length: {n}"
  | .lastSymbol b i => s!"Invalid last symbol {b.toNat}, offset {i}."
  | .padding => "Invalid padding"

/-- The padding symbol, an equals sign. -/
def pad : UInt8 := 61

/-- The symbol for six bits. -/
def symbolOf (n : Nat) : UInt8 :=
  if n < 26 then UInt8.ofNat (65 + n)
  else if n < 52 then UInt8.ofNat (97 + (n - 26))
  else if n < 62 then UInt8.ofNat (48 + (n - 52))
  else if n = 62 then 43
  else 47

/-- The six bits of a symbol. -/
def valueOf? (b : UInt8) : Option Nat :=
  let n := b.toNat
  if 65 ≤ n ∧ n ≤ 90 then some (n - 65)
  else if 97 ≤ n ∧ n ≤ 122 then some (n - 97 + 26)
  else if 48 ≤ n ∧ n ≤ 57 then some (n - 48 + 52)
  else if n = 43 then some 62
  else if n = 47 then some 63
  else none

/-- The symbols of a byte sequence. -/
def encode : Bytes → Bytes
  | [] => []
  | [a] =>
      let n := a.toNat * 16
      [symbolOf (n / 64), symbolOf (n % 64), pad, pad]
  | [a, b] =>
      let n := (a.toNat * 256 + b.toNat) * 4
      [symbolOf (n / 4096), symbolOf (n / 64 % 64), symbolOf (n % 64), pad]
  | a :: b :: c :: rest =>
      let n := (a.toNat * 256 + b.toNat) * 256 + c.toNat
      symbolOf (n / 262144) :: symbolOf (n / 4096 % 64) :: symbolOf (n / 64 % 64)
        :: symbolOf (n % 64) :: encode rest

/-- The value of the symbol at `offset`. -/
def readSymbol (b : UInt8) (offset : Nat) : Except Flaw Nat :=
  match valueOf? b with
  | some v => .ok v
  | none => .error (.symbol b offset)

/-- The symbols of the last group and the amount of padding after them.
`at_` counts the symbols already read.  Padding stands for the third and
fourth symbol only, and nothing follows it. -/
def readTail (offset at_ : Nat) : Bytes → Except Flaw (List Nat × Nat)
  | [] => .ok ([], 0)
  | b :: rest =>
      if b = pad then
        if 2 ≤ at_ ∧ rest.all (· == pad) then .ok ([], rest.length + 1)
        else .error (.symbol pad (offset + at_))
      else do
        let v ← readSymbol b (offset + at_)
        let (values, pads) ← readTail offset (at_ + 1) rest
        .ok (v :: values, pads)

/-- The bytes of the last group, which begins at `offset`. -/
def decodeTail (offset : Nat) (group : Bytes) : Except Flaw Bytes := do
  let (values, pads) ← readTail offset 0 group
  let last := group.getD (values.length - 1) pad
  if values.length < 2 then .error (.length (offset + values.length))
  else if (values.length + pads) % 4 ≠ 0 then .error .padding
  else
    match values with
    | [v, w] =>
        if w % 16 ≠ 0 then .error (.lastSymbol last (offset + 1))
        else .ok [UInt8.ofNat (v * 4 + w / 16)]
    | [v, w, x] =>
        if x % 4 ≠ 0 then .error (.lastSymbol last (offset + 2))
        else
          let n := (v * 64 + w) * 16 + x / 4
          .ok [UInt8.ofNat (n / 256), UInt8.ofNat (n % 256)]
    | [v, w, x, y] =>
        let n := ((v * 64 + w) * 64 + x) * 64 + y
        .ok [UInt8.ofNat (n / 65536), UInt8.ofNat (n / 256 % 256), UInt8.ofNat (n % 256)]
    | _ => .error (.length (offset + values.length))

/-- The bytes of the groups from `offset` on.  Every group with something
after it holds four symbols and no padding. -/
def decodeFrom (offset : Nat) : Bytes → Except Flaw Bytes
  | a :: b :: c :: d :: e :: rest => do
      let v ← readSymbol a offset
      let w ← readSymbol b (offset + 1)
      let x ← readSymbol c (offset + 2)
      let y ← readSymbol d (offset + 3)
      let n := ((v * 64 + w) * 64 + x) * 64 + y
      let bytes ← decodeFrom (offset + 4) (e :: rest)
      .ok (UInt8.ofNat (n / 65536) :: UInt8.ofNat (n / 256 % 256)
        :: UInt8.ofNat (n % 256) :: bytes)
  | [] => .ok []
  | group => decodeTail offset group

/-- A byte too many that is no symbol either, such as a line end.  It is
reported before anything else. -/
def strayEnd? (symbols : Bytes) : Option Flaw :=
  match symbols.getLast? with
  | some b =>
      if symbols.length % 4 = 1 ∧ b ≠ pad ∧ valueOf? b = none then
        some (.symbol b (symbols.length - 1))
      else none
  | none => none

/-- The bytes of a symbol sequence. -/
def decode (symbols : Bytes) : Except Flaw Bytes :=
  match strayEnd? symbols with
  | some flaw => .error flaw
  | none => decodeFrom 0 symbols

end PubSub.Base64
