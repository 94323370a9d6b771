import PubSub.Json.Fault
import PubSub.Text.Ascii

/-!
# Numbers of JSON text

A whole number that fits 64 bits, signed or not, is kept exactly; any
other becomes a double, and so does `-0`.  A double is built from as many
leading digits as fit 64 bits and one power of ten, so its last place may
differ from the nearest double to the text.

* `readNumber` — a number after its sign;
* `skipNumber` — the same grammar without the value.
-/

namespace PubSub.Json

/-- A number as read. -/
inductive Number where
  | int (n : Int)
  | float (x : Float)

/-- The value of a number. -/
def Number.toJson : Number → Json
  | .int n => .int n
  | .float x => .float x

/-- What a number is found to be. -/
def Number.toFound : Number → Found
  | .int n => .int n
  | .float x => .float x

/-- The digits at the front of a text and what follows them. -/
def spanDigits (bs : Bytes) : Bytes × Bytes :=
  (bs.takeWhile Ascii.isDigit, bs.dropWhile Ascii.isDigit)

/-- Append digits to a number while it fits 64 bits.  Returns also how
many digits were appended and how many were left over. -/
def appendDigits : Nat → Bytes → Nat × Nat × Nat
  | n, [] => (n, 0, 0)
  | n, d :: digits =>
      let m := n * 10 + Ascii.digitValue d
      if m < Nat.pow 2 64 then
        let (n, taken, left) := appendDigits m digits
        (n, taken + 1, left)
      else (n, 0, digits.length + 1)

/-- A power of ten in the range of doubles. -/
def powerOfTen (n : Nat) : Float := Float.ofScientific 1 false n

/-- Divide by `10^n`, at most 308 powers at a time. -/
def scaleDown (x : Float) (n : Nat) : Float :=
  if n ≤ 308 then x / powerOfTen n
  else if x == 0 then x
  else scaleDown (x / powerOfTen 308) (n - 308)
  termination_by n

/-- `significand · 10^exponent`, unless that is too large. -/
def assemble (negative : Bool) (significand : Nat) (exponent : Int) : Option Float :=
  let x := significand.toUInt64.toFloat
  let magnitude :=
    if exponent < 0 then some (scaleDown x (-exponent).toNat)
    else if 308 < exponent then (if x == 0 then some x else none)
    else
      let y := x * powerOfTen exponent.toNat
      if y.isInf then none else some y
  magnitude.map fun y => if negative then -y else y

/-- The double of the digits read so far. -/
def finish (negative : Bool) (significand : Nat) (exponent : Int) : Reader Number :=
  fun rest =>
    match assemble negative significand exponent with
    | some x => .ok (.float x, rest)
    | none => failBefore .numberOutOfRange rest

/-- A double without magnitude. -/
def signedZero (negative : Bool) : Float := if negative then -0.0 else 0.0

/-- The digits of an exponent.  One too large for 32 bits decides the
number at once. -/
def readExponentDigits (negative down : Bool) (significand : Nat) (start : Int) :
    Nat → Reader Number
  | exponent, d :: rest =>
      if Ascii.isDigit d then
        let exponent := exponent * 10 + Ascii.digitValue d
        if exponent < Nat.pow 2 31 then
          readExponentDigits negative down significand start exponent rest
        else if significand ≠ 0 ∧ !down then failBefore .numberOutOfRange rest
        else .ok (.float (signedZero negative), rest.dropWhile Ascii.isDigit)
      else
        finish negative significand
          (if down then start - exponent else start + exponent) (d :: rest)
  | exponent, [] =>
      finish negative significand
        (if down then start - exponent else start + exponent) []

/-- The sign of an exponent, after its mark. -/
def readExponentSign (bs : Bytes) : Bool × Bytes :=
  match bs with
  | b :: rest =>
      if b = Ascii.plus then (false, rest)
      else if b = Ascii.minus then (true, rest)
      else (false, bs)
  | [] => (false, [])

/-- An exponent, after its mark. -/
def readExponent (negative : Bool) (significand : Nat) (start : Int) : Reader Number :=
  fun bs =>
    let (down, bs) := readExponentSign bs
    match bs with
    | [] => failBefore .eofValue []
    | d :: rest =>
        if Ascii.isDigit d then
          readExponentDigits negative down significand start (Ascii.digitValue d) rest
        else failBefore .invalidNumber rest

/-- The exponent, if there is one. -/
def readOptionalExponent (negative : Bool) (significand : Nat) (start : Int) :
    Reader Number := fun bs =>
  match bs with
  | b :: rest =>
      if Ascii.isExponentMark b then readExponent negative significand start rest
      else finish negative significand start bs
  | [] => finish negative significand start []

/-- The digits after the point. -/
def readFraction (negative : Bool) (significand : Nat) (exponent : Int) :
    Reader Number := fun bs =>
  match spanDigits bs with
  | ([], []) => failOn .eofValue []
  | ([], rest) => failOn .invalidNumber rest
  | (digits, rest) =>
      let (significand, taken, _) := appendDigits significand digits
      readOptionalExponent negative significand (exponent - taken) rest

/-- A number without point and exponent. -/
def wholeNumber (negative : Bool) (n : Nat) : Number :=
  if !negative then .int n
  else if n = 0 then .float (-0.0)
  else if n ≤ Nat.pow 2 63 then .int (-Int.ofNat n)
  else .float (-n.toUInt64.toFloat)

/-- What follows the whole digits of a number.  `left` of them did not
fit the significand. -/
def readAfterWhole (negative : Bool) (significand left : Nat) : Reader Number := fun bs =>
  match bs with
  | b :: rest =>
      if b = Ascii.point then readFraction negative significand left rest
      else if Ascii.isExponentMark b then readExponent negative significand left rest
      else if left = 0 then .ok (wholeNumber negative significand, bs)
      else finish negative significand left bs
  | [] =>
      if left = 0 then .ok (wholeNumber negative significand, [])
      else finish negative significand left []

/-- A number after its sign.  Only a lone zero may begin with zero. -/
def readNumber (negative : Bool) : Reader Number
  | [] => failBefore .eofValue []
  | b :: rest =>
      if b = Ascii.zero then
        match rest with
        | d :: _ =>
            if Ascii.isDigit d then failOn .invalidNumber rest
            else readAfterWhole negative 0 0 rest
        | [] => readAfterWhole negative 0 0 []
      else if Ascii.isDigit b then
        let (digits, rest) := spanDigits (b :: rest)
        let (significand, _, left) := appendDigits 0 digits
        readAfterWhole negative significand left rest
      else failBefore .invalidNumber rest

/-- Pass over an exponent, after its mark. -/
def skipExponent (bs : Bytes) : Except Fault Bytes :=
  match (readExponentSign bs).2 with
  | [] => failBefore .invalidNumber []
  | d :: rest =>
      if Ascii.isDigit d then .ok (rest.dropWhile Ascii.isDigit)
      else failBefore .invalidNumber rest

/-- Pass over an exponent, if there is one. -/
def skipOptionalExponent (bs : Bytes) : Except Fault Bytes :=
  match bs with
  | b :: rest => if Ascii.isExponentMark b then skipExponent rest else .ok bs
  | [] => .ok []

/-- Pass over what follows the whole digits of a number. -/
def skipAfterWhole (bs : Bytes) : Except Fault Bytes :=
  match bs with
  | b :: rest =>
      if b = Ascii.point then
        match spanDigits rest with
        | ([], rest) => failOn .invalidNumber rest
        | (_, rest) => skipOptionalExponent rest
      else skipOptionalExponent bs
  | [] => .ok []

/-- Pass over a number after its sign. -/
def skipNumber : Bytes → Except Fault Bytes
  | [] => failBefore .invalidNumber []
  | b :: rest =>
      if b = Ascii.zero then
        match rest with
        | d :: _ =>
            if Ascii.isDigit d then failOn .invalidNumber rest
            else skipAfterWhole rest
        | [] => .ok []
      else if Ascii.isDigit b then skipAfterWhole (rest.dropWhile Ascii.isDigit)
      else failBefore .invalidNumber rest

end PubSub.Json
