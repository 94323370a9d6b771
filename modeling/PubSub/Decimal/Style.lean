import PubSub.Decimal.Shortest

/-!
# Written forms of a double

The digits of a double are fixed by `shortest`; what differs from one
written form to the next is where positional notation ends, whether a
whole number keeps its `.0`, and how an exponent is marked.  A `Style`
records those choices.
-/

namespace PubSub.Decimal

/-- The choices that a written form of a double makes.  A number is
positional when its decimal point falls in `(first, last]` counted from
the front of the digits. -/
structure Style where
  first : Option Int
  last : Option Int
  keepPoint : Bool
  plusSign : Bool
  tie : Tie
  deriving DecidableEq, Repr

/-- Numbers in JSON text: positional from `0.00001` to sixteen whole
digits, a `.0` after a whole number, and a sign on every exponent. -/
def Style.json : Style := ⟨some (-5), some 16, true, true, .toEven⟩

/-- Plain numbers: always positional, and no `.0`. -/
def Style.plain : Style := ⟨none, none, false, false, .up⟩

/-- Numbers in a debug listing: positional from `0.0001` up to `10^16`,
with a `.0` after a whole number. -/
def Style.debug : Style := ⟨some (-4), some 16, true, false, .up⟩

/-- Zeros, as digits. -/
def zeros (n : Nat) : List Char := List.replicate n '0'

/-- Digits with the point after the first `point` of them. -/
def positional (keepPoint : Bool) (digits : List Char) (point : Int) : List Char :=
  if point ≤ 0 then '0' :: '.' :: zeros (-point).toNat ++ digits
  else
    let whole := point.toNat
    if digits.length ≤ whole then
      digits ++ zeros (whole - digits.length) ++ (if keepPoint then ['.', '0'] else [])
    else digits.take whole ++ '.' :: digits.drop whole

/-- Digits with one of them before the point, and an exponent. -/
def scientific (plusSign : Bool) (digits : List Char) (point : Int) : List Char :=
  let exponent := point - 1
  let mark := if exponent < 0 then ['-'] else if plusSign then ['+'] else []
  let fraction := match digits.drop 1 with
    | [] => []
    | rest => '.' :: rest
  digits.take 1 ++ fraction ++ 'e' :: mark ++ Nat.toDigits 10 exponent.natAbs

/-- The magnitude of a finite double. -/
def Style.magnitude (style : Style) (x : Float) : List Char :=
  let binary := Binary.ofFloat x
  if binary.mantissa = 0 then
    if style.keepPoint then ['0', '.', '0'] else ['0']
  else
    let scaled := shortest binary style.tie
    let digits := Nat.toDigits 10 scaled.digits
    let point := (digits.length : Int) + scaled.exponent
    let tooSmall := style.first.any (point ≤ ·)
    let tooLarge := style.last.any (· < point)
    if tooSmall || tooLarge then scientific style.plusSign digits point
    else positional style.keepPoint digits point

/-- A double in the given style. -/
def Style.write (style : Style) (x : Float) : List Char :=
  if x.isNaN then "NaN".toList
  else
    let sign := if isNegative x then ['-'] else []
    if x.isInf then sign ++ "inf".toList else sign ++ style.magnitude x

end PubSub.Decimal
