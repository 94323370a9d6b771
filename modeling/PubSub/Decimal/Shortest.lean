/-!
# The shortest decimal of a binary fraction

A double is a fraction `m · 2^q`.  The reals that round to it form an
interval around it, ends included exactly when `m` is even.  Among the
decimals in that interval we want the ones with the fewest digits, and
of those the nearest to the double.

If some multiple of a power of ten lies in the interval, so does one of
the two multiples next to the double itself.  So it is enough to try
those two neighbours for one digit, two digits, and so on; seventeen
digits always suffice.  When both are equally near, a `Tie` says which
is meant.

* `Binary.ofFloat` — the fraction a finite double stands for;
* `shortest` — its digits, and the power of ten of the last of them.
-/

namespace PubSub.Decimal

/-- The value `mantissa · 2^exponent`.  `closeBelow` says that the next
smaller double is only half as far away as the next larger one. -/
structure Binary where
  mantissa : Nat
  exponent : Int
  closeBelow : Bool
  deriving DecidableEq, Repr

/-- A run of decimal digits scaled by a power of ten: `digits · 10^exponent`. -/
structure Scaled where
  digits : Nat
  exponent : Int
  deriving DecidableEq, Repr

/-- The magnitude of a finite double, its sign apart. -/
def Binary.ofFloat (x : Float) : Binary :=
  let bits : Nat := x.toBits.toNat
  let fraction : Nat := bits % Nat.pow 2 52
  let biased : Nat := bits / Nat.pow 2 52 % Nat.pow 2 11
  if biased = 0 then ⟨fraction, -1074, false⟩
  else ⟨Nat.pow 2 52 + fraction, Int.ofNat biased - 1075, fraction = 0 ∧ 1 < biased⟩

/-- Is the sign bit of a double set? -/
def isNegative (x : Float) : Bool :=
  x.toBits.toNat / Nat.pow 2 63 = 1

/-- A nonnegative fraction over a common denominator. -/
structure Fraction where
  num : Nat
  den : Nat

/-- `n · 2^e · 10^(-t)` as a fraction. -/
def Fraction.scale (n : Nat) (e t : Int) : Fraction where
  num := n * Nat.pow 2 e.toNat * Nat.pow 10 (-t).toNat
  den := Nat.pow 2 (-e).toNat * Nat.pow 10 t.toNat

/-- Twice the distance between the fraction and the whole number `k`,
over the fraction's own denominator. -/
def Fraction.twiceGap (f : Fraction) (k : Nat) : Nat :=
  2 * (max f.num (k * f.den) - min f.num (k * f.den))

/-- Does the decimal `k · 10^t` round to the double `b`?  All bounds are
taken over quarter units of the last binary place. -/
def Binary.admits (b : Binary) (k : Nat) (t : Int) : Bool :=
  let below := if b.closeBelow then 1 else 2
  let low := Fraction.scale (4 * b.mantissa - below) (b.exponent - 2) t
  let high := Fraction.scale (4 * b.mantissa + 2) (b.exponent - 2) t
  if b.mantissa % 2 = 0 then low.num ≤ k * low.den ∧ k * high.den ≤ high.num
  else low.num < k * low.den ∧ k * high.den < high.num

/-- Which of two equally near decimals is taken. -/
inductive Tie where
  | toEven
  | up
  deriving DecidableEq, Repr

/-- The better of the two multiples of `10^t` next to the double, if
either rounds to it. -/
def Binary.onGrid (b : Binary) (tie : Tie) (t : Int) : Option Nat :=
  let value := Fraction.scale b.mantissa b.exponent t
  let below := value.num / value.den
  match b.admits below t, b.admits (below + 1) t with
  | false, false => none
  | true, false => some below
  | false, true => some (below + 1)
  | true, true =>
      if value.twiceGap below < value.twiceGap (below + 1) then some below
      else if value.twiceGap (below + 1) < value.twiceGap below then some (below + 1)
      else if tie = .toEven ∧ below % 2 = 0 then some below
      else some (below + 1)

/-- How many decimal digits the whole part has; for a value below one,
one less than minus the number of zeros after the point. -/
def Binary.magnitude (b : Binary) : Int :=
  let value := Fraction.scale b.mantissa b.exponent 0
  if value.den ≤ value.num then ((Nat.toDigits 10 (value.num / value.den)).length : Int)
  else 1 - ((Nat.toDigits 10 (value.den / value.num)).length : Int)

/-- Try grids of `tries` more sizes, from `10^t` downward. -/
def Binary.search (b : Binary) (tie : Tie) : Nat → Int → Scaled
  | 0, t => ⟨b.mantissa, t⟩
  | tries + 1, t =>
      match b.onGrid tie t with
      | some k => if 0 < k then ⟨k, t⟩ else b.search tie tries (t - 1)
      | none => b.search tie tries (t - 1)

/-- Drop the zeros at the end of the digits. -/
def Scaled.trim (s : Scaled) : Nat → Scaled
  | 0 => s
  | fuel + 1 =>
      if s.digits ≠ 0 ∧ s.digits % 10 = 0 then
        Scaled.trim ⟨s.digits / 10, s.exponent + 1⟩ fuel
      else s

/-- The fewest digits that read back as the nonzero double `b`, and of
those the nearest to it. -/
def shortest (b : Binary) (tie : Tie) : Scaled :=
  (b.search tie 20 b.magnitude).trim 400

end PubSub.Decimal
