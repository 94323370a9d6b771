import PubSub.Error

/-!
# Identifiers

A supply of identifiers is a numbered sequence of draws, any of which
may fail.  A failed draw uses up its number all the same.

* `Ids.draw` — the next identifier;
* `Ids.numbered` — an opening text and the number of the draw;
* `Ids.version4` — identifiers in the shape of random UUIDs.
-/

namespace PubSub

/-- A supply of identifiers: the outcome of every draw, counted from
zero, and how many have been made. -/
structure Ids where
  source : Nat → Except Error String
  drawn : Nat

namespace Ids

/-- The next identifier. -/
def draw (ids : Ids) : Except Error String × Ids :=
  (ids.source ids.drawn, { ids with drawn := ids.drawn + 1 })

/-- `lead` followed by the number of the draw, counted from one.  The draw
number `failAt`, if given, is refused. -/
def numbered (lead : String) (failAt : Option Nat) : Ids where
  source n :=
    if failAt = some (n + 1) then .error (.identifier s!"id {n + 1} refused")
    else .ok s!"{lead}{n + 1}"
  drawn := 0

/-- Spread a number over 122 bits, so that consecutive numbers give
unlike digits. -/
def scatter (n : Nat) : Nat :=
  (n + 1) * 0x9E3779B97F4A7C15F39CC0605CEDC835 % Nat.pow 2 122

/-- Hexadecimal digits of a number, `width` of them. -/
def hexDigits (width n : Nat) : List Char :=
  let digits := Nat.toDigits 16 (n % Nat.pow 16 width)
  List.replicate (width - digits.length) '0' ++ digits

/-- The text of a version 4 UUID with the given 122 free bits. -/
def version4Text (bits : Nat) : String :=
  let variant := Nat.toDigits 16 (8 + bits / Nat.pow 2 120 % 4)
  String.ofList <|
    hexDigits 8 bits ++ '-' :: hexDigits 4 (bits / Nat.pow 2 32)
      ++ '-' :: '4' :: hexDigits 3 (bits / Nat.pow 2 48)
      ++ '-' :: variant ++ hexDigits 3 (bits / Nat.pow 2 60)
      ++ '-' :: hexDigits 12 (bits / Nat.pow 2 72)

/-- Identifiers in the shape of version 4 UUIDs. -/
def version4 : Ids where
  source n := .ok (version4Text (scatter n))
  drawn := 0

end Ids
end PubSub
