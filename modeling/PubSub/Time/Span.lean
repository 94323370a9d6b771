/-!
# Spans of time

A span, or an instant counted from the start, is a whole number of
nanoseconds.  The clock of this library counts whole milliseconds, so a
wait that ends inside a millisecond ends at the next one (`wakeAt`).

* `Span.text` — a span in the largest unit that leaves a whole part,
  such as `30s`, `1.5ms` or `0ns`;
* `wakeAt` — the millisecond at which a wait until an instant ends.
-/

namespace PubSub

namespace Span

/-- Nanoseconds in a millisecond. -/
abbrev milli : Nat := 1000000

/-- Nanoseconds in a second. -/
abbrev second : Nat := 1000000000

/-- A span of whole milliseconds. -/
def ofMillis (n : Nat) : Nat := n * milli

/-- A span of whole seconds. -/
def ofSeconds (n : Nat) : Nat := n * second

/-- The longest span that can be written down: `2^64` seconds less one
nanosecond. -/
def longest : Nat := Nat.pow 2 64 * second - 1

/-- The digits after the point of `part / 10^places`, without zeros at
the end; nothing at all when `part` is zero. -/
def fraction (part places : Nat) : List Char :=
  if part = 0 then []
  else
    let digits := Nat.toDigits 10 part
    let padded := List.replicate (places - digits.length) '0' ++ digits
    '.' :: (padded.reverse.dropWhile (· == '0')).reverse

/-- `whole` units and `part / 10^places` of one. -/
def inUnit (whole part places : Nat) (unit : String) : String :=
  String.ofList (Nat.toDigits 10 whole ++ fraction part places) ++ unit

/-- A span in the largest unit of which it holds at least one. -/
def text (span : Nat) : String :=
  if second ≤ span then inUnit (span / second) (span % second) 9 "s"
  else if milli ≤ span then inUnit (span / milli) (span % milli) 6 "ms"
  else if 1000 ≤ span then inUnit (span / 1000) (span % 1000) 3 "µs"
  else inUnit span 0 0 "ns"

end Span

/-- The first whole millisecond that is not before `instant`. -/
def wakeAt (instant : Nat) : Nat :=
  (instant + (Span.milli - 1)) / Span.milli

/-- A wait ends no earlier than it should, and less than a millisecond
late. -/
theorem wakeAt_bounds (instant : Nat) :
    instant ≤ Span.ofMillis (wakeAt instant) ∧
      Span.ofMillis (wakeAt instant) < instant + Span.milli := by
  unfold wakeAt Span.ofMillis Span.milli
  omega

/-- An instant has passed at a clock reading exactly when its waking
time has come. -/
theorem wakeAt_le_iff (instant : Nat) (now : Nat) :
    wakeAt instant ≤ now ↔ instant ≤ Span.ofMillis now := by
  unfold wakeAt Span.ofMillis Span.milli
  omega

end PubSub
