import PubSub.Time.Span

/-!
# Backing off

Between two attempts there is a pause.  The pauses grow by a factor up to
a longest one, each is drawn at random from around its interval, and
together with the attempts they must keep within a budget of time.
Intervals grow in double precision and are cut to whole nanoseconds.

* `RetryPolicy` — initial and longest interval, budget, growth, spread;
* `RetryPolicy.pause` — the drawn pause around an interval;
* `withinBudget` — the pause, if there is time for it;
* `Backoff.next` — the next pause of a sequence.
-/

namespace PubSub

/-- How attempts are repeated.  Spans are in nanoseconds; a budget of zero
is no budget. -/
structure RetryPolicy where
  initialInterval : Nat
  maxInterval : Nat
  budget : Nat
  multiplier : Float
  spread : Float
  deriving Repr

namespace RetryPolicy

/-- The growth from one interval to the next, unless set. -/
def defaultMultiplier : Float := 1.5

/-- The part of an interval by which a pause may miss it, unless set. -/
def defaultSpread : Float := 0.5

/-- A policy with the usual growth and spread. -/
def ofSpans (initialInterval maxInterval budget : Nat) : RetryPolicy :=
  ⟨initialInterval, maxInterval, budget, defaultMultiplier, defaultSpread⟩

/-- The longest interval is never shorter than the first. -/
def longest (p : RetryPolicy) : Nat := max p.maxInterval p.initialInterval

/-- The growth, which is never a shrinking. -/
def growth (p : RetryPolicy) : Float :=
  if p.multiplier.isNaN then 1.0 else if p.multiplier < 1.0 then 1.0 else p.multiplier

/-- The spread, between nothing and all of the interval. -/
def clampedSpread (p : RetryPolicy) : Float :=
  if p.spread < 0.0 then 0.0 else if 1.0 < p.spread then 1.0 else p.spread

/-- A span as a number of nanoseconds in double precision. -/
def toDouble (span : Nat) : Float :=
  (span / Span.second).toUInt64.toFloat * 1000000000.0
    + (span % Span.second).toUInt64.toFloat

/-- The whole nanoseconds of a double; seconds and the rest are cut
apart, and each stops at the largest number of 64 bits. -/
def ofDouble (nanos : Float) : Nat :=
  let seconds := (nanos / 1000000000.0).toUInt64.toNat
  seconds * Span.second + nanos.toUInt64.toNat % Span.second

/-- The interval after `interval`. -/
def grow (p : RetryPolicy) (interval : Nat) : Nat :=
  if toDouble p.longest / p.growth ≤ toDouble interval then p.longest
  else ofDouble (toDouble interval * p.growth)

/-- The interval before the repeat number `k`, counted from zero. -/
def interval (p : RetryPolicy) : Nat → Nat
  | 0 => p.initialInterval
  | k + 1 => p.grow (p.interval k)

/-- The pause around an interval, for a number drawn evenly from zero to
one. -/
def pause (p : RetryPolicy) (interval : Nat) (drawn : Float) : Nat :=
  let middle := toDouble interval
  let delta := p.clampedSpread * middle
  let low := middle - delta
  let high := middle + delta
  ofDouble (low + drawn * (high - low + 1.0))

end RetryPolicy

/-- The pause, if a budget leaves time for it after what has elapsed. -/
def withinBudget (budget elapsed pause : Nat) : Option Nat :=
  if budget = 0 then some pause
  else if elapsed + pause ≤ budget then some pause
  else none

/-- A sequence of pauses: the interval that is next, and when the sequence
began. -/
structure Backoff where
  policy : RetryPolicy
  interval : Nat
  begun : Nat

namespace Backoff

/-- A sequence that begins at the instant `now`. -/
def start (policy : RetryPolicy) (now : Nat) : Backoff :=
  ⟨policy, policy.initialInterval, now⟩

/-- Begin again. -/
def reset (b : Backoff) (now : Nat) : Backoff := start b.policy now

/-- Is more time gone than the budget allows, before any pause? -/
def overdue (b : Backoff) (now : Nat) : Bool :=
  b.policy.budget ≠ 0 && b.policy.budget < now - b.begun

/-- The next pause, or none once the budget does not allow it.  The
interval grows unless the budget is gone already. -/
def next (b : Backoff) (now : Nat) (drawn : Float) : Option Nat × Backoff :=
  if b.overdue now then (none, b)
  else
    (withinBudget b.policy.budget (now - b.begun) (b.policy.pause b.interval drawn),
      { b with interval := b.policy.grow b.interval })

end Backoff
end PubSub
