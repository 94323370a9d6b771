import PubSub.Error
import PubSub.Time.Span

/-!
# Contexts

A context says when work should stop, and which flow of messages the work
belongs to.  It holds a token; cancelling a token cancels every token
that was derived from it, before or after.  A token is known by its
lineage, its own number followed by the numbers of the tokens it was
derived from, so it is cancelled when any number of its lineage is.  A
context may also have a deadline, which a derived context can only bring
forward.

* `Tokens` — the tokens handed out and cancelled so far;
* `Context.child`, `Context.withDeadline` — deriving contexts;
* `Context.err` — why a context has ended, if it has;
* `Ambient`, `Present` — the clock and the tokens, to the millisecond and to
  the nanosecond.
-/

namespace PubSub

/-- When work should stop, and the flow it belongs to.  The deadline is an
instant in nanoseconds. -/
structure Context where
  lineage : List Nat
  deadline : Option Nat
  correlationId : Option String
  causationId : Option String
  deriving DecidableEq, Repr

/-- How many tokens have been handed out, and which have been cancelled
themselves. -/
structure Tokens where
  issued : Nat
  cancelled : List Nat
  deriving DecidableEq, Repr

namespace Tokens

/-- No tokens. -/
def none : Tokens := ⟨0, []⟩

/-- Cancel the token that a context holds. -/
def cancel (t : Tokens) (ctx : Context) : Tokens :=
  { t with cancelled := ctx.lineage.take 1 ++ t.cancelled }

end Tokens

namespace Context

/-- A new context that depends on no other. -/
def fresh (t : Tokens) : Context × Tokens :=
  (⟨[t.issued], none, none, none⟩, { t with issued := t.issued + 1 })

/-- A context that shares the token of this one, and nothing else. -/
def ofToken (ctx : Context) : Context := ⟨ctx.lineage, none, none, none⟩

/-- A context that ends when this one does. -/
def child (ctx : Context) (t : Tokens) : Context × Tokens :=
  ({ ctx with lineage := t.issued :: ctx.lineage }, { t with issued := t.issued + 1 })

/-- The earlier of a deadline and another one, if there is one. -/
def earlier (deadline : Option Nat) (other : Nat) : Nat :=
  match deadline with
  | some d => if d < other then d else other
  | none => other

/-- A child that ends at an instant, or when this context does. -/
def withDeadline (ctx : Context) (deadline : Nat) (t : Tokens) : Context × Tokens :=
  let (derived, t) := ctx.child t
  ({ derived with deadline := some (earlier ctx.deadline deadline) }, t)

/-- Instants are counted in seconds below this one. -/
def endOfTime : Nat := Nat.pow 2 63

/-- The instant a span after the clock reading `now`, unless time ends
before. -/
def deadlineAfter (now timeout : Nat) : Except Abort Nat :=
  let deadline := Span.ofMillis now + timeout
  if deadline / Span.second < endOfTime then .ok deadline else .error .deadlineOverflow

/-- A child that ends after a span, or when this context does. -/
def withTimeout (ctx : Context) (now timeout : Nat) (t : Tokens) :
    Except Abort (Context × Tokens) := do
  .ok (ctx.withDeadline (← deadlineAfter now timeout) t)

/-- Is the context's token cancelled? -/
def isCancelled (ctx : Context) (t : Tokens) : Bool :=
  ctx.lineage.any t.cancelled.contains

/-- Has the deadline come when the clock reads `now`? -/
def isOverdue (ctx : Context) (now : Nat) : Bool :=
  ctx.deadline.any (· ≤ Span.ofMillis now)

/-- Why the context has ended, if it has.  Cancellation is named before a
deadline. -/
def err (ctx : Context) (t : Tokens) (now : Nat) : Option Error :=
  if ctx.isCancelled t then some .cancelled
  else if ctx.isOverdue now then some .deadlineExceeded
  else none

/-- Has the context ended? -/
def isDone (ctx : Context) (t : Tokens) (now : Nat) : Bool :=
  (ctx.err t now).isSome

/-- The clock reading at which the deadline ends the context. -/
def endsAt? (ctx : Context) : Option Nat := ctx.deadline.map wakeAt

/-- The correlation id for a new message: that of the flow, or else a
given one. -/
def correlationFor (ctx : Context) (fallback : String) : String :=
  ctx.correlationId.getD fallback

/-- The causation id for a new message: that of the flow, or else a given
one. -/
def causationFor (ctx : Context) (fallback : String) : String :=
  ctx.causationId.getD fallback

end Context

/-- What the clock reads and which tokens there are. -/
structure Ambient where
  now : Nat
  tokens : Tokens
  deriving DecidableEq, Repr

namespace Ambient

/-- Why a context has ended by now, if it has. -/
def err (a : Ambient) (ctx : Context) : Option Error := ctx.err a.tokens a.now

/-- Has a context ended by now? -/
def isDone (a : Ambient) (ctx : Context) : Bool := ctx.isDone a.tokens a.now

end Ambient

/-- What the clock reads to the nanosecond, and which tokens there are. -/
structure Present where
  instant : Nat
  tokens : Tokens
  deriving DecidableEq, Repr

/-- The moment at which the clock has just come to read what it reads. -/
def Ambient.present (a : Ambient) : Present := ⟨Span.ofMillis a.now, a.tokens⟩

namespace Present

/-- The instant a span after this moment, unless time ends before. -/
def after (m : Present) (span : Nat) : Except Abort Nat :=
  if (m.instant + span) / Span.second < Context.endOfTime then .ok (m.instant + span)
  else .error .deadlineOverflow

/-- Why a context has ended, if it has. -/
def err (m : Present) (ctx : Context) : Option Error :=
  if ctx.isCancelled m.tokens then some .cancelled
  else if ctx.deadline.any (· ≤ m.instant) then some .deadlineExceeded
  else none

/-- Has a context ended? -/
def isDone (m : Present) (ctx : Context) : Bool := (m.err ctx).isSome

/-- Is a wait until an instant over?  It lasts until the next whole
millisecond. -/
def isPast (m : Present) (instant : Nat) : Bool := Span.ofMillis (wakeAt instant) ≤ m.instant

/-- Is the wait for the end of a context over? -/
def isReleased (m : Present) (ctx : Context) : Bool :=
  ctx.isCancelled m.tokens || ctx.deadline.any m.isPast

end Present
end PubSub
