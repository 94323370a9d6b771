import PubSub.Context

/-!
# Work under a context

Work goes on in steps.  Under a context it races against the end of that
context: each time it could go on, the context is asked first, and only when
that has not ended does the work take its step.  Whoever comes first decides.

* `Work`, `Verdict` — the work and how a race stands;
* `Context.resume` — a race goes on;
* `Context.race` — a race begins.
-/

namespace PubSub

/-- What work comes to: a result, or it is given up on the spot. -/
abbrev Conclusion (α : Type) := Except Abort (Except Error α)

/-- One step of some work.  `σ` is where it stands, `ι` what it is given from
outside, and `α` what it comes to. -/
abbrev Work (ι σ α : Type) := Present → ι → σ → σ × Option (Conclusion α)

/-- How a race stands. -/
inductive Verdict (α : Type) where
  | undecided
  /-- The context has ended first. -/
  | ended (why : Error)
  /-- The work has come to its end first. -/
  | own (conclusion : Conclusion α)

namespace Verdict

/-- What the race comes to, once it is decided. -/
def conclusion? {α : Type} : Verdict α → Option (Conclusion α)
  | .undecided => none
  | .ended why => some (.ok (.error why))
  | .own conclusion => some conclusion

end Verdict

namespace Context

variable {ι σ α : Type}

/-- A race goes on: the work takes a step unless the wait for the end of the
context is over. -/
def resume (ctx : Context) (work : Work ι σ α) (m : Present) (input : ι) (x : σ) :
    σ × Verdict α :=
  if m.isReleased ctx then (x, .ended ((m.err ctx).getD .cancelled))
  else
    let (x, conclusion?) := work m input x
    (x, conclusion?.elim .undecided .own)

/-- A race begins, unless the context has ended already. -/
def race (ctx : Context) (work : Work ι σ α) (m : Present) (input : ι) (x : σ) :
    σ × Verdict α :=
  match m.err ctx with
  | some why => (x, .ended why)
  | none => ctx.resume work m input x

end Context
end PubSub
