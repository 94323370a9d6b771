/-!
# Outcomes of one step after another

A row of steps goes through when each of them does.  A row that stops at the
first thing that is wrong comes to a verdict over all that is: the first of the
flaws, if there are any.

* `of_bind_ok` — what went through in two steps, taken apart;
* `mapError_ok`, `mapError_error` — failures in other words;
* `verdict`, `verdict_bind`, `mapM_verdict`, `forM_verdict` — stopping at the
  first flaw.
-/

namespace PubSub

variable {ε α β : Type}

/-- What was done in two steps: the first went through, and so did the rest. -/
theorem of_bind_ok {first : Except ε α} {after : α → Except ε β} {b : β}
    (h : first >>= after = .ok b) : ∃ a, first = .ok a ∧ after a = .ok b := by
  cases first with
  | error fault => cases h
  | ok a => exact ⟨a, rfl, h⟩

@[simp] theorem mapError_error {ε' : Type} (f : ε → ε') (e : ε) :
    (Except.error e : Except ε α).mapError f = .error (f e) := rfl

@[simp] theorem mapError_ok {ε' : Type} (f : ε → ε') (x : α) :
    (Except.ok x : Except ε α).mapError f = .ok x := rfl

/-- The first of the flaws, or else the value. -/
def verdict (flaws : List ε) (a : α) : Except ε α :=
  match flaws with
  | [] => .ok a
  | flaw :: _ => .error flaw

theorem verdict_congr {flaws : List ε} {a b : α} (h : flaws = [] → a = b) :
    verdict flaws a = verdict flaws b := by
  cases flaws with
  | nil => rw [h rfl]
  | cons flaw flaws => rfl

/-- What is done next adds its flaws to those before. -/
theorem verdict_bind {flaws flaws' : List ε} {a : α} {b : β} {next : α → Except ε β}
    (h : flaws = [] → next a = verdict flaws' b) :
    verdict flaws a >>= next = verdict (flaws ++ flaws') b := by
  cases flaws with
  | nil => exact h rfl
  | cons flaw flaws => rfl

/-- What cannot go wrong adds nothing. -/
theorem verdict_bind_ok {flaws : List ε} {a : α} {b : β} {next : α → Except ε β}
    (h : next a = .ok b) : verdict flaws a >>= next = verdict flaws b := by
  cases flaws with
  | nil => exact h
  | cons flaw flaws => rfl

/-- A list is gone through up to its first flaw. -/
theorem mapM_verdict {f : α → Except ε β} {flaws : α → List ε} {value : α → β}
    (h : ∀ a, f a = verdict (flaws a) (value a)) (as : List α) :
    as.mapM f = verdict (as.flatMap flaws) (as.map value) := by
  induction as with
  | nil => rfl
  | cons a as ih =>
      rw [List.mapM_cons, h, ih, List.flatMap_cons, List.map_cons]
      exact verdict_bind fun _ => verdict_bind_ok rfl

/-- So is one whose values do not matter. -/
theorem forM_verdict {f : α → Except ε Unit} {flaws : α → List ε}
    (h : ∀ a, f a = verdict (flaws a) ()) (as : List α) :
    as.forM f = verdict (as.flatMap flaws) () := by
  induction as with
  | nil => rfl
  | cons a as ih =>
      have hcons : (a :: as).forM f = f a >>= fun _ => as.forM f := rfl
      rw [hcons, h, ih, List.flatMap_cons]
      exact verdict_bind fun _ => rfl

/-- A verdict is the value if there are no flaws, and else the first of
them. -/
theorem verdict_ok_iff {flaws : List ε} {a b : α} :
    verdict flaws a = .ok b ↔ flaws = [] ∧ b = a := by
  cases flaws <;> simp [verdict, eq_comm]

theorem verdict_error_iff {flaws : List ε} {a : α} {flaw : ε} :
    verdict flaws a = .error flaw ↔ flaws.head? = some flaw := by
  cases flaws <;> simp [verdict]

end PubSub
