import PubSub.Chain.Delivery
import PubSub.Proofs.Context

/-!
# The course of a repeated operation

An operation is attempted under a policy: a delivery goes through a single
stage, which repeats it.  Around it the clock goes on, a millisecond at a
time, tokens are cancelled, and attempts come to an end, whenever that may be
and with whatever outcome.  Time does not pass a pause that is over, nor a
pause whose context has ended; if both happen in one millisecond, either may
be noticed first.

* `Repetition`, `Course` — the operation, and how far it has come;
* `Happening`, `Repetition.apply`, `Repetition.run` — what can happen;
* `Kept`, `kept_run` — what stays as it is.
-/

namespace PubSub

/-- An operation that is repeated after failures: the policy, the pauses that
are drawn, and the context it is carried out in. -/
structure Repetition where
  policy : RetryPolicy
  pace : Pace
  ctx : Context
  message : Message

namespace Course

/-- An attempt has begun: when, and whether the context had ended by then. -/
structure Start where
  time : Nat
  ended : Bool

/-- An attempt is over: when, what it came to, and whether the context had
ended by then. -/
structure Exit (α : Type) where
  time : Nat
  outcome : Except Error α
  ended : Bool

/-- When a pause after an attempt is over. -/
def Exit.resumesAt {α : Type} (exit : Exit α) (delay : Nat) : Nat :=
  wakeAt (Span.ofMillis exit.time + delay)

/-- Whether the context had ended by then agrees with when it ended. -/
structure Exit.Told {α : Type} (exit : Exit α) (endedAt : Option Nat) : Prop where
  since (h : exit.ended = true) : ∃ t ∈ endedAt, t ≤ exit.time
  until_ (h : exit.ended = false) : ∀ t ∈ endedAt, exit.time ≤ t

/-- A pause does not end before it begins. -/
theorem Exit.le_resumesAt {α : Type} (exit : Exit α) (delay : Nat) :
    exit.time ≤ exit.resumesAt delay := by
  unfold resumesAt wakeAt Span.ofMillis Span.milli
  omega

end Course

/-- How far a repeated operation has come.  The attempts that have begun and
those that are over are listed in their order. -/
structure Course (α : Type) where
  ambient : Ambient
  delivery : Delivery
  starts : List Course.Start
  exits : List (Course.Exit α)
  /-- When the context was found to have ended. -/
  endedAt : Option Nat
  /-- What the operation has come to, and when. -/
  result : Option (Nat × Except Error α)

/-- What an operation comes to when its delivery is over: to the failure of the
delivery, or else to the value of the last attempt. -/
def Course.upshot? {α : Type} (exits : List (Course.Exit α)) :
    Except Error Unit → Option (Except Error α)
  | .error e => some (.error e)
  | .ok () => exits.getLast?.bind fun last => last.outcome.toOption.map .ok

/-- What can happen to a repeated operation. -/
inductive Happening (α : Type) where
  /-- A millisecond passes. -/
  | tick
  /-- Somebody cancels tokens. -/
  | cancelled (tokens : List Nat)
  /-- The attempt is over. -/
  | returned (outcome : Except Error α)
  /-- A pause is over or its context has ended.  If both, it depends on
  `insists` whether the operation goes on. -/
  | wake (insists : Bool)

namespace Repetition

open Course (Start Exit)

variable {α : Type} (r : Repetition)

/-- What is passed to every attempt. -/
def arrival : Arrival := ⟨r.ctx, r.message⟩

/-- The course after its delivery has moved. -/
def follow (c : Course α) (step : Delivery × List Note) : Course α :=
  match step.1.progress with
  | .handling .. =>
      { c with
        delivery := step.1
        starts := c.starts ++ [⟨c.ambient.now, c.ambient.isDone r.ctx⟩] }
  | .pausing .. => { c with delivery := step.1 }
  | .finished outcome =>
      { c with
        delivery := step.1
        result := (Course.upshot? c.exits outcome).map (c.ambient.now, ·) }

/-- The course in other surroundings. -/
def surround (c : Course α) (a : Ambient) : Course α :=
  { c with
    ambient := a
    endedAt := c.endedAt.or (if a.isDone r.ctx then some a.now else none) }

/-- The operation begins. -/
def start (α : Type) (a : Ambient) : Course α :=
  let step := Delivery.begin r.pace a.now (a.isDone r.ctx) [.retry r.policy] r.arrival
  r.follow ⟨a, step.1, [], [], if a.isDone r.ctx then some a.now else none, none⟩ step

/-- Is a pause over, or has its context ended? -/
def isReady (c : Course α) : Bool :=
  match c.delivery.progress with
  | .pausing until_ .. => decide (wakeAt until_ ≤ c.ambient.now) || c.ambient.isDone r.ctx
  | _ => false

/-- The course after a pause has come to its end, one way or the other. -/
def endPause (c : Course α) (until_ : Nat) (insists : Bool) : Course α :=
  let ended := c.ambient.isDone r.ctx
  let due := decide (wakeAt until_ ≤ c.ambient.now)
  if ended && !(due && insists) then r.follow c (c.delivery.giveUp r.pace c.ambient.now)
  else if due then r.follow c (c.delivery.resume r.pace c.ambient.now ended)
  else c

/-- The course after something has happened.  What cannot happen now changes
nothing. -/
def apply (c : Course α) : Happening α → Course α
  | .tick =>
      if r.isReady c then c
      else r.surround c { c.ambient with now := c.ambient.now + 1 }
  | .cancelled tokens =>
      r.surround c ⟨c.ambient.now,
        { c.ambient.tokens with cancelled := tokens ++ c.ambient.tokens.cancelled }⟩
  | .returned outcome =>
      match c.delivery.progress with
      | .handling .. =>
          let ended := c.ambient.isDone r.ctx
          r.follow { c with exits := c.exits ++ [⟨c.ambient.now, outcome, ended⟩] }
            (c.delivery.returned r.pace c.ambient.now ended (outcome.map fun _ => ()))
      | _ => c
  | .wake insists =>
      match c.delivery.progress with
      | .pausing until_ .. => r.endPause c until_ insists
      | _ => c

/-- The course after many things have happened. -/
def run (c : Course α) (happenings : List (Happening α)) : Course α :=
  happenings.foldl r.apply c

/-- What stays as it is while things happen: attempts that have begun or are
over, and the context once it has ended. -/
structure Kept (c c' : Course α) : Prop where
  starts : c.starts <+: c'.starts
  exits : c.exits <+: c'.exits
  later : c.ambient.Later c'.ambient

theorem Kept.refl (c : Course α) : Kept c c :=
  ⟨List.prefix_refl _, List.prefix_refl _, .refl _⟩

theorem Kept.trans {c c' c'' : Course α} (h : Kept c c') (h' : Kept c' c'') : Kept c c'' :=
  ⟨h.starts.trans h'.starts, h.exits.trans h'.exits, h.later.trans h'.later⟩

/-- Following the delivery adds an attempt at most. -/
theorem kept_follow (c : Course α) (step : Delivery × List Note) : Kept c (r.follow c step) := by
  unfold follow
  split
  · exact { Kept.refl c with starts := List.prefix_append _ _ }
  · exact { Kept.refl c with }
  · exact { Kept.refl c with }

/-- At the end of a pause the delivery is followed, if anything. -/
theorem apply_wake (c : Course α) (insists : Bool) :
    r.apply c (.wake insists) = c ∨ ∃ step, r.apply c (.wake insists) = r.follow c step := by
  rw [apply]
  split
  · unfold endPause
    dsimp only
    split
    · exact .inr ⟨_, rfl⟩
    split
    · exact .inr ⟨_, rfl⟩
    · exact .inl rfl
  · exact .inl rfl

/-- Whatever happens, what has happened stays. -/
theorem kept_apply (c : Course α) (happening : Happening α) :
    Kept c (r.apply c happening) := by
  cases happening with
  | tick =>
      rw [apply]
      split
      · exact Kept.refl c
      · exact { Kept.refl c with later := ⟨Nat.le_succ _, List.Subset.refl _⟩ }
  | cancelled tokens =>
      exact { Kept.refl c with later := ⟨Nat.le_refl _, List.subset_append_right _ _⟩ }
  | returned outcome =>
      rw [apply]
      split
      · let o : Exit α := ⟨c.ambient.now, outcome, c.ambient.isDone r.ctx⟩
        have hexit : Kept c { c with exits := c.exits ++ [o] } :=
          { Kept.refl c with exits := List.prefix_append _ _ }
        exact hexit.trans (r.kept_follow _ _)
      · exact Kept.refl c
  | wake insists =>
      obtain hsame | ⟨step, hfollow⟩ := r.apply_wake c insists
      · rw [hsame]
        exact Kept.refl c
      · rw [hfollow]
        exact r.kept_follow c step

@[simp] theorem delivery_follow (c : Course α) (step : Delivery × List Note) :
    (r.follow c step).delivery = step.1 := by
  unfold follow
  split <;> rfl

/-- No attempt is over when the delivery is followed. -/
@[simp] theorem exits_follow (c : Course α) (step : Delivery × List Note) :
    (r.follow c step).exits = c.exits := by
  unfold follow
  split <;> rfl

/-- The surroundings stay as they are then. -/
@[simp] theorem ambient_follow (c : Course α) (step : Delivery × List Note) :
    (r.follow c step).ambient = c.ambient := by
  unfold follow
  split <;> rfl

/-- An attempt is over when its outcome comes, and at no other time. -/
theorem exits_apply (c : Course α) (happening : Happening α) :
    (r.apply c happening).exits = c.exits ∨ ∃ outcome, happening = .returned outcome ∧
      (r.apply c happening).exits =
        c.exits ++ [⟨c.ambient.now, outcome, c.ambient.isDone r.ctx⟩] := by
  cases happening with
  | tick =>
      rw [apply]
      split <;> exact .inl rfl
  | cancelled tokens => exact .inl rfl
  | returned outcome =>
      rw [apply]
      split
      · exact .inr ⟨outcome, rfl, r.exits_follow _ _⟩
      · exact .inl rfl
  | wake insists =>
      obtain hsame | ⟨step, hfollow⟩ := r.apply_wake c insists
      · exact .inl (congrArg Course.exits hsame)
      · exact .inl ((congrArg Course.exits hfollow).trans (r.exits_follow c step))

/-- Nothing but a cancellation touches tokens. -/
theorem tokens_apply (c : Course α) {happening : Happening α}
    (h : ∀ tokens, happening ≠ .cancelled tokens) :
    (r.apply c happening).ambient.tokens = c.ambient.tokens := by
  cases happening with
  | tick =>
      rw [apply]
      split <;> rfl
  | cancelled tokens => exact absurd rfl (h tokens)
  | returned outcome =>
      rw [apply]
      split
      · exact congrArg Ambient.tokens (r.ambient_follow _ _)
      · rfl
  | wake insists =>
      obtain hsame | ⟨step, hfollow⟩ := r.apply_wake c insists
      · rw [hsame]
      · rw [hfollow, ambient_follow]

/-- However much happens, what has happened stays. -/
theorem kept_run (c : Course α) (happenings : List (Happening α)) :
    Kept c (r.run c happenings) := by
  induction happenings generalizing c with
  | nil => exact Kept.refl c
  | cons happening happenings ih => exact (r.kept_apply c happening).trans (ih _)

/-- The first attempt begins at once. -/
theorem first_start (a : Ambient) (happenings : List (Happening α)) :
    (r.run (r.start α a) happenings).starts[0]? = some ⟨a.now, a.isDone r.ctx⟩ := by
  obtain ⟨later, hlater⟩ := (r.kept_run (r.start α a) happenings).starts
  rw [← hlater]
  rfl

end Repetition
end PubSub
