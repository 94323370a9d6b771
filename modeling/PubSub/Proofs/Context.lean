import PubSub.Context

/-!
# Contexts that depend on others

A context that is derived from another one, in one step or in many, ends
no later than that one.  What has ended stays ended: the clock does not
go back, and no token is restored.

* `Ambient.Later`, `Present.Later`, `Present.Later.isDone` — the passing of time;
* `Context.Under`, `Context.Under.isDone` — dependence;
* `Context.Fits` — a span that can be added to the clock.
-/

namespace PubSub

namespace Present

/-- Time has passed, and tokens may have been cancelled. -/
structure Later (m m' : Present) : Prop where
  instant : m.instant ≤ m'.instant
  cancelled : m.tokens.cancelled ⊆ m'.tokens.cancelled

variable {m m' m'' : Present} {ctx : Context}

/-- Has the deadline come? -/
theorem any_deadline_iff :
    ctx.deadline.any (· ≤ m.instant) = true ↔
      ∃ d, ctx.deadline = some d ∧ d ≤ m.instant := by
  simp [Option.any_eq_true]

/-- A context is done when one of its tokens is cancelled, or its deadline
has come. -/
theorem isDone_iff :
    m.isDone ctx = true ↔
      ctx.isCancelled m.tokens = true ∨ ∃ d, ctx.deadline = some d ∧ d ≤ m.instant := by
  rw [← any_deadline_iff]
  unfold isDone err
  by_cases hcancelled : ctx.isCancelled m.tokens = true
  · simp [hcancelled]
  · by_cases hoverdue : ctx.deadline.any (· ≤ m.instant) = true <;> simp [hcancelled, hoverdue]

/-- A context that is cancelled says so. -/
theorem err_cancelled_iff :
    m.err ctx = some .cancelled ↔ ctx.isCancelled m.tokens = true := by
  unfold err
  by_cases hcancelled : ctx.isCancelled m.tokens = true
  · simp [hcancelled]
  · by_cases hoverdue : ctx.deadline.any (· ≤ m.instant) = true <;> simp [hcancelled, hoverdue]

/-- A context that is not cancelled says when its deadline has come. -/
theorem err_overdue_iff :
    m.err ctx = some .deadlineExceeded ↔
      ctx.isCancelled m.tokens = false ∧ ∃ d, ctx.deadline = some d ∧ d ≤ m.instant := by
  rw [← any_deadline_iff]
  unfold err
  by_cases hcancelled : ctx.isCancelled m.tokens = true
  · simp [hcancelled]
  · by_cases hoverdue : ctx.deadline.any (· ≤ m.instant) = true <;> simp [hcancelled, hoverdue]

namespace Later

theorem refl (m : Present) : m.Later m := ⟨Nat.le_refl _, List.Subset.refl _⟩

theorem trans (h : m.Later m') (h' : m'.Later m'') : m.Later m'' :=
  ⟨Nat.le_trans h.instant h'.instant, List.Subset.trans h.cancelled h'.cancelled⟩

/-- A token that is cancelled stays so. -/
theorem isCancelled (h : m.Later m') (hcancelled : ctx.isCancelled m.tokens = true) :
    ctx.isCancelled m'.tokens = true := by
  obtain ⟨token, hmem, htoken⟩ := List.any_eq_true.mp hcancelled
  refine List.any_eq_true.mpr ⟨token, hmem, ?_⟩
  rw [List.contains_iff_mem] at htoken ⊢
  exact h.cancelled htoken

/-- What has ended stays ended. -/
theorem isDone (h : m.Later m') (hdone : m.isDone ctx = true) : m'.isDone ctx = true := by
  rcases isDone_iff.mp hdone with hcancelled | ⟨d, hd, hle⟩
  · exact isDone_iff.mpr (.inl (h.isCancelled hcancelled))
  · exact isDone_iff.mpr (.inr ⟨d, hd, Nat.le_trans hle h.instant⟩)

end Later

end Present

namespace Ambient

/-- Time has passed, and tokens may have been cancelled. -/
structure Later (a a' : Ambient) : Prop where
  now : a.now ≤ a'.now
  cancelled : a.tokens.cancelled ⊆ a'.tokens.cancelled

variable {a a' a'' : Ambient} {ctx : Context}

/-- A context is done when one of its tokens is cancelled, or its deadline
has come. -/
theorem isDone_iff :
    a.isDone ctx = true ↔ ctx.isCancelled a.tokens = true ∨ ctx.isOverdue a.now = true := by
  unfold isDone Context.isDone Context.err
  by_cases hcancelled : ctx.isCancelled a.tokens = true
  · simp [hcancelled]
  · by_cases hoverdue : ctx.isOverdue a.now = true <;> simp [hcancelled, hoverdue]

/-- A context that is done has a reason, and the other way round. -/
theorem isDone_iff_err : a.isDone ctx = true ↔ ∃ e, a.err ctx = some e :=
  Option.isSome_iff_exists

/-- The reason why a context has ended is always an ended context. -/
theorem isContextEnd_of_err {e : Error} (h : a.err ctx = some e) : e.isContextEnd = true := by
  unfold err Context.err at h
  split at h
  · cases h; rfl
  · split at h
    · cases h; rfl
    · cases h

namespace Later

theorem refl (a : Ambient) : a.Later a := ⟨Nat.le_refl _, List.Subset.refl _⟩

theorem trans (h : a.Later a') (h' : a'.Later a'') : a.Later a'' :=
  ⟨Nat.le_trans h.now h'.now, List.Subset.trans h.cancelled h'.cancelled⟩

/-- What is later to the millisecond is later to the nanosecond. -/
theorem present (h : a.Later a') : a.present.Later a'.present :=
  ⟨Nat.mul_le_mul_right _ h.now, h.cancelled⟩

/-- What has ended stays ended. -/
theorem isDone (h : a.Later a') (hdone : a.isDone ctx = true) : a'.isDone ctx = true :=
  h.present.isDone hdone

end Later

end Ambient

namespace Context

/-- A context that has all tokens of another one, and no later deadline. -/
structure Under (ctx root : Context) : Prop where
  lineage : root.lineage <:+ ctx.lineage
  deadline : ∀ d, root.deadline = some d → ∃ d', ctx.deadline = some d' ∧ d' ≤ d

variable {a : Ambient} {ctx mid root derived : Context} {t t' : Tokens}

namespace Under

theorem refl (ctx : Context) : ctx.Under ctx :=
  ⟨List.suffix_refl _, fun d hd => ⟨d, hd, Nat.le_refl d⟩⟩

theorem trans (h : ctx.Under mid) (h' : mid.Under root) : ctx.Under root := by
  refine ⟨h'.lineage.trans h.lineage, ?_⟩
  intro d hd
  obtain ⟨d', hd', hle'⟩ := h'.deadline d hd
  obtain ⟨d'', hd'', hle''⟩ := h.deadline d' hd'
  exact ⟨d'', hd'', Nat.le_trans hle'' hle'⟩

/-- A context ends when one that it depends on does. -/
theorem isDone_at {m : Present} (h : ctx.Under root) (hdone : m.isDone root = true) :
    m.isDone ctx = true := by
  rcases Present.isDone_iff.mp hdone with hcancelled | ⟨d, hd, hle⟩
  · obtain ⟨token, hmem, htoken⟩ := List.any_eq_true.mp hcancelled
    exact Present.isDone_iff.mpr
      (.inl (List.any_eq_true.mpr ⟨token, h.lineage.subset hmem, htoken⟩))
  · obtain ⟨d', hd', hle'⟩ := h.deadline d hd
    exact Present.isDone_iff.mpr (.inr ⟨d', hd', Nat.le_trans hle' hle⟩)

/-- The same, to the millisecond. -/
theorem isDone (h : ctx.Under root) (hdone : a.isDone root = true) : a.isDone ctx = true :=
  h.isDone_at (m := a.present) hdone

end Under

/-- A child depends on its parent. -/
theorem child_under (ctx : Context) (t : Tokens) : (ctx.child t).1.Under ctx :=
  ⟨List.suffix_cons _ _, fun d hd => ⟨d, hd, Nat.le_refl d⟩⟩

/-- A deadline is only brought forward. -/
theorem earlier_le {deadline : Option Nat} (other d : Nat) (hd : deadline = some d) :
    earlier deadline other ≤ d := by
  subst hd
  simp only [earlier]
  split <;> omega

/-- A child with a deadline depends on its parent. -/
theorem withDeadline_under (ctx : Context) (deadline : Nat) (t : Tokens) :
    (ctx.withDeadline deadline t).1.Under ctx :=
  ⟨List.suffix_cons _ _, fun d hd => ⟨_, rfl, earlier_le deadline d hd⟩⟩

/-- A child with a timeout is a child with a deadline. -/
theorem withTimeout_eq {now timeout : Nat}
    (h : ctx.withTimeout now timeout t = .ok (derived, t')) :
    ∃ deadline, deadlineAfter now timeout = .ok deadline ∧
      (derived, t') = ctx.withDeadline deadline t := by
  unfold withTimeout at h
  cases hd : deadlineAfter now timeout with
  | error why => rw [hd] at h; cases h
  | ok deadline =>
      rw [hd] at h
      cases h
      exact ⟨deadline, rfl, rfl⟩

/-- A child with a timeout depends on its parent. -/
theorem withTimeout_under {now timeout : Nat}
    (h : ctx.withTimeout now timeout t = .ok (derived, t')) : derived.Under ctx := by
  obtain ⟨deadline, -, hderived⟩ := withTimeout_eq h
  cases hderived
  exact withDeadline_under ctx deadline t

/-- A span can be added to a clock reading. -/
def Fits (now timeout : Nat) : Prop := ∃ deadline, deadlineAfter now timeout = .ok deadline

/-- A span can be added as long as time does not end. -/
theorem fits_iff {now timeout : Nat} :
    Fits now timeout ↔ (Span.ofMillis now + timeout) / Span.second < endOfTime := by
  unfold Fits deadlineAfter
  dsimp only
  by_cases htime : (Span.ofMillis now + timeout) / Span.second < endOfTime <;> simp [htime]

/-- What can be added later can be added before. -/
theorem Fits.of_le {now now' timeout : Nat} (h : Fits now' timeout) (hle : now ≤ now') :
    Fits now timeout := by
  rw [fits_iff] at h ⊢
  have hmono : Span.ofMillis now ≤ Span.ofMillis now' := Nat.mul_le_mul_right _ hle
  exact Nat.lt_of_le_of_lt (Nat.div_le_div_right (by omega)) h

end Context
end PubSub
