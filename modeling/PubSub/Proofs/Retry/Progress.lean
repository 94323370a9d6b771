import PubSub.Proofs.Retry.Exact

/-!
# Repeating goes on

Nobody keeps a repeated operation from going on if time passes again and
again, attempts come to an end, and pauses are noticed to be over.  Then every
attempt ends, every pause ends, and after each attempt another one begins
unless the operation is over.

* `Repetition.after` — the course after a number of happenings;
* `Fair` — happenings that let the operation go on;
* `exits_eventually`, `starts_eventually` — attempts end, and more begin;
* `eventually_over` — the operation is over, or there are ever more attempts.
-/

namespace PubSub

/-- Time passes again and again, attempts end, and somebody looks whether a
pause is over. -/
structure Fair {α : Type} (σ : Nat → Happening α) : Prop where
  ticks (n : Nat) : ∃ m, n ≤ m ∧ σ m = .tick
  returns (n : Nat) : ∃ m outcome, n ≤ m ∧ σ m = .returned outcome
  wakes (n : Nat) : ∃ m insists, n ≤ m ∧ σ m = .wake insists

namespace Repetition

open Course (Start Exit)

variable {α : Type} {r : Repetition} {began : Nat} {c : Course α} {a : Ambient}
  {σ : Nat → Happening α}

/-- The course after the first `n` of unending happenings. -/
def after (r : Repetition) (a : Ambient) (σ : Nat → Happening α) (n : Nat) : Course α :=
  r.run (r.start α a) ((List.range n).map σ)

/-- One more thing happens. -/
theorem after_succ (r : Repetition) (a : Ambient) (σ : Nat → Happening α) (n : Nat) :
    r.after a σ (n + 1) = r.apply (r.after a σ n) (σ n) := by
  simp [after, run, List.range_succ]

/-- What is true at any time. -/
theorem after_sound (r : Repetition) (a : Ambient) (σ : Nat → Happening α) (n : Nat) :
    r.Sound a.now (r.after a σ n) :=
  run_sound (start_sound r a) _

/-- What has happened stays. -/
theorem after_kept (r : Repetition) (a : Ambient) (σ : Nat → Happening α) {n m : Nat}
    (h : n ≤ m) : Kept (r.after a σ n) (r.after a σ m) := by
  induction h with
  | refl => exact Kept.refl _
  | step _ ih =>
      rw [after_succ]
      exact ih.trans (r.kept_apply _ _)

/-- An attempt that is over stays as it is. -/
theorem Kept.exit {c c' : Course α} (h : Kept c c') {k : Nat} {exit : Exit α}
    (hexit : c.exits[k]? = some exit) : c'.exits[k]? = some exit := by
  obtain ⟨later, hlater⟩ := h.exits
  obtain ⟨hk, -⟩ := List.getElem?_eq_some_iff.mp hexit
  rw [← hlater, List.getElem?_append_left hk, hexit]

/-- While an attempt is made, an outcome ends it. -/
theorem Sound.ends (h : r.Sound began c) (houtnumbered : c.exits.length < c.starts.length)
    (outcome : Except Error α) :
    (r.apply c (.returned outcome)).exits.length = c.starts.length := by
  cases h.stage with
  | @trying n delivery starts exits result =>
      simp only [apply, delivery, exits_follow, List.length_append, List.length_singleton]
      omega
  | waiting delivery starts exits => omega
  | settled delivery starts exits => omega
  | abandoned delivery starts exits => omega

/-- If nothing has followed an attempt and the operation is not over, the pause
after it lasts. -/
theorem Sound.lasts (h : r.Sound began c) {k delay : Nat} {exit : Exit α}
    (hexit : c.exits[k]? = some exit) (hpauses : r.Pauses began k exit delay)
    (hstuck : ¬ (k + 1 < c.starts.length ∨ c.result.isSome)) : r.Lasts began c k exit delay := by
  obtain ⟨hnext, hresult⟩ := not_or.mp hstuck
  obtain ⟨hk, -⟩ := List.getElem?_eq_some_iff.mp hexit
  have hapart := h.apart
  exact ⟨hexit, by omega, hpauses, Option.not_isSome_iff_eq_none.mp hresult⟩

/-- When a pause is over or its context has ended, things go on as soon as that
is noticed. -/
theorem Sound.wakes (h : r.Sound began c) {k delay : Nat} {exit : Exit α}
    (hlasts : r.Lasts began c k exit delay)
    (hready : exit.resumesAt delay ≤ c.ambient.now ∨ c.ambient.isDone r.ctx = true)
    (insists : Bool) :
    k + 1 < (r.apply c (.wake insists)).starts.length ∨
      (r.apply c (.wake insists)).result.isSome := by
  by_cases hstops : c.ambient.isDone r.ctx = true ∧
      (exit.resumesAt delay ≤ c.ambient.now → insists = false)
  · right
    rw [(h.givesUp hlasts hstops.1 insists hstops.2).2]
    rfl
  · left
    have hover : exit.resumesAt delay ≤ c.ambient.now := by
      refine Decidable.byContradiction fun hnot => hstops ⟨hready.resolve_left hnot, ?_⟩
      exact fun hover => absurd hover hnot
    have hinsists (hdone : c.ambient.isDone r.ctx = true) : insists = true := by
      refine Bool.of_not_eq_false fun hnot => hstops ⟨hdone, fun _ => hnot⟩
    rw [(h.resumes hlasts hover insists hinsists).1, List.length_append, hlasts.starts]
    exact Nat.lt_succ_self _

/-- Every attempt ends. -/
theorem exits_eventually (hfair : Fair σ) {n k : Nat}
    (hstarted : k < (r.after a σ n).starts.length) : ∃ m, k < (r.after a σ m).exits.length := by
  obtain ⟨m, outcome, hm, hreturned⟩ := hfair.returns n
  have hsound := r.after_sound a σ m
  have hstill := (r.after_kept a σ hm).starts.length_le
  by_cases hexit : k < (r.after a σ m).exits.length
  · exact ⟨m, hexit⟩
  · have hends := hsound.ends (by omega) outcome
    refine ⟨m + 1, ?_⟩
    rw [after_succ, hreturned, hends]
    omega

/-- Every pause ends: its time comes, unless its context ends or things have
gone on before. -/
theorem ready_eventually (hfair : Fair σ) {k delay : Nat} {exit : Exit α} (left : Nat) :
    ∀ n, (r.after a σ n).exits[k]? = some exit → r.Pauses a.now k exit delay →
      exit.resumesAt delay ≤ (r.after a σ n).ambient.now + left →
      ∃ m, n ≤ m ∧ (exit.resumesAt delay ≤ (r.after a σ m).ambient.now ∨
        (r.after a σ m).ambient.isDone r.ctx = true ∨
        k + 1 < (r.after a σ m).starts.length ∨ (r.after a σ m).result.isSome) := by
  -- by induction on the time that is left: it shrinks with every tick that is not ignored
  induction left with
  | zero =>
      intro n _ _ hdue
      exact ⟨n, Nat.le_refl n, .inl hdue⟩
  | succ left ih =>
      intro n hexit hpauses hdue
      obtain ⟨m, hm, htick⟩ := hfair.ticks n
      have hkept := r.after_kept a σ hm
      by_cases hgone : k + 1 < (r.after a σ m).starts.length ∨ (r.after a σ m).result.isSome
      · exact ⟨m, hm, .inr (.inr hgone)⟩
      have hsound := r.after_sound a σ m
      have hlater := hsound.ticks (hsound.lasts (hkept.exit hexit) hpauses hgone)
      split at hlater
      · rename_i hready
        exact ⟨m, hm, hready.imp_right .inl⟩
      · rw [← htick, ← after_succ] at hlater
        have hnext := r.after_kept a σ (Nat.le_succ_of_le hm)
        have hnow := hkept.later.now
        obtain ⟨m', hm', hready⟩ := ih (m + 1) (hnext.exit hexit) hpauses (by omega)
        exact ⟨m', by omega, hready⟩

/-- After an attempt another one begins, or the operation is over. -/
theorem starts_eventually (hfair : Fair σ) {n k : Nat}
    (hlength : k < (r.after a σ n).exits.length) :
    ∃ m, k + 1 < (r.after a σ m).starts.length ∨ (r.after a σ m).result.isSome := by
  have hexit := List.getElem?_eq_getElem hlength
  by_cases hpauses : ∃ delay, r.Pauses a.now k (r.after a σ n).exits[k] delay
  · obtain ⟨delay, hpauses⟩ := hpauses
    obtain ⟨m, hm, hready⟩ := ready_eventually hfair _ n hexit hpauses (Nat.le_add_left _ _)
    by_cases hgone : k + 1 < (r.after a σ m).starts.length ∨ (r.after a σ m).result.isSome
    · exact ⟨m, hgone⟩
    obtain ⟨m', insists, hm', hwake⟩ := hfair.wakes m
    have hkept := r.after_kept a σ hm'
    by_cases hgone' : k + 1 < (r.after a σ m').starts.length ∨ (r.after a σ m').result.isSome
    · exact ⟨m', hgone'⟩
    have hstill : (r.after a σ n).exits[k].resumesAt delay ≤ (r.after a σ m').ambient.now ∨
        (r.after a σ m').ambient.isDone r.ctx = true := by
      obtain hdue | hdone | hgone'' := hready
      · exact .inl (Nat.le_trans hdue hkept.later.now)
      · exact .inr (hkept.later.isDone hdone)
      · exact absurd hgone'' hgone
    refine ⟨m' + 1, ?_⟩
    rw [after_succ, hwake]
    -- the pause was ready before, so it still is when somebody looks
    have hexit' := hkept.exit ((r.after_kept a σ hm).exit hexit)
    have hsound := r.after_sound a σ m'
    exact hsound.wakes (hsound.lasts hexit' hpauses hgone') hstill insists
  · have hsettled := (r.after_sound a σ n).settled hexit fun delay h => hpauses ⟨delay, h⟩
    exact ⟨n, .inr (by simp [hsettled])⟩

/-- The operation is over in the end, or there are ever more attempts. -/
theorem eventually_over (r : Repetition) (a : Ambient) (hfair : Fair σ) (k : Nat) :
    (∃ n, (r.after a σ n).result.isSome) ∨ ∃ n, k < (r.after a σ n).starts.length := by
  induction k with
  | zero => exact .inr ⟨0, Nat.one_pos⟩
  | succ k ih =>
      obtain hended | ⟨n, hstarted⟩ := ih
      · exact .inl hended
      obtain ⟨m, hexit⟩ := exits_eventually hfair hstarted
      obtain ⟨m', hnext | hresult⟩ := starts_eventually hfair hexit
      · exact .inr ⟨m', hnext⟩
      · exact .inl ⟨m', hresult⟩

end Repetition
end PubSub
