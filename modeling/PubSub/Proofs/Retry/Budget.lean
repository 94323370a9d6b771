import PubSub.Proofs.Retry.Progress

/-!
# Budgets

A budget leaves no time for a pause that would go beyond it, so no attempt
but the first begins later than the budget allows.  If pauses are never empty,
attempts begin at least a millisecond apart, so there are only so many of them
and the operation is over in the end.  Without a budget there is always a
pause, and an operation that always fails never ends.

* `Repetition.InBudget` — when attempts begin, and which is the last;
* `Repetition.Spaced` — how far apart they begin, and how many there are;
* `Repetition.more_eventually` — ever more attempts;
* `retry_budget` — what a budget means, and what none means.
-/

namespace PubSub

/-- What is left of a pause within a budget. -/
theorem withinBudget_eq_some {budget elapsed pause delay : Nat} (hbudget : budget ≠ 0) :
    withinBudget budget elapsed pause = some delay ↔ delay = pause ∧ elapsed + pause ≤ budget := by
  unfold withinBudget
  rw [if_neg hbudget]
  split
  · rename_i hfits
    simp [hfits, eq_comm]
  · rename_i hbeyond
    simp [hbeyond]

/-- Without a budget, every pause is left as it is. -/
theorem withinBudget_zero (elapsed pause : Nat) : withinBudget 0 elapsed pause = some pause :=
  if_pos rfl

/-- Waiting from a whole millisecond on. -/
theorem wakeAt_ofMillis_add (now span : Nat) :
    wakeAt (Span.ofMillis now + span) = now + wakeAt span := by
  unfold wakeAt Span.ofMillis Span.milli
  omega

/-- What is waited for earlier comes no later. -/
theorem wakeAt_mono {instant instant' : Nat} (h : instant ≤ instant') :
    wakeAt instant ≤ wakeAt instant' :=
  Nat.div_le_div_right (Nat.add_le_add_right h _)

namespace Repetition

open Course (Start Exit)

variable {α : Type} {r : Repetition} {began : Nat} {c : Course α}

/-- A pause that follows an attempt is the one that is drawn. -/
theorem Pauses.drawn {k delay : Nat} {exit : Exit α} (h : r.Pauses began k exit delay) :
    delay = r.pace r.policy k k := by
  have hdelay := h.delay
  unfold delay? at hdelay
  by_cases hbudget : r.policy.budget = 0
  · rw [hbudget, withinBudget_zero] at hdelay
    exact (Option.some.inj hdelay).symm
  · exact ((withinBudget_eq_some hbudget).mp hdelay).1

/-- It does not go beyond the budget. -/
theorem Pauses.fits {k delay : Nat} {exit : Exit α} (h : r.Pauses began k exit delay)
    (hbudget : r.policy.budget ≠ 0) :
    Span.ofMillis (exit.time - began) + delay ≤ r.policy.budget := by
  obtain ⟨rfl, hfits⟩ := (withinBudget_eq_some hbudget).mp h.delay
  exact hfits

/-- The pause is over when the budget is, at the latest. -/
theorem Pauses.resumesAt_le {k delay : Nat} {exit : Exit α} (h : r.Pauses began k exit delay)
    (hbudget : r.policy.budget ≠ 0) :
    exit.resumesAt delay ≤ wakeAt (Span.ofMillis began + r.policy.budget) := by
  have hfits := wakeAt_mono (h.fits hbudget)
  rw [wakeAt_ofMillis_add] at hfits
  rw [Exit.resumesAt, wakeAt_ofMillis_add, wakeAt_ofMillis_add]
  omega

/-- A pause that is not empty takes up a millisecond at least. -/
theorem lt_resumesAt (exit : Exit α) {delay : Nat} (hdelay : 0 < delay) :
    exit.time < exit.resumesAt delay := by
  unfold Exit.resumesAt wakeAt Span.ofMillis Span.milli
  omega

/-- How a budget limits an operation that began at a time. -/
structure InBudget (r : Repetition) (began : Nat) (c : Course α) : Prop where
  /-- No attempt but the first begins later than the budget allows, up to the
  next whole millisecond. -/
  begins {k : Nat} {start : Start} (hstart : c.starts[k + 1]? = some start) :
    start.time ≤ wakeAt (Span.ofMillis began + r.policy.budget)
  /-- An attempt that is over when the budget is spent is the last one, and the
  operation is over with it. -/
  last {k : Nat} {exit : Exit α} (hexit : c.exits[k]? = some exit)
    (hspent : r.policy.budget < Span.ofMillis (exit.time - began)) :
    c.starts.length = k + 1 ∧ c.result = some (exit.time, exit.outcome)

/-- How attempts are spaced when pauses are not empty. -/
structure Spaced (r : Repetition) (c : Course α) : Prop where
  /-- They begin a millisecond apart, at least. -/
  apart {k : Nat} {start start' : Start} (hstart : c.starts[k]? = some start)
    (hnext : c.starts[k + 1]? = some start') : start.time + 1 ≤ start'.time
  /-- There is one for every millisecond of the budget that has begun, and one
  more, at most. -/
  few : c.starts.length ≤ wakeAt r.policy.budget + 1

theorem Sound.inBudget (h : r.Sound began c) (hbudget : r.policy.budget ≠ 0) :
    r.InBudget began c where
  begins hstart := by
    obtain ⟨exit, delay, -, hpauses, htime, -⟩ := h.preceded hstart
    rw [htime]
    exact hpauses.resumesAt_le hbudget
  last {k exit} hexit hspent := by
    have hstops (delay : Nat) : ¬ r.Pauses began k exit delay := by
      intro hpauses
      have hfits := hpauses.fits hbudget
      omega
    cases h.sequel hexit with
    | repeated next pauses => exact (hstops _ pauses).elim
    | waiting starts exits pauses => exact (hstops _ pauses).elim
    | settled starts exits stops result => exact ⟨starts, result⟩
    | abandoned starts exits pauses => exact (hstops _ pauses).elim

/-- Attempts begin a millisecond apart. -/
theorem Sound.spaced (h : r.Sound began c) (hpace : ∀ k, 0 < r.pace r.policy k k) {k : Nat}
    {start start' : Start} (hstart : c.starts[k]? = some start)
    (hnext : c.starts[k + 1]? = some start') : start.time + 1 ≤ start'.time := by
  obtain ⟨exit, delay, hexit, hpauses, htime, -⟩ := h.preceded hnext
  have hduring := h.during hstart hexit
  have hpause : 0 < delay := hpauses.drawn ▸ hpace k
  have hlater := lt_resumesAt exit hpause
  omega

/-- Attempt number `k`, counted from zero, begins `k` milliseconds after the
first one, or later. -/
theorem Sound.add_le_time (h : r.Sound began c) (hpace : ∀ k, 0 < r.pace r.policy k k)
    {first : Start} (hfirst : c.starts[0]? = some first) (k : Nat) :
    ∀ start, c.starts[k]? = some start → first.time + k ≤ start.time := by
  induction k with
  | zero =>
      intro start hstart
      cases hfirst.symm.trans hstart
      exact Nat.le_refl _
  | succ k ih =>
      intro start hstart
      obtain ⟨hk, -⟩ := List.getElem?_eq_some_iff.mp hstart
      have hbefore := List.getElem?_eq_getElem (show k < c.starts.length by omega)
      have hapart := h.spaced hpace hbefore hstart
      have hsince := ih _ hbefore
      omega

/-- There are only so many attempts within a budget. -/
theorem Sound.few (h : r.Sound began c) (hbudget : r.policy.budget ≠ 0)
    (hpace : ∀ k, 0 < r.pace r.policy k k) {first : Start} (hfirst : c.starts[0]? = some first)
    (hbegan : first.time = began) : c.starts.length ≤ wakeAt r.policy.budget + 1 := by
  refine Nat.le_of_not_lt fun hmany => ?_
  have hstart := List.getElem?_eq_getElem hmany
  have hsince := h.add_le_time hpace hfirst _ _ hstart
  have hlimit := (h.inBudget hbudget).begins hstart
  rw [wakeAt_ofMillis_add] at hlimit
  omega

/-- An operation that fails whenever an attempt ends. -/
def Failing (c : Course α) : Prop := ∀ exit ∈ c.exits, ∃ e, exit.outcome = .error e

/-- Without a budget a pause follows every attempt, if all fail and the context
does not end. -/
theorem Sound.pauses_of_unlimited (h : r.Sound began c) (hbudget : r.policy.budget = 0)
    (hfailing : Failing c) (hlive : c.endedAt = none) {k : Nat} {exit : Exit α}
    (hexit : c.exits[k]? = some exit) : r.Pauses began k exit (r.pace r.policy k k) := by
  have hmem := List.mem_of_getElem? hexit
  refine ⟨hfailing exit hmem, Bool.eq_false_iff.mpr fun hended => ?_, ?_⟩
  · obtain ⟨t, ht, -⟩ := (h.told exit hmem).since hended
    cases hlive.symm.trans ht
  · rw [delay?, hbudget, withinBudget_zero]

/-- Then the operation is never over. -/
theorem Sound.result_of_unlimited (h : r.Sound began c) (hbudget : r.policy.budget = 0)
    (hfailing : Failing c) (hlive : c.endedAt = none) : c.result = none := by
  cases h.stage with
  | trying delivery starts exits result => exact result
  | waiting delivery starts exits last failed pauses result => exact result
  | settled delivery starts exits last stops =>
      exact (stops _ (h.pauses_of_unlimited hbudget hfailing hlive last)).elim
  | abandoned delivery starts exits last pauses ended => cases hlive.symm.trans ended

/-- So there are ever more attempts, if nobody keeps the operation from going
on. -/
theorem more_eventually (r : Repetition) (a : Ambient) {σ : Nat → Happening α} (hfair : Fair σ)
    (hbudget : r.policy.budget = 0) (hfailing : ∀ n, Failing (r.after a σ n))
    (hlive : ∀ n, (r.after a σ n).endedAt = none) (k : Nat) :
    ∃ n, k < (r.after a σ n).starts.length := by
  obtain ⟨n, hended⟩ | hmore := r.eventually_over a hfair k
  · have hresult := (r.after_sound a σ n).result_of_unlimited hbudget (hfailing n) (hlive n)
    simp [hresult] at hended
  · exact hmore

/-- **What a budget means, and what none means.**  Within a budget no attempt
but the first begins late, and one that ends when it is spent is the last.  If
no pause is empty, attempts are spaced, there are only so many, and the
operation is over in the end.  Without a budget there is a pause after every
attempt of an operation that fails, and ever more attempts, until the context
ends. -/
theorem retry_budget (r : Repetition) (a : Ambient) :
    (r.policy.budget ≠ 0 →
      (∀ happenings : List (Happening α), r.InBudget a.now (r.run (r.start α a) happenings)) ∧
      ((∀ k, 0 < r.pace r.policy k k) →
        (∀ happenings : List (Happening α), r.Spaced (r.run (r.start α a) happenings)) ∧
        ∀ σ : Nat → Happening α, Fair σ → ∃ n, (r.after a σ n).result.isSome)) ∧
    (r.policy.budget = 0 →
      (∀ happenings : List (Happening α),
        let c := r.run (r.start α a) happenings
        Failing c → c.endedAt = none →
          (∀ k exit, c.exits[k]? = some exit →
            r.Pauses a.now k exit (r.pace r.policy k k)) ∧ c.result = none) ∧
      ∀ σ : Nat → Happening α, Fair σ → (∀ n, Failing (r.after a σ n)) →
        (∀ n, (r.after a σ n).endedAt = none) → ∀ k, ∃ n, k < (r.after a σ n).starts.length) := by
  have hsound (happenings : List (Happening α)) :
      r.Sound a.now (r.run (r.start α a) happenings) := run_sound (start_sound r a) happenings
  refine ⟨fun hbudget => ⟨fun happenings => (hsound happenings).inBudget hbudget,
    fun hpace => ⟨fun happenings => ?_, fun σ hfair => ?_⟩⟩,
    fun hbudget => ⟨fun happenings => ?_, fun σ hfair => r.more_eventually a hfair hbudget⟩⟩
  · exact ⟨(hsound happenings).spaced hpace,
      (hsound happenings).few hbudget hpace (r.first_start a happenings) rfl⟩
  · obtain hended | ⟨n, hmany⟩ := r.eventually_over a hfair (wakeAt r.policy.budget + 1)
    · exact hended
    · have hfew := (r.after_sound a σ n).few hbudget hpace (r.first_start a _) rfl
      omega
  · intro c hfailing hlive
    have h := hsound happenings
    exact ⟨fun k exit => h.pauses_of_unlimited hbudget hfailing hlive,
      h.result_of_unlimited hbudget hfailing hlive⟩

/-- A payment that is declined whenever it is tried, while time goes on. -/
def declined (n : Nat) : Happening Nat :=
  match n % 3 with
  | 0 => .tick
  | 1 => .returned (.error (.handler "declined"))
  | _ => .wake false

theorem declined_fair : Fair declined where
  ticks n := ⟨3 * n, by omega, by simp [declined]⟩
  returns n := ⟨3 * n + 1, .error (.handler "declined"), by omega, by simp [declined]⟩
  wakes n := ⟨3 * n + 2, false, by omega, by simp [declined]⟩

/-- The same payment with all the time in the world. -/
def patientPayment : Repetition := { payment with policy := .ofSpans 500000 500000 0 }

/-- Every attempt at it fails, and nobody calls it off. -/
theorem patientPayment_failing (n : Nat) :
    Failing (patientPayment.after ⟨5, ⟨1, []⟩⟩ declined n) ∧
      (patientPayment.after ⟨5, ⟨1, []⟩⟩ declined n).ambient.tokens = ⟨1, []⟩ := by
  induction n with
  | zero => exact ⟨List.forall_mem_nil _, rfl⟩
  | succ n ih =>
      obtain ⟨hfailing, htokens⟩ := ih
      rw [after_succ]
      constructor
      · intro exit hexit
        obtain hexits | ⟨outcome, houtcome, hexits⟩ :=
          patientPayment.exits_apply (patientPayment.after ⟨5, ⟨1, []⟩⟩ declined n) (declined n)
        · exact hfailing exit (hexits ▸ hexit)
        · rw [hexits] at hexit
          rcases List.mem_append.mp hexit with hold | hnew
          · exact hfailing exit hold
          · rw [List.mem_singleton.mp hnew]
            unfold declined at houtcome
            split at houtcome <;> cases houtcome
            exact ⟨_, rfl⟩
      · rw [tokens_apply, htokens]
        intro tokens hcancelled
        unfold declined at hcancelled
        split at hcancelled <;> cases hcancelled

/-- The one payment is given up in the end, after eleven attempts at most; the
other one is tried again after its first failure, and again and again. -/
theorem retry_budget_declined :
    (payment.policy.budget ≠ 0 ∧ (∀ k, 0 < payment.pace payment.policy k k) ∧ Fair declined ∧
      (∃ n, (payment.after ⟨5, ⟨1, []⟩⟩ declined n).result.isSome) ∧
      ∀ n, (payment.after ⟨5, ⟨1, []⟩⟩ declined n).starts.length ≤ 11) ∧
    patientPayment.policy.budget = 0 ∧
      patientPayment.Pauses 5 0 (⟨6, .error (.handler "declined"), false⟩ : Exit Nat) 500000 ∧
      ∀ k, ∃ n, k < (patientPayment.after ⟨5, ⟨1, []⟩⟩ declined n).starts.length := by
  have hbudget : payment.policy.budget ≠ 0 := by decide
  have hpace (k : Nat) : 0 < payment.pace payment.policy k k := show 0 < 500000 by decide
  obtain ⟨-, hlimits⟩ := (retry_budget payment ⟨5, ⟨1, []⟩⟩).1 hbudget
  obtain ⟨hspaced, hends⟩ := hlimits hpace
  refine ⟨⟨hbudget, hpace, declined_fair, hends declined declined_fair,
    fun n => (hspaced _).few⟩, rfl, ?_⟩
  obtain ⟨hpauses, hmore⟩ := (retry_budget patientPayment ⟨5, ⟨1, []⟩⟩).2 rfl
  have hlive (n : Nat) : (patientPayment.after ⟨5, ⟨1, []⟩⟩ declined n).endedAt = none := by
    have hnoticed := (patientPayment.after_sound ⟨5, ⟨1, []⟩⟩ declined n).noticed
    rw [Ambient.isDone, (patientPayment_failing n).2] at hnoticed
    exact Option.isNone_iff_eq_none.mp (Option.isSome_eq_false_iff.mp hnoticed)
  refine ⟨?_, hmore declined declined_fair (fun n => (patientPayment_failing n).1) hlive⟩
  -- the first failure is over after a tick
  have hfirst := hpauses [.tick, .returned (.error (.handler "declined"))]
    (patientPayment_failing 2).1 (hlive 2)
  exact hfirst.1 0 _ rfl

end Repetition
end PubSub
