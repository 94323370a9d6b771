import PubSub.Proofs.Retry.Sound

/-!
# What repeating means

After each attempt one of four things is the case: the next attempt has begun
when the pause was over, the pause lasts, no pause followed and the operation
is over, or the context has ended during the pause and the operation is over.
From this follows all that a caller sees: when attempts begin, what comes of
them, and when.

* `Repetition.Sequel`, `Sound.sequel` — what is the case after an attempt;
* `Repetition.Lasts`, `Sound.resumes`, `Sound.givesUp` — a pause, and its two
  ends;
* `Repetition.Untied` — no pause ends together with the context;
* `Repetition.Exact` — all that repeating means;
* `retry_exact` — that it is so.
-/

namespace PubSub

namespace Repetition

open Course (Start Exit)

variable {α : Type} {r : Repetition} {began : Nat} {c : Course α}

/-- What is the case after attempt number `k`, counted from zero. -/
inductive Sequel (r : Repetition) (began : Nat) (c : Course α) (k : Nat) (exit : Exit α) : Prop
  /-- The next attempt has begun. -/
  | repeated {start : Start} {delay : Nat} (next : c.starts[k + 1]? = some start)
      (pauses : r.Pauses began k exit delay) (time : start.time = exit.resumesAt delay)
      (ended : start.ended = true → c.endedAt = some start.time)
      (live : ∀ t ∈ c.endedAt, start.time ≤ t)
  /-- The pause lasts. -/
  | waiting {delay : Nat} (starts : c.starts.length = k + 1) (exits : c.exits.length = k + 1)
      (pauses : r.Pauses began k exit delay) (result : c.result = none)
      (punctual : c.ambient.now ≤ exit.resumesAt delay)
      (attentive : ∀ t ∈ c.endedAt, t = c.ambient.now)
  /-- No pause has followed. -/
  | settled (starts : c.starts.length = k + 1) (exits : c.exits.length = k + 1)
      (stops : ∀ delay, ¬ r.Pauses began k exit delay)
      (result : c.result = some (exit.time, exit.outcome))
  /-- The context has ended during the pause. -/
  | abandoned {delay t : Nat} (starts : c.starts.length = k + 1) (exits : c.exits.length = k + 1)
      (pauses : r.Pauses began k exit delay) (ended : c.endedAt = some t) (since : exit.time ≤ t)
      (before : t ≤ exit.resumesAt delay) (result : c.result = some (t, exit.outcome))

/-- There are as many attempts that have begun as are over, or one more. -/
theorem Sound.apart (h : r.Sound began c) :
    c.exits.length ≤ c.starts.length ∧ c.starts.length ≤ c.exits.length + 1 := by
  cases h.stage with
  | trying delivery starts exits => omega
  | waiting delivery starts exits => omega
  | settled delivery starts exits => omega
  | abandoned delivery starts exits => omega

/-- **After an attempt, one of four things is the case.** -/
theorem Sound.sequel (h : r.Sound began c) {k : Nat} {exit : Exit α}
    (hexit : c.exits[k]? = some exit) : r.Sequel began c k exit := by
  obtain ⟨hk, -⟩ := List.getElem?_eq_some_iff.mp hexit
  have hlast {n : Nat} {last : Exit α} (hexits : c.exits.length = n + 1)
      (hlast : c.exits[n]? = some last) (hk : ¬ k < n) : k = n ∧ exit = last := by
    obtain rfl : k = n := by omega
    exact ⟨rfl, Option.some.inj (hexit.symm.trans hlast)⟩
  by_cases hnext : k + 1 < c.starts.length
  · obtain ⟨delay, hpauses, htime, hended, hlive⟩ :=
      h.next hexit (List.getElem?_eq_getElem hnext)
    exact .repeated (List.getElem?_eq_getElem hnext) hpauses htime hended hlive
  · cases h.stage with
    | trying delivery starts exits => omega
    | waiting delivery starts exits last failed pauses result punctual attentive =>
        obtain ⟨rfl, rfl⟩ := hlast exits last (by omega)
        exact .waiting starts exits pauses result punctual attentive
    | settled delivery starts exits last stops result =>
        obtain ⟨rfl, rfl⟩ := hlast exits last (by omega)
        exact .settled starts exits stops result
    | abandoned delivery starts exits last pauses ended since before result =>
        obtain ⟨rfl, rfl⟩ := hlast exits last (by omega)
        exact .abandoned starts exits pauses ended since before result

/-- The pause after attempt number `k` lasts. -/
structure Lasts (r : Repetition) (began : Nat) (c : Course α) (k : Nat) (exit : Exit α)
    (delay : Nat) : Prop where
  last : c.exits[k]? = some exit
  starts : c.starts.length = k + 1
  pauses : r.Pauses began k exit delay
  result : c.result = none

/-- A pause follows only one way. -/
theorem Pauses.unique {k d d' : Nat} {exit : Exit α} (h : r.Pauses began k exit d)
    (h' : r.Pauses began k exit d') : d = d' :=
  Option.some.inj (h.delay.symm.trans h'.delay)

/-- While a pause lasts, the delivery is in it.  Time has not passed its end,
nor the end of its context. -/
theorem Sound.pausing (h : r.Sound began c) {k delay : Nat} {exit : Exit α}
    (hlasts : r.Lasts began c k exit delay) :
    c.exits.getLast? = some exit ∧ c.ambient.now ≤ exit.resumesAt delay ∧
      (∀ t ∈ c.endedAt, t = c.ambient.now) ∧
      ∃ e, exit.outcome = .error e ∧ c.delivery =
        ⟨.pausing (Span.ofMillis exit.time + delay) e (r.attempts began (k + 2)) [], k + 1⟩ := by
  obtain ⟨hexit, hlength, hpauses, hresult⟩ := hlasts
  obtain ⟨hk, -⟩ := List.getElem?_eq_some_iff.mp hexit
  cases h.stage with
  | trying delivery starts exits => omega
  | @waiting n delay' last e delivery starts exits hlast failed pauses _ punctual attentive =>
      obtain rfl : k = n := by omega
      obtain rfl := Option.some.inj (hexit.symm.trans hlast)
      obtain rfl := hpauses.unique pauses
      exact ⟨getLast?_of_length exits hlast, punctual, attentive, e, failed, delivery⟩
  | settled delivery starts exits last stops result => cases hresult.symm.trans result
  | abandoned delivery starts exits last pauses ended since before result =>
      cases hresult.symm.trans result

/-- A millisecond passes in a pause if and only if it is not over and its
context has not ended. -/
theorem Sound.ticks (h : r.Sound began c) {k delay : Nat} {exit : Exit α}
    (hlasts : r.Lasts began c k exit delay) :
    (r.apply c .tick).ambient.now =
      if exit.resumesAt delay ≤ c.ambient.now ∨ c.ambient.isDone r.ctx then c.ambient.now
      else c.ambient.now + 1 := by
  obtain ⟨-, -, -, e, -, hdelivery⟩ := h.pausing hlasts
  simp only [apply, isReady_pausing (r := r) hdelivery, Bool.or_eq_true, decide_eq_true_eq]
  split <;> rfl

/-- When a pause is over, another attempt begins as soon as that is noticed,
unless it is noticed that the context has ended. -/
theorem Sound.resumes (h : r.Sound began c) {k delay : Nat} {exit : Exit α}
    (hlasts : r.Lasts began c k exit delay) (hover : exit.resumesAt delay ≤ c.ambient.now)
    (insists : Bool) (hinsists : c.ambient.isDone r.ctx = true → insists = true) :
    (r.apply c (.wake insists)).starts =
        c.starts ++ [⟨c.ambient.now, c.ambient.isDone r.ctx⟩] ∧
      (r.apply c (.wake insists)).result = none := by
  obtain ⟨-, -, -, e, -, hdelivery⟩ := h.pausing hlasts
  have hdue : decide (wakeAt (Span.ofMillis exit.time + delay) ≤ c.ambient.now) = true :=
    decide_eq_true hover
  have hgoes : (c.ambient.isDone r.ctx && !insists) = false := by
    cases hdone : c.ambient.isDone r.ctx with
    | false => rfl
    | true => simp [hinsists hdone]
  have happly : r.apply c (.wake insists) =
      r.follow c (c.delivery.resume r.pace c.ambient.now (c.ambient.isDone r.ctx)) := by
    simp only [apply, hdelivery, endPause, hdue, Bool.true_and, hgoes, Bool.false_eq_true,
      if_false, if_true]
  rw [happly, follow_resume _ hdelivery]
  exact ⟨rfl, hlasts.result⟩

/-- When its context has ended, the operation is over as soon as that is
noticed, unless it is noticed that the pause is over. -/
theorem Sound.givesUp (h : r.Sound began c) {k delay : Nat} {exit : Exit α}
    (hlasts : r.Lasts began c k exit delay) (hdone : c.ambient.isDone r.ctx = true)
    (insists : Bool) (hinsists : exit.resumesAt delay ≤ c.ambient.now → insists = false) :
    (r.apply c (.wake insists)).starts = c.starts ∧
      (r.apply c (.wake insists)).result = some (c.ambient.now, exit.outcome) := by
  obtain ⟨hlast, -, -, e, hfailed, hdelivery⟩ := h.pausing hlasts
  have hstops : (decide (wakeAt (Span.ofMillis exit.time + delay) ≤ c.ambient.now) && insists) =
      false := by
    rw [Bool.and_eq_false_iff, decide_eq_false_iff_not]
    exact (Decidable.em _).symm.imp_right hinsists
  have happly : r.apply c (.wake insists) =
      r.follow c (c.delivery.giveUp r.pace c.ambient.now) := by
    simp only [apply, hdelivery, endPause, hdone, hstops, Bool.not_false, Bool.and_true, if_true]
  rw [happly, (follow_giveUp hdelivery hlast hfailed).2]
  exact ⟨rfl, rfl⟩

/-- No pause ends on the millisecond on which the context has ended. -/
def Untied (r : Repetition) (began : Nat) (c : Course α) : Prop :=
  ∀ k exit delay, c.exits[k]? = some exit → r.Pauses began k exit delay →
    c.endedAt ≠ some (exit.resumesAt delay)

/-- It is known whether another attempt follows attempt number `k`: it has
begun, or the operation is over, or the pause should be over. -/
def Decided (r : Repetition) (began : Nat) (c : Course α) (k : Nat) (exit : Exit α) : Prop :=
  k + 1 < c.starts.length ∨ c.result.isSome ∨
    ∃ delay, r.Pauses began k exit delay ∧ exit.resumesAt delay < c.ambient.now

/-- What repeating means for an operation that begins under `a`. -/
structure Exact (r : Repetition) (a : Ambient) (c : Course α) : Prop where
  /-- The first attempt is made at once, even if the context has ended. -/
  first : c.starts[0]? = some ⟨a.now, a.isDone r.ctx⟩
  /-- It is known when the context has ended, if it has. -/
  ended : c.endedAt.isSome = c.ambient.isDone r.ctx
  /-- So it is known of every attempt whether it had ended by its end. -/
  told : ∀ exit ∈ c.exits, exit.Told c.endedAt
  /-- An attempt is over before the next one begins. -/
  apart : c.exits.length ≤ c.starts.length ∧ c.starts.length ≤ c.exits.length + 1
  /-- An attempt is not over before it begins. -/
  during {k : Nat} {start : Start} {exit : Exit α} (hstart : c.starts[k]? = some start)
    (hexit : c.exits[k]? = some exit) : start.time ≤ exit.time
  /-- Another attempt begins exactly when the one before is over and its delay
  has passed, up to the next whole millisecond. -/
  punctual {k : Nat} {start : Start} (hstart : c.starts[k + 1]? = some start) :
    ∃ exit delay, c.exits[k]? = some exit ∧ r.delay? a.now k exit = some delay ∧
      start.time = wakeAt (Span.ofMillis exit.time + delay) ∧ exit.time ≤ start.time
  /-- It begins if and only if the one before failed, the context had not ended
  by then, there was a delay, and the context did not end during the delay. -/
  follows_iff {k : Nat} {exit : Exit α} (hexit : c.exits[k]? = some exit)
    (hdecided : r.Decided a.now c k exit) :
    k + 1 < c.starts.length ↔
      (∃ e, exit.outcome = .error e) ∧ exit.ended = false ∧
        ∃ delay, r.delay? a.now k exit = some delay ∧
          ∀ t ∈ c.endedAt, wakeAt (Span.ofMillis exit.time + delay) ≤ t
  /-- No attempt but the first begins once the context has ended. -/
  live {k : Nat} {start : Start} (hstart : c.starts[k + 1]? = some start) :
    start.ended = false ∧ ∀ t ∈ c.endedAt, start.time < t
  /-- The operation comes to what its last attempt comes to, at the end of that
  attempt or when the context ends during the pause. -/
  result {t : Nat} {outcome : Except Error α} (hresult : c.result = some (t, outcome)) :
    ∃ exit, c.exits.getLast? = some exit ∧ c.starts.length = c.exits.length ∧
      outcome = exit.outcome ∧
      (t = exit.time ∨ c.endedAt = some t ∧ exit.time ≤ t ∧
        ∃ delay, r.Pauses a.now (c.exits.length - 1) exit delay ∧
          t < wakeAt (Span.ofMillis exit.time + delay))
  /-- It comes to a value if and only if the last attempt that was made does. -/
  ok_iff {v : α} : (∃ t, c.result = some (t, .ok v)) ↔
    ∃ exit, c.exits.getLast? = some exit ∧ c.starts.length = c.exits.length ∧
      exit.outcome = .ok v
  /-- It is over at once with an attempt that succeeds, that fails after the end
  of the context, or that fails when there is no delay. -/
  atOnce {k : Nat} {exit : Exit α} (hexit : c.exits[k]? = some exit)
    (hstops : (∃ v, exit.outcome = .ok v) ∨ exit.ended = true ∨ r.delay? a.now k exit = none) :
    c.result = some (exit.time, exit.outcome)
  /-- It is over as soon as the context ends during a pause. -/
  abandoned {k delay t : Nat} {exit : Exit α} (hexit : c.exits[k]? = some exit)
    (hpauses : r.Pauses a.now k exit delay) (hended : c.endedAt = some t)
    (hduring : t < wakeAt (Span.ofMillis exit.time + delay)) (hpast : t < c.ambient.now) :
    c.result = some (t, exit.outcome)
  /-- It is over if and only if its delivery is, and both have come to the same. -/
  finished {outcome : Except Error Unit} : c.delivery.progress = .finished outcome ↔
    ∃ t result, c.result = some (t, result) ∧ outcome = result.map fun _ => ()
  /-- Time passes in a pause, but not beyond its end nor that of the context. -/
  passes {k delay : Nat} {exit : Exit α} (hlasts : r.Lasts a.now c k exit delay) :
    (r.apply c .tick).ambient.now =
      if wakeAt (Span.ofMillis exit.time + delay) ≤ c.ambient.now ∨ c.ambient.isDone r.ctx
      then c.ambient.now else c.ambient.now + 1
  /-- When the pause is over, another attempt begins at that moment. -/
  goesOn {k delay : Nat} {exit : Exit α} (hlasts : r.Lasts a.now c k exit delay)
    (hover : wakeAt (Span.ofMillis exit.time + delay) ≤ c.ambient.now) (insists : Bool) :
    (r.apply c (.wake insists)).starts = c.starts ++ [⟨c.ambient.now, false⟩] ∧
      (r.apply c (.wake insists)).result = none
  /-- When the context has ended, the operation is over at that moment. -/
  givesUp {k delay : Nat} {exit : Exit α} (hlasts : r.Lasts a.now c k exit delay)
    (hdone : c.ambient.isDone r.ctx = true) (insists : Bool) :
    (r.apply c (.wake insists)).starts = c.starts ∧
      (r.apply c (.wake insists)).result = some (c.ambient.now, exit.outcome)

/-- An attempt that begins after another one is the sequel of it. -/
theorem Sound.preceded (h : r.Sound began c) {k : Nat} {start : Start}
    (hstart : c.starts[k + 1]? = some start) :
    ∃ exit delay, c.exits[k]? = some exit ∧ r.Pauses began k exit delay ∧
      start.time = exit.resumesAt delay ∧ (start.ended = true → c.endedAt = some start.time) ∧
      ∀ t ∈ c.endedAt, start.time ≤ t := by
  obtain ⟨hk, -⟩ := List.getElem?_eq_some_iff.mp hstart
  have hapart := h.apart
  have hexit := List.getElem?_eq_getElem (show k < c.exits.length by omega)
  obtain ⟨delay, hpauses, htime, hended, hlive⟩ := h.next hexit hstart
  exact ⟨_, delay, hexit, hpauses, htime, hended, hlive⟩

/-- What the operation has come to, and when. -/
theorem Sound.result_eq (h : r.Sound began c) (huntied : r.Untied began c) {t : Nat}
    {outcome : Except Error α} (hresult : c.result = some (t, outcome)) :
    ∃ exit, c.exits.getLast? = some exit ∧ c.starts.length = c.exits.length ∧
      outcome = exit.outcome ∧
      (t = exit.time ∨ c.endedAt = some t ∧ exit.time ≤ t ∧
        ∃ delay, r.Pauses began (c.exits.length - 1) exit delay ∧ t < exit.resumesAt delay) := by
  cases h.stage with
  | trying delivery starts exits result => simp [hresult] at result
  | waiting delivery starts exits last failed pauses result => simp [hresult] at result
  | @settled n exit delivery starts exits last stops result =>
      rw [hresult] at result
      cases result
      exact ⟨exit, getLast?_of_length exits last, by omega, rfl, .inl rfl⟩
  | @abandoned n delay t' exit delivery starts exits last pauses ended since before result =>
      rw [hresult] at result
      cases result
      refine ⟨exit, getLast?_of_length exits last, by omega, rfl,
        .inr ⟨ended, since, delay, ?_, ?_⟩⟩
      · rw [exits]
        exact pauses
      · refine Nat.lt_of_le_of_ne before fun htie => huntied n exit delay last pauses ?_
        rw [ended, htie]

/-- An attempt that nothing follows settles the operation. -/
theorem Sound.settled (h : r.Sound began c) {k : Nat} {exit : Exit α}
    (hexit : c.exits[k]? = some exit) (hstops : ∀ delay, ¬ r.Pauses began k exit delay) :
    c.result = some (exit.time, exit.outcome) := by
  cases h.sequel hexit with
  | repeated next pauses => exact (hstops _ pauses).elim
  | waiting starts exits pauses => exact (hstops _ pauses).elim
  | settled starts exits stops result => exact result
  | abandoned starts exits pauses => exact (hstops _ pauses).elim

/-- No pause follows an attempt that succeeded, that failed after the end of
the context, or for which there is no delay. -/
theorem not_pauses {k delay : Nat} {exit : Exit α} (hstops : (∃ v, exit.outcome = .ok v) ∨
    exit.ended = true ∨ r.delay? began k exit = none) : ¬ r.Pauses began k exit delay := by
  intro hpauses
  rcases hstops with ⟨v, hok⟩ | hended | hnone
  · obtain ⟨e, hfailed⟩ := hpauses.failed
    cases hok.symm.trans hfailed
  · cases hended.symm.trans hpauses.live
  · cases hnone.symm.trans hpauses.delay

/-- What it has come to is a value if and only if the last attempt that was made
has come to it. -/
theorem Sound.ok_iff (h : r.Sound began c) (huntied : r.Untied began c) {v : α} :
    (∃ t, c.result = some (t, .ok v)) ↔
      ∃ exit, c.exits.getLast? = some exit ∧ c.starts.length = c.exits.length ∧
        exit.outcome = .ok v := by
  constructor
  · intro hover
    obtain ⟨t, hresult⟩ := hover
    obtain ⟨exit, hlast, hlength, houtcome, -⟩ := h.result_eq huntied hresult
    exact ⟨exit, hlast, hlength, houtcome.symm⟩
  · intro hlast
    obtain ⟨exit, hexit, -, houtcome⟩ := hlast
    rw [List.getLast?_eq_getElem?] at hexit
    have hsettled := h.settled hexit fun delay => not_pauses (.inl ⟨v, houtcome⟩)
    rw [houtcome] at hsettled
    exact ⟨exit.time, hsettled⟩

/-- An attempt that begins after another one begins before the context ends. -/
theorem Sound.live (h : r.Sound began c) (huntied : r.Untied began c) {k : Nat} {start : Start}
    (hstart : c.starts[k + 1]? = some start) :
    start.ended = false ∧ ∀ t ∈ c.endedAt, start.time < t := by
  obtain ⟨exit, delay, hexit, hpauses, htime, hended, hlive⟩ := h.preceded hstart
  have hapart : c.endedAt ≠ some start.time := by
    rw [htime]
    exact huntied k exit delay hexit hpauses
  refine ⟨Bool.eq_false_iff.mpr fun hflag => hapart (hended hflag), fun t ht => ?_⟩
  refine Nat.lt_of_le_of_ne (hlive t ht) fun htie => hapart ?_
  rw [htie]
  exact ht

/-- Another attempt begins exactly if a pause followed the last one and the
context did not end in it. -/
theorem Sound.follows_iff (h : r.Sound began c) (huntied : r.Untied began c) {k : Nat}
    {exit : Exit α} (hexit : c.exits[k]? = some exit) (hdecided : r.Decided began c k exit) :
    k + 1 < c.starts.length ↔
      ∃ delay, r.Pauses began k exit delay ∧ ∀ t ∈ c.endedAt, exit.resumesAt delay ≤ t := by
  cases h.sequel hexit with
  | @repeated start delay next pauses time ended live =>
      refine iff_of_true (List.getElem?_eq_some_iff.mp next).1 ⟨delay, pauses, ?_⟩
      rw [← time]
      exact live
  | @waiting delay starts exits pauses result punctual attentive =>
      -- nothing is decided as long as the pause lasts
      exfalso
      rcases hdecided with hnext | hresult | ⟨delay', hpauses', hlate⟩
      · omega
      · simp [result] at hresult
      · rw [hpauses'.unique pauses] at hlate
        omega
  | settled starts exits stops result =>
      refine iff_of_false (by omega) ?_
      intro hfollows
      obtain ⟨delay, hpauses, -⟩ := hfollows
      exact stops delay hpauses
  | @abandoned delay t starts exits pauses ended since before result =>
      refine iff_of_false (by omega) ?_
      intro hfollows
      obtain ⟨delay', hpauses', hlive⟩ := hfollows
      -- the context would have to end on the very millisecond on which the pause does
      rw [hpauses'.unique pauses] at hlive
      refine huntied k exit delay hexit pauses ?_
      rw [ended, Nat.le_antisymm before (hlive t ended)]

/-- The operation is over when the context ends during a pause. -/
theorem Sound.abandons (h : r.Sound began c) {k delay t : Nat} {exit : Exit α}
    (hexit : c.exits[k]? = some exit) (hpauses : r.Pauses began k exit delay)
    (hended : c.endedAt = some t) (hduring : t < exit.resumesAt delay) (hpast : t < c.ambient.now) :
    c.result = some (t, exit.outcome) := by
  cases h.sequel hexit with
  | repeated next pauses time ended live =>
      have hlate := live t hended
      rw [time, pauses.unique hpauses] at hlate
      omega
  | waiting starts exits pauses result punctual attentive =>
      have hnow := attentive t hended
      omega
  | settled starts exits stops => exact (stops delay hpauses).elim
  | abandoned starts exits pauses ended since before result =>
      cases hended.symm.trans ended
      exact result

/-- The operation is over with its delivery. -/
theorem Sound.finished (h : r.Sound began c) {outcome : Except Error Unit} :
    c.delivery.progress = .finished outcome ↔
      ∃ t result, c.result = some (t, result) ∧ outcome = result.map fun _ => () := by
  have hover {t : Nat} {result : Except Error α}
      (hdelivery : c.delivery.progress = .finished (result.map fun _ => ()))
      (hresult : c.result = some (t, result)) : c.delivery.progress = .finished outcome ↔
        ∃ t result, c.result = some (t, result) ∧ outcome = result.map fun _ => () := by
    constructor
    · intro hfinished
      exact ⟨t, result, hresult, Progress.finished.inj (hfinished.symm.trans hdelivery)⟩
    · intro hover
      obtain ⟨t', result', hresult', rfl⟩ := hover
      cases hresult.symm.trans hresult'
      exact hdelivery
  cases h.stage with
  | trying delivery starts exits result => simp [delivery, result]
  | waiting delivery starts exits last failed pauses result => simp [delivery, result]
  | settled delivery starts exits last stops result => exact hover delivery result
  | abandoned delivery starts exits last pauses ended since before result =>
      exact hover delivery result

/-- A pause that is over is not one whose context has ended. -/
theorem Sound.apart_ends (h : r.Sound began c) (huntied : r.Untied began c) {k delay : Nat}
    {exit : Exit α} (hlasts : r.Lasts began c k exit delay)
    (hdone : c.ambient.isDone r.ctx = true) : c.ambient.now < exit.resumesAt delay := by
  obtain ⟨-, hpunctual, hattentive, -⟩ := h.pausing hlasts
  obtain ⟨t, ht⟩ := Option.isSome_iff_exists.mp (h.noticed.trans hdone)
  refine Nat.lt_of_le_of_ne hpunctual fun htie => ?_
  refine huntied k exit delay hlasts.last hlasts.pauses ?_
  rw [ht, hattentive t ht, htie]

/-- **What repeating means.**  Whatever the policy and its delays, the context,
and what happens meanwhile, as long as no pause ends together with the context. -/
theorem retry_exact (r : Repetition) (a : Ambient) (happenings : List (Happening α))
    (huntied : r.Untied a.now (r.run (r.start α a) happenings)) :
    r.Exact a (r.run (r.start α a) happenings) := by
  have h : r.Sound a.now (r.run (r.start α a) happenings) :=
    run_sound (start_sound r a) happenings
  refine ⟨r.first_start a happenings, h.noticed, h.told, h.apart, h.during, ?_, ?_,
    h.live huntied, h.result_eq huntied, h.ok_iff huntied, ?_, h.abandons, h.finished, h.ticks,
    ?_, ?_⟩
  · intro k start hstart
    obtain ⟨exit, delay, hexit, hpauses, htime, -⟩ := h.preceded hstart
    refine ⟨exit, delay, hexit, hpauses.delay, htime, ?_⟩
    rw [htime]
    exact exit.le_resumesAt delay
  · intro k exit hexit hdecided
    rw [h.follows_iff huntied hexit hdecided]
    constructor
    · intro hfollows
      obtain ⟨delay, hpauses, hlive⟩ := hfollows
      exact ⟨hpauses.failed, hpauses.live, delay, hpauses.delay, hlive⟩
    · intro hfollows
      obtain ⟨hfailed, hlive, delay, hdelay, hended⟩ := hfollows
      exact ⟨delay, ⟨hfailed, hlive, hdelay⟩, hended⟩
  · intro k exit hexit hstops
    exact h.settled hexit fun delay => not_pauses hstops
  · intro k delay exit hlasts hover insists
    have hlive : (r.run (r.start α a) happenings).ambient.isDone r.ctx = false :=
      Bool.eq_false_iff.mpr fun hdone =>
        Nat.not_le_of_lt (h.apart_ends huntied hlasts hdone) hover
    have hresumes := h.resumes hlasts hover insists (by simp [hlive])
    rwa [hlive] at hresumes
  · intro k delay exit hlasts hdone insists
    have hapart := h.apart_ends huntied hlasts hdone
    exact h.givesUp hlasts hdone insists fun hover => absurd hover (Nat.not_le_of_lt hapart)

/-- A payment that is tried again half a millisecond later, for ten milliseconds
at most. -/
def payment : Repetition where
  policy := .ofSpans 500000 500000 10000000
  pace := fun _ _ _ => 500000
  ctx := ⟨[0], none, none, none⟩
  message := .compose ⟨"p1", "shop", "payments", 1, [], none, none, none, none⟩
    ⟨⟨1970, 1, 1⟩, 0, 0, 0, 0⟩

/-- It fails after a millisecond.  The second attempt succeeds after another
one, just when it is called off. -/
def lateSuccess : List (Happening Nat) :=
  [.tick, .returned (.error (.handler "declined")), .tick, .wake false, .tick, .cancelled [0],
    .returned (.ok 42)]

/-- The success is not discarded. -/
theorem retry_exact_late :
    payment.Exact ⟨5, ⟨1, []⟩⟩ (payment.run (payment.start Nat ⟨5, ⟨1, []⟩⟩) lateSuccess) ∧
      (payment.run (payment.start Nat ⟨5, ⟨1, []⟩⟩) lateSuccess).result = some (8, .ok 42) := by
  have hexits : (payment.run (payment.start Nat ⟨5, ⟨1, []⟩⟩) lateSuccess).exits =
      [⟨6, .error (.handler "declined"), false⟩, ⟨8, .ok 42, true⟩] := rfl
  have hended : (payment.run (payment.start Nat ⟨5, ⟨1, []⟩⟩) lateSuccess).endedAt = some 8 := rfl
  have huntied : payment.Untied 5
      (payment.run (payment.start Nat ⟨5, ⟨1, []⟩⟩) lateSuccess) := by
    intro k exit delay hexit hpauses
    rw [hexits] at hexit
    rw [hended]
    match k with
    | 0 =>
        cases hexit
        cases hpauses.delay
        decide
    | 1 =>
        cases hexit
        cases hpauses.live
  exact ⟨retry_exact payment ⟨5, ⟨1, []⟩⟩ lateSuccess huntied, rfl⟩

end Repetition
end PubSub
