import PubSub.Proofs.Retry.Course

/-!
# Where a repeated operation stands

At any time an attempt is being made, or a pause lasts, or the operation is
over, because no pause followed or because the context has ended during one.
Every attempt but the first has begun when the pause before it was over.

* `Repetition.Pauses` — whether a pause follows an attempt, and how long;
* `Repetition.Stage`, `Repetition.Sound` — what is true at any time;
* `start_sound`, `apply_sound`, `run_sound` — why it is.
-/

namespace PubSub
namespace Repetition

open Course (Start Exit)

variable {α : Type} (r : Repetition)

/-- What backing off yields after attempt number `k`, counted from zero. -/
def delay? (began k : Nat) (exit : Exit α) : Option Nat :=
  withinBudget r.policy.budget (Span.ofMillis (exit.time - began)) (r.pace r.policy k k)

/-- A pause follows attempt number `k`: it failed, the context had not ended,
and there is a delay. -/
structure Pauses (began k : Nat) (exit : Exit α) (delay : Nat) : Prop where
  failed : ∃ e, exit.outcome = .error e
  live : exit.ended = false
  delay : r.delay? began k exit = some delay

/-- The attempt that is to be made, or is being made, as number `n`, counted
from one. -/
def attempts (began n : Nat) : Attempts := ⟨r.policy, n, began, [], r.arrival⟩

/-- Where a repeated operation stands that began at a time. -/
inductive Stage (began : Nat) (c : Course α) : Prop
  /-- An attempt has begun and is not over. -/
  | trying {n : Nat}
      (delivery : c.delivery =
        ⟨.handling r.arrival [.retry (r.attempts began (n + 1))], n⟩)
      (starts : c.starts.length = n + 1) (exits : c.exits.length = n) (result : c.result = none)
  /-- The last attempt has failed, and a pause has begun.  Time does not pass
  its end, nor the end of the context. -/
  | waiting {n delay : Nat} {exit : Exit α} {e : Error}
      (delivery : c.delivery = ⟨.pausing (Span.ofMillis exit.time + delay) e
        (r.attempts began (n + 2)) [], n + 1⟩)
      (starts : c.starts.length = n + 1) (exits : c.exits.length = n + 1)
      (last : c.exits[n]? = some exit) (failed : exit.outcome = .error e)
      (pauses : r.Pauses began n exit delay) (result : c.result = none)
      (punctual : c.ambient.now ≤ exit.resumesAt delay)
      (attentive : ∀ t ∈ c.endedAt, t = c.ambient.now)
  /-- No pause has followed the last attempt. -/
  | settled {n : Nat} {exit : Exit α}
      (delivery : c.delivery.progress = .finished (exit.outcome.map fun _ => ()))
      (starts : c.starts.length = n + 1) (exits : c.exits.length = n + 1)
      (last : c.exits[n]? = some exit) (stops : ∀ delay, ¬ r.Pauses began n exit delay)
      (result : c.result = some (exit.time, exit.outcome))
  /-- The context has ended during the last pause. -/
  | abandoned {n delay t : Nat} {exit : Exit α}
      (delivery : c.delivery.progress = .finished (exit.outcome.map fun _ => ()))
      (starts : c.starts.length = n + 1) (exits : c.exits.length = n + 1)
      (last : c.exits[n]? = some exit) (pauses : r.Pauses began n exit delay)
      (ended : c.endedAt = some t) (since : exit.time ≤ t) (before : t ≤ exit.resumesAt delay)
      (result : c.result = some (t, exit.outcome))

/-- What is true of a repeated operation at any time. -/
structure Sound (began : Nat) (c : Course α) : Prop where
  during {k : Nat} {start : Start} {exit : Exit α} (hstart : c.starts[k]? = some start)
    (hexit : c.exits[k]? = some exit) : start.time ≤ exit.time
  next {k : Nat} {exit : Exit α} {start : Start} (hexit : c.exits[k]? = some exit)
    (hstart : c.starts[k + 1]? = some start) :
    ∃ delay, r.Pauses began k exit delay ∧ start.time = exit.resumesAt delay ∧
      (start.ended = true → c.endedAt = some start.time) ∧ ∀ t ∈ c.endedAt, start.time ≤ t
  begun : ∀ start ∈ c.starts, start.time ≤ c.ambient.now
  past : ∀ exit ∈ c.exits, exit.time ≤ c.ambient.now
  told : ∀ exit ∈ c.exits, exit.Told c.endedAt
  noticed : c.endedAt.isSome = c.ambient.isDone r.ctx
  noticedBy : ∀ t ∈ c.endedAt, t ≤ c.ambient.now
  stage : r.Stage began c

variable {r} {began : Nat} {c : Course α}

/-- The pause that a failed attempt calls for is what backing off yields, unless
the context has ended. -/
theorem nextPause_eq (n : Nat) (exit : Exit α) :
    Delivery.nextPause r.pace exit.time exit.ended (r.attempts began (n + 1)) n =
      if exit.ended then none else r.delay? began n exit := by
  simp only [Delivery.nextPause, attempts, delay?, Nat.add_sub_cancel]

/-- After an attempt that no pause follows, the operation is over with its
outcome. -/
theorem returned_settled {n : Nat} {exit : Exit α} (hdelivery : c.delivery =
      ⟨.handling r.arrival [.retry (r.attempts began (n + 1))], n⟩)
    (hstops : ∀ delay, ¬ r.Pauses began n exit delay) :
    (c.delivery.returned r.pace exit.time exit.ended (exit.outcome.map fun _ => ())).1.progress =
      .finished (exit.outcome.map fun _ => ()) := by
  rw [hdelivery]
  cases houtcome : exit.outcome with
  | ok v => rfl
  | error e =>
      have hnone : Delivery.nextPause r.pace exit.time exit.ended
          (r.attempts began (n + 1)) n = none := by
        rw [nextPause_eq]
        split
        · rfl
        · rename_i hlive
          cases hdelay : r.delay? began n exit with
          | none => rfl
          | some delay =>
              exact (hstops delay ⟨⟨e, houtcome⟩, Bool.eq_false_iff.mpr hlive, hdelay⟩).elim
      simp only [Delivery.returned, Delivery.leave, Except.map, hnone]
      split <;> rfl

/-- After an attempt that a pause follows, the delivery pauses. -/
theorem returned_paused {n delay : Nat} {exit : Exit α} {e : Error} (hdelivery : c.delivery =
      ⟨.handling r.arrival [.retry (r.attempts began (n + 1))], n⟩)
    (hfailed : exit.outcome = .error e) (hpauses : r.Pauses began n exit delay) :
    (c.delivery.returned r.pace exit.time exit.ended (exit.outcome.map fun _ => ())).1 =
      ⟨.pausing (Span.ofMillis exit.time + delay) e (r.attempts began (n + 2)) [], n + 1⟩ := by
  have hsome : Delivery.nextPause r.pace exit.time exit.ended
      (r.attempts began (n + 1)) n = some delay := by
    rw [nextPause_eq, hpauses.live, hpauses.delay]
    rfl
  rw [hdelivery, hfailed]
  simp only [Delivery.returned, Delivery.leave, Except.map, hsome]
  rfl

/-- A delivery that is over with the outcome of the last attempt leaves the
operation with that outcome. -/
theorem upshot?_last {exits : List (Exit α)} {exit : Exit α} (hlast : exits.getLast? = some exit) :
    Course.upshot? exits (exit.outcome.map fun _ => ()) = some exit.outcome := by
  cases houtcome : exit.outcome with
  | error e => rfl
  | ok v => simp [Course.upshot?, Except.map, hlast, houtcome, Except.toOption]

/-- A pause is ready for its end when it is over or its context has ended. -/
theorem isReady_pausing {exit : Exit α} {delay drawn : Nat} {e : Error} {attempts : Attempts}
    {frames : List Frame} (hdelivery : c.delivery =
      ⟨.pausing (Span.ofMillis exit.time + delay) e attempts frames, drawn⟩) :
    r.isReady c =
      (decide (exit.resumesAt delay ≤ c.ambient.now) || c.ambient.isDone r.ctx) := by
  unfold isReady
  rw [hdelivery]
  rfl

/-- Giving up, the operation comes to what its last attempt has come to. -/
theorem follow_giveUp {n until_ : Nat} {exit : Exit α} {e : Error} (hdelivery : c.delivery =
      ⟨.pausing until_ e (r.attempts began (n + 2)) [], n + 1⟩)
    (hlast : c.exits.getLast? = some exit) (hfailed : exit.outcome = .error e) :
    (c.delivery.giveUp r.pace c.ambient.now).1.progress =
        .finished (exit.outcome.map fun _ => ()) ∧
      r.follow c (c.delivery.giveUp r.pace c.ambient.now) =
        { c with
          delivery := (c.delivery.giveUp r.pace c.ambient.now).1
          result := some (c.ambient.now, exit.outcome) } := by
  have hfinished : (c.delivery.giveUp r.pace c.ambient.now).1.progress =
      .finished (exit.outcome.map fun _ => ()) := by
    rw [hdelivery, hfailed]
    rfl
  refine ⟨hfinished, ?_⟩
  simp only [follow, hfinished, upshot?_last hlast, Option.map_some]

/-- Going on, another attempt begins. -/
theorem follow_resume {n until_ : Nat} {e : Error} (ended : Bool) (hdelivery : c.delivery =
      ⟨.pausing until_ e (r.attempts began (n + 2)) [], n + 1⟩) :
    r.follow c (c.delivery.resume r.pace c.ambient.now ended) =
      { c with
        delivery := ⟨.handling r.arrival [.retry (r.attempts began (n + 2))], n + 1⟩
        starts := c.starts ++ [⟨c.ambient.now, c.ambient.isDone r.ctx⟩] } := by
  have hresumed : (c.delivery.resume r.pace c.ambient.now ended).1 =
      ⟨.handling r.arrival [.retry (r.attempts began (n + 2))], n + 1⟩ := by
    rw [hdelivery]
    rfl
  simp only [follow, hresumed]

/-- The operation begins with an attempt, whatever its context. -/
theorem start_sound (r : Repetition) (a : Ambient) : r.Sound a.now (r.start α a) where
  during _ hexit := by cases hexit
  next hexit := by cases hexit
  begun start hstart := by
    obtain rfl : start = ⟨a.now, a.isDone r.ctx⟩ := List.mem_singleton.mp hstart
    exact Nat.le_refl _
  past exit hexit := by cases hexit
  told exit hexit := by cases hexit
  noticed := by
    change (if a.isDone r.ctx then some a.now else none).isSome = a.isDone r.ctx
    cases a.isDone r.ctx <;> rfl
  noticedBy t ht := by
    change t ∈ (if a.isDone r.ctx then some a.now else none) at ht
    split at ht
    · cases ht
      exact Nat.le_refl _
    · cases ht
  stage := .trying (n := 0) rfl rfl rfl rfl

/-- When the context was found to have ended, it stays so. -/
theorem endedAt_surround {a : Ambient} {t : Nat} (h : c.endedAt = some t) :
    (r.surround c a).endedAt = some t := by
  simp [surround, h]

/-- The context was found to have ended before, or it is now. -/
theorem of_endedAt_surround {a : Ambient} {t : Nat} (h : t ∈ (r.surround c a).endedAt) :
    t ∈ c.endedAt ∨ c.endedAt = none ∧ t = a.now := by
  cases hbefore : c.endedAt with
  | some t' =>
      rw [endedAt_surround hbefore] at h
      exact .inl h
  | none =>
      simp only [surround, hbefore, Option.none_or] at h
      split at h
      · cases h
        exact .inr ⟨rfl, rfl⟩
      · cases h

/-- Where the operation stands when the surroundings change. -/
theorem Stage.surround (hstage : r.Stage began c) (h : r.Sound began c) {a : Ambient}
    (htime : a.now = c.ambient.now ∨ a.now = c.ambient.now + 1 ∧ r.isReady c = false) :
    r.Stage began (r.surround c a) := by
  cases hstage with
  | trying delivery starts exits result => exact .trying delivery starts exits result
  | @waiting n delay exit e delivery starts exits last failed pauses result punctual attentive =>
      -- a tick is ignored when the pause is ready, so time passes neither its end nor the context's
      have hready := isReady_pausing (r := r) delivery
      refine .waiting delivery starts exits last failed pauses result ?_ ?_
      · change a.now ≤ _
        rcases htime with hsame | ⟨htick, hnot⟩
        · omega
        · rw [hready, Bool.or_eq_false_iff, decide_eq_false_iff_not] at hnot
          omega
      · intro t ht
        change t = a.now
        rcases of_endedAt_surround ht with hbefore | ⟨-, hnow⟩
        · rcases htime with hsame | ⟨-, hnot⟩
          · rw [hsame]
            exact attentive t hbefore
          · rw [hready, Bool.or_eq_false_iff, ← h.noticed] at hnot
            rw [Option.mem_def.mp hbefore] at hnot
            cases hnot.2
        · exact hnow
  | settled delivery starts exits last stops result =>
      exact .settled delivery starts exits last stops result
  | abandoned delivery starts exits last pauses ended since before result =>
      exact .abandoned delivery starts exits last pauses (endedAt_surround ended) since before
        result

/-- The surroundings change. -/
theorem Sound.surround (h : r.Sound began c) {a : Ambient} (hlater : c.ambient.Later a)
    (htime : a.now = c.ambient.now ∨ a.now = c.ambient.now + 1 ∧ r.isReady c = false) :
    r.Sound began (r.surround c a) where
  during := h.during
  next {k exit start} hexit hstart := by
    obtain ⟨delay, hpauses, htime, hended, hbefore⟩ := h.next hexit hstart
    refine ⟨delay, hpauses, htime, fun hflag => endedAt_surround (hended hflag), ?_⟩
    intro t ht
    rcases of_endedAt_surround ht with hold | ⟨-, rfl⟩
    · exact hbefore t hold
    · exact Nat.le_trans (h.begun start (List.mem_of_getElem? hstart)) hlater.now
  begun start hstart := Nat.le_trans (h.begun start hstart) hlater.now
  past exit hexit := Nat.le_trans (h.past exit hexit) hlater.now
  told exit hexit := by
    refine ⟨fun hended => ?_, fun hlive t ht => ?_⟩
    · obtain ⟨t, ht, hsince⟩ := (h.told exit hexit).since hended
      exact ⟨t, endedAt_surround ht, hsince⟩
    · rcases of_endedAt_surround ht with hold | ⟨-, rfl⟩
      · exact (h.told exit hexit).until_ hlive t hold
      · exact Nat.le_trans (h.past exit hexit) hlater.now
  noticed := by
    change (c.endedAt.or (if a.isDone r.ctx then some a.now else none)).isSome = a.isDone r.ctx
    have hnoticed := h.noticed
    cases hbefore : c.endedAt with
    | some t =>
        rw [hbefore] at hnoticed
        exact (hlater.isDone hnoticed.symm).symm
    | none => cases a.isDone r.ctx <;> rfl
  noticedBy t ht := by
    rcases of_endedAt_surround ht with hold | ⟨-, rfl⟩
    · exact Nat.le_trans (h.noticedBy t hold) hlater.now
    · exact Nat.le_refl _
  stage := h.stage.surround h htime

/-- One more attempt is over. -/
theorem Sound.exit (h : r.Sound began c) {o : Exit α} {n : Nat} {d : Delivery}
    {result : Option (Nat × Except Error α)} (hlength : c.starts.length = n + 1)
    (hlength' : c.exits.length = n) (htime : o.time = c.ambient.now)
    (hended : o.ended = c.ambient.isDone r.ctx)
    (hstage : r.Stage began { c with exits := c.exits ++ [o], delivery := d, result }) :
    r.Sound began { c with exits := c.exits ++ [o], delivery := d, result } where
  during {k start exit} hstart hexit := by
    rw [List.getElem?_append] at hexit
    split at hexit
    · exact h.during hstart hexit
    · obtain rfl := List.mem_singleton.mp (List.mem_of_getElem? hexit)
      rw [htime]
      exact h.begun start (List.mem_of_getElem? hstart)
  next {k exit start} hexit hstart := by
    obtain ⟨hk, -⟩ := List.getElem?_eq_some_iff.mp hstart
    dsimp only at hk
    rw [List.getElem?_append_left (by omega)] at hexit
    exact h.next hexit hstart
  begun := h.begun
  past exit hexit := by
    rcases List.mem_append.mp hexit with hold | hnew
    · exact h.past exit hold
    · obtain rfl := List.mem_singleton.mp hnew
      exact Nat.le_of_eq htime
  told exit hexit := by
    rcases List.mem_append.mp hexit with hold | hnew
    · exact h.told exit hold
    · obtain rfl := List.mem_singleton.mp hnew
      have hnoticed := h.noticed.trans hended.symm
      refine ⟨fun hdone => ?_, fun hlive t ht => ?_⟩
      · obtain ⟨t, ht⟩ := Option.isSome_iff_exists.mp (hnoticed.trans hdone)
        exact ⟨t, ht, htime ▸ h.noticedBy t ht⟩
      · rw [Option.mem_def.mp ht, hlive] at hnoticed
        cases hnoticed
  noticed := h.noticed
  noticedBy := h.noticedBy
  stage := hstage

/-- An attempt comes to its end. -/
theorem Sound.returned (h : r.Sound began c) {n : Nat} (hdelivery : c.delivery =
      ⟨.handling r.arrival [.retry (r.attempts began (n + 1))], n⟩)
    (hstarts : c.starts.length = n + 1) (hexits : c.exits.length = n) (hresult : c.result = none)
    (outcome : Except Error α) : r.Sound began (r.apply c (.returned outcome)) := by
  let o : Exit α := ⟨c.ambient.now, outcome, c.ambient.isDone r.ctx⟩
  have happly : r.apply c (.returned outcome) = r.follow { c with exits := c.exits ++ [o] }
      (c.delivery.returned r.pace o.time o.ended (o.outcome.map fun _ => ())) := by
    simp only [apply, hdelivery, o]
  have hlast : (c.exits ++ [o])[n]? = some o := by
    rw [← hexits, List.getElem?_concat_length]
  have hlength : (c.exits ++ [o]).length = n + 1 := by simp [hexits]
  rw [happly]
  by_cases hpauses : ∃ delay, r.Pauses began n o delay
  · obtain ⟨delay, hpauses⟩ := hpauses
    obtain ⟨e, hfailed⟩ := hpauses.failed
    have hpaused := returned_paused hdelivery hfailed hpauses
    have hfollow : r.follow { c with exits := c.exits ++ [o] }
        (c.delivery.returned r.pace o.time o.ended (o.outcome.map fun _ => ())) =
        { c with
          exits := c.exits ++ [o]
          delivery := ⟨.pausing (Span.ofMillis o.time + delay) e (r.attempts began (n + 2)) [],
            n + 1⟩ } := by
      simp only [follow, hpaused]
    rw [hfollow]
    refine h.exit hstarts hexits rfl rfl
      (.waiting rfl hstarts hlength hlast hfailed hpauses hresult (o.le_resumesAt delay) ?_)
    · intro t ht
      have hdone := h.noticed
      rw [Option.mem_def.mp ht] at hdone
      have hlive := hpauses.live
      rw [show o.ended = c.ambient.isDone r.ctx from rfl, ← hdone] at hlive
      cases hlive
  · have hstops : ∀ delay, ¬ r.Pauses began n o delay := fun delay h => hpauses ⟨delay, h⟩
    have hsettled := returned_settled hdelivery hstops
    have hfollow : r.follow { c with exits := c.exits ++ [o] }
        (c.delivery.returned r.pace o.time o.ended (o.outcome.map fun _ => ())) =
        { c with
          exits := c.exits ++ [o]
          delivery := (c.delivery.returned r.pace o.time o.ended (o.outcome.map fun _ => ())).1
          result := some (o.time, o.outcome) } := by
      simp only [follow, hsettled, upshot?_last (List.getLast?_concat), Option.map_some]
      rfl
    rw [hfollow]
    exact h.exit hstarts hexits rfl rfl (.settled hsettled hstarts hlength hlast hstops rfl)

/-- One more attempt begins, when its pause is over. -/
theorem Sound.start (h : r.Sound began c) {o : Exit α} {n delay : Nat} {d : Delivery}
    (hlength : c.starts.length = n + 1) (hlength' : c.exits.length = n + 1)
    (hlast : c.exits[n]? = some o) (hpauses : r.Pauses began n o delay)
    (htime : c.ambient.now = o.resumesAt delay) (hattentive : ∀ t ∈ c.endedAt, t = c.ambient.now)
    (hstage : r.Stage began { c with
      starts := c.starts ++ [⟨c.ambient.now, c.ambient.isDone r.ctx⟩], delivery := d }) :
    r.Sound began { c with
      starts := c.starts ++ [⟨c.ambient.now, c.ambient.isDone r.ctx⟩], delivery := d } where
  during {k start exit} hstart hexit := by
    obtain ⟨hk, -⟩ := List.getElem?_eq_some_iff.mp hexit
    dsimp only at hk
    rw [List.getElem?_append_left (by omega)] at hstart
    exact h.during hstart hexit
  next {k exit start} hexit hstart := by
    rw [List.getElem?_append] at hstart
    split at hstart
    · exact h.next hexit hstart
    · obtain ⟨hk, -⟩ := List.getElem?_eq_some_iff.mp hexit
      dsimp only at hk
      obtain rfl : k = n := by omega
      obtain rfl := Option.some.inj (hlast.symm.trans hexit)
      obtain rfl := List.mem_singleton.mp (List.mem_of_getElem? hstart)
      refine ⟨delay, hpauses, htime, fun hended => ?_, fun t ht => ?_⟩
      · obtain ⟨t, ht⟩ := Option.isSome_iff_exists.mp (h.noticed.trans hended)
        rw [ht, hattentive t ht]
      · exact Nat.le_of_eq (hattentive t ht).symm
  begun start hstart := by
    rcases List.mem_append.mp hstart with hold | hnew
    · exact h.begun start hold
    · obtain rfl := List.mem_singleton.mp hnew
      exact Nat.le_refl _
  past := h.past
  told := h.told
  noticed := h.noticed
  noticedBy := h.noticedBy
  stage := hstage

/-- The last attempt that is over. -/
theorem getLast?_of_length {n : Nat} {exit : Exit α} (hexits : c.exits.length = n + 1)
    (hlast : c.exits[n]? = some exit) : c.exits.getLast? = some exit := by
  rw [List.getLast?_eq_getElem?, hexits]
  exact hlast

/-- A pause comes to its end. -/
theorem Sound.wake (h : r.Sound began c) (insists : Bool) {n delay : Nat} {o : Exit α} {e : Error}
    (hdelivery : c.delivery = ⟨.pausing (Span.ofMillis o.time + delay) e
      (r.attempts began (n + 2)) [], n + 1⟩)
    (hstarts : c.starts.length = n + 1) (hexits : c.exits.length = n + 1)
    (hlast : c.exits[n]? = some o) (hfailed : o.outcome = .error e)
    (hpauses : r.Pauses began n o delay) (hresult : c.result = none)
    (hpunctual : c.ambient.now ≤ o.resumesAt delay)
    (hattentive : ∀ t ∈ c.endedAt, t = c.ambient.now) :
    r.Sound began (r.apply c (.wake insists)) := by
  have happly : r.apply c (.wake insists) =
      r.endPause c (Span.ofMillis o.time + delay) insists := by
    simp only [apply, hdelivery]
  rw [happly]
  unfold endPause
  dsimp only
  split
  · rename_i hended
    simp only [Bool.and_eq_true] at hended
    obtain ⟨t, ht⟩ := Option.isSome_iff_exists.mp (h.noticed.trans hended.1)
    obtain rfl := hattentive t ht
    obtain ⟨hfinished, hfollow⟩ :=
      follow_giveUp hdelivery (getLast?_of_length hexits hlast) hfailed
    rw [hfollow]
    have hsince : o.time ≤ c.ambient.now := h.past o (List.mem_of_getElem? hlast)
    exact { h with
      stage := .abandoned hfinished hstarts hexits hlast hpauses ht hsince hpunctual rfl }
  split
  · rename_i hdue
    have htime : c.ambient.now = o.resumesAt delay :=
      Nat.le_antisymm hpunctual (of_decide_eq_true hdue)
    rw [follow_resume _ hdelivery]
    exact h.start hstarts hexits hlast hpauses htime hattentive
      (.trying (n := n + 1) rfl (by simp [hstarts]) hexits hresult)
  · exact h

/-- **Every step keeps it.** -/
theorem apply_sound (h : r.Sound began c) (happening : Happening α) :
    r.Sound began (r.apply c happening) := by
  cases happening with
  | tick =>
      rw [apply]
      split
      · exact h
      · rename_i hnot
        exact h.surround ⟨Nat.le_succ _, List.Subset.refl _⟩
          (.inr ⟨rfl, Bool.eq_false_iff.mpr hnot⟩)
  | cancelled tokens =>
      exact h.surround ⟨Nat.le_refl _, List.subset_append_right _ _⟩ (.inl rfl)
  | returned outcome =>
      cases h.stage with
      | trying delivery starts exits result => exact h.returned delivery starts exits result outcome
      | waiting delivery => simpa only [apply, delivery] using h
      | settled delivery => simpa only [apply, delivery] using h
      | abandoned delivery => simpa only [apply, delivery] using h
  | wake insists =>
      cases h.stage with
      | trying delivery => simpa only [apply, delivery] using h
      | waiting delivery starts exits last failed pauses result punctual attentive =>
          exact h.wake insists delivery starts exits last failed pauses result punctual attentive
      | settled delivery => simpa only [apply, delivery] using h
      | abandoned delivery => simpa only [apply, delivery] using h

/-- It is true at any time. -/
theorem run_sound (h : r.Sound began c) (happenings : List (Happening α)) :
    r.Sound began (r.run c happenings) := by
  induction happenings generalizing c with
  | nil => exact h
  | cons happening happenings ih => exact ih (apply_sound h happening)

end Repetition
end PubSub
