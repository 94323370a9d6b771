import PubSub.Proofs.Outcome
import PubSub.Proofs.Retry.Sound
import PubSub.Proofs.Scenario.Meanwhile
import PubSub.Scenario.Program

/-!
# Deliveries that are repeated

A scenario that delivers a message through a stage that repeats does nothing
else than what can happen to a repeated operation.  The run of the delivery has
its turns; in between other parties may cancel tokens, and time passes, but not
beyond what the run waits for.  So what the delivery comes to in the end is what
the operation comes to.

* `Repetition.Shows` — the run is as far as the course;
* `shows_begin`, `Shows.turn` — the beginning of a run, and its turns;
* `Shows.meanwhile`, `Shows.advance` — what happens in between;
* `deliver_course` — a delivery from its beginning to its end.
-/

namespace PubSub
namespace Repetition

variable {r : Repetition} {began : Nat} {c : Course Unit} {a a' : Ambient} {s s' : Scenario}
  {run : Run}

/-- The run is as far as the course, in surroundings that are no different. -/
structure Shows (r : Repetition) (c : Course Unit) (a : Ambient) (run : Run) : Prop where
  delivery : run.delivery = c.delivery
  ctx : run.ctx = r.ctx
  coherent : run.Coherent
  alike : c.ambient.Alike a

/-- After a turn the run is as far as the course, or both have come to the same
outcome now. -/
def Arrives (r : Repetition) (c : Course Unit) (a : Ambient) : Upshot → Prop
  | .going run => r.Shows c a run
  | .returned outcome => c.result = some (a.now, outcome)
  | .collapsed _ => False

/-- An outcome that has no value is itself without one. -/
theorem map_unit (outcome : Except Error Unit) : (outcome.map fun _ => ()) = outcome := by
  cases outcome <;> rfl

/-- When the delivery is over, the operation has come to its outcome now. -/
theorem follow_finished {step : Delivery × List Note} {outcome : Except Error Unit}
    (hfinished : step.1.progress = .finished outcome) (h : r.Sound began (r.follow c step)) :
    (r.follow c step).result = some (c.ambient.now, outcome) := by
  have hdelivery := r.delivery_follow c step
  have htime {t : Nat} {o : Except Error Unit} (hresult : (r.follow c step).result = some (t, o)) :
      t = c.ambient.now := by
    simp only [follow, hfinished, Option.map_eq_some_iff, Prod.mk.injEq] at hresult
    obtain ⟨-, -, hnow, -⟩ := hresult
    exact hnow.symm
  cases h.stage with
  | trying delivery =>
      rw [← hdelivery, delivery] at hfinished
      cases hfinished
  | waiting delivery =>
      rw [← hdelivery, delivery] at hfinished
      cases hfinished
  | settled delivery starts exits last stops result =>
      rw [hdelivery, hfinished, map_unit] at delivery
      cases delivery
      rw [result, htime result]
  | abandoned delivery starts exits last pauses ended since before result =>
      rw [hdelivery, hfinished, map_unit] at delivery
      cases delivery
      rw [result, htime result]

/-- Both follow a delivery alike. -/
theorem arrives_follow (hctx : run.ctx = r.ctx) (step : Delivery × List Note)
    (halike : c.ambient.Alike a) (hsound : r.Sound began (r.follow c step)) :
    r.Arrives (r.follow c step) a (s.follow run step).2.upshot := by
  obtain ⟨-, hdelivery, hctx', hcoherent⟩ := s.follow_spec run step
  by_cases hfinished : ∃ outcome, step.1.progress = .finished outcome
  · obtain ⟨outcome, hfinished⟩ := hfinished
    have hupshot : (s.follow run step).2.upshot = .returned outcome := by
      simp only [Run.upshot, hdelivery, hfinished]
    rw [hupshot, Arrives, ← halike.now]
    exact follow_finished hfinished hsound
  · have hgoing : (s.follow run step).2.upshot = .going (s.follow run step).2 := by
      unfold Run.upshot
      split
      · rename_i outcome hprogress
        exact (hfinished ⟨outcome, hdelivery ▸ hprogress⟩).elim
      · rfl
    rw [hgoing]
    exact ⟨hdelivery.trans (r.delivery_follow c step).symm, hctx'.trans hctx,
      hcoherent fun outcome h => hfinished ⟨outcome, h⟩, (r.ambient_follow c step).symm ▸ halike⟩

/-- A run begins as the operation does. -/
theorem shows_begin (s : Scenario) (handler : String) (policy : RetryPolicy) (ctx : Context)
    (message : Message) :
    let r : Repetition := ⟨policy, .even, ctx, message⟩
    let begun := s.beginRun ⟨[.retry policy], handler⟩ ctx message
    begun.1.system = s.system ∧
      r.Shows (r.start Unit s.system.ambient) s.system.ambient begun.2 := by
  intro r begun
  let step := Delivery.begin .even s.now (s.system.ambient.isDone ctx) [.retry policy]
    ⟨ctx, message⟩
  obtain ⟨hsame, hdelivery, hctx, hcoherent⟩ :=
    s.follow_spec ⟨handler, message.id, ctx, step.1, none⟩ step
  refine ⟨hsame.system, hdelivery, hctx, ?_, .refl _, .refl _⟩
  exact hcoherent fun outcome h => Progress.noConfusion h

/-- Others cancel tokens meanwhile. -/
theorem Shows.meanwhile (h : r.Shows c a run) (hnow : a'.now = a.now) (hlater : a.Later a') :
    r.Shows (r.apply c (.cancelled a'.tokens.cancelled)) a' run where
  delivery := h.delivery
  ctx := h.ctx
  coherent := h.coherent
  alike := by
    have hbefore : c.ambient.tokens.cancelled ⊆ a'.tokens.cancelled :=
      List.Subset.trans h.alike.forth.cancelled hlater.cancelled
    have hclock : (r.apply c (.cancelled a'.tokens.cancelled)).ambient.now = a'.now :=
      h.alike.now.trans hnow.symm
    refine ⟨⟨Nat.le_of_eq hclock, ?_⟩, ⟨Nat.le_of_eq hclock.symm, ?_⟩⟩
    · exact List.append_subset.mpr ⟨List.Subset.refl _, hbefore⟩
    · exact List.subset_append_left _ _

/-- In a pause, the run and the operation are ready for the same. -/
theorem Shows.isReady (h : r.Shows c a run) (hplaying : run.playing = none) :
    run.isReady a = r.isReady c := by
  have hpausing := h.coherent
  rw [Run.Coherent, hplaying] at hpausing
  cases hprogress : run.delivery.progress with
  | handling arrival frames => simp [Run.isPausing, hprogress] at hpausing
  | finished outcome => simp [Run.isPausing, hprogress] at hpausing
  | pausing until_ failure attempts frames =>
      rw [Run.isReady_pausing hplaying hprogress, Repetition.isReady, ← h.delivery, hprogress,
        h.alike.isDone, h.ctx, h.alike.now]

/-- The turn of a run in a pause. -/
theorem Shows.turn_pausing (h : r.Shows c s.system.ambient run) (hpace : r.pace = .even)
    (hsound : r.Sound began c) (hready : run.isReady s.system.ambient = true)
    (hplaying : run.playing = none) :
    r.Arrives (r.apply c (.wake false))
      ((s.turnRun run).1.cancelAll (s.turnRun run).2.2).system.ambient (s.turnRun run).2.1 := by
  have hpausing := h.coherent
  rw [Run.Coherent, hplaying] at hpausing
  have hnow : c.ambient.now = s.now := h.alike.now
  let step := if c.ambient.isDone r.ctx then c.delivery.giveUp r.pace c.ambient.now
    else c.delivery.resume r.pace c.ambient.now (c.ambient.isDone r.ctx)
  have hturn : s.turnRun run = ((s.follow run step).1, (s.follow run step).2.upshot, []) := by
    rw [s.turnRun_pausing hplaying hpausing]
    simp only [step, h.delivery, h.ctx, h.alike.isDone, hnow, hpace]
  have happly : r.apply c (.wake false) = r.follow c step := by
    rw [h.isReady hplaying, Repetition.isReady] at hready
    split at hready
    · rename_i until_ failure attempts frames hprogress
      simp only [apply, hprogress, endPause, Bool.and_false, Bool.not_false, Bool.and_true, step]
      split
      · rfl
      · rename_i hlive
        rw [Bool.or_eq_true] at hready
        rw [if_pos (hready.resolve_right hlive)]
    · cases hready
  have hafter := apply_sound hsound (.wake false)
  obtain ⟨hsame, -⟩ := s.follow_spec run step
  rw [happly] at hafter
  rw [happly, hturn]
  refine arrives_follow h.ctx step ?_ hafter
  change c.ambient.Alike (s.follow run step).1.system.ambient
  rw [hsame.system]
  exact h.alike

/-- Both hand an outcome to the delivery alike. -/
theorem arrives_returned (h : r.Shows c a run) (hpace : r.pace = .even) (hsound : r.Sound began c)
    {arrival : Arrival} {frames : List Frame}
    (hprogress : run.delivery.progress = .handling arrival frames) (outcome : Except Error Unit) :
    r.Arrives (r.apply c (.returned outcome)) a (s.follow run (run.delivery.returned .even
      a.now (a.isDone r.ctx) outcome)).2.upshot := by
  let o : Course.Exit Unit := ⟨c.ambient.now, outcome, c.ambient.isDone r.ctx⟩
  have happly : r.apply c (.returned outcome) =
      r.follow { c with exits := c.exits ++ [o] } (run.delivery.returned .even
        a.now (a.isDone r.ctx) outcome) := by
    rw [apply, ← h.delivery, hprogress, ← h.alike.now, ← h.alike.isDone]
    simp only [map_unit, hpace, o]
  have hafter := apply_sound hsound (.returned outcome)
  rw [happly] at hafter
  rw [happly]
  exact arrives_follow h.ctx _ h.alike hafter

/-- A run that plays an act and is ready ends the act. -/
theorem Shows.turnRun_playing (h : r.Shows c s.system.ambient run)
    (hready : run.isReady s.system.ambient = true) {p : Playing} (hplaying : run.playing = some p) :
    s.turnRun run = s.endAct run p := by
  have hcoherent := h.coherent
  rw [Run.Coherent, hplaying] at hcoherent
  obtain ⟨arrival, frames, hprogress, -⟩ := hcoherent
  have hpausing : run.isPausing = false := by simp only [Run.isPausing, hprogress]
  have hover : ¬ s.now < p.wake := by
    simpa [Run.isReady, Run.wake?, hplaying, hpausing, Scenario.now] using hready
  simp only [Scenario.turnRun, hplaying, if_neg hover]

/-- The turn of a run whose act is over. -/
theorem Shows.turn_playing (h : r.Shows c s.system.ambient run) (hpace : r.pace = .even)
    (hsound : r.Sound began c) (hready : run.isReady s.system.ambient = true) {p : Playing}
    (hplaying : run.playing = some p) (hact : p.act.collapse = none) :
    r.Arrives (r.run c [.cancelled (s.ambientAfter p).tokens.cancelled,
        .returned (p.act.outcome p.attempt)])
      ((s.turnRun run).1.cancelAll (s.turnRun run).2.2).system.ambient (s.turnRun run).2.1 := by
  have hcoherent := h.coherent
  rw [Run.Coherent, hplaying] at hcoherent
  obtain ⟨arrival, frames, hprogress, -⟩ := hcoherent
  obtain ⟨manner, hend⟩ := s.endAct_returned run hact
  obtain ⟨hlater, hnow⟩ := s.ambientAfter_later p
  have hcalled := h.meanwhile hnow hlater
  have hsoundly := apply_sound hsound (.cancelled (s.ambientAfter p).tokens.cancelled)
  obtain ⟨hsame, -⟩ := (s.finish run p manner).follow_spec run (run.delivery.returned .even
    (s.ambientAfter p).now ((s.ambientAfter p).isDone r.ctx) (p.act.outcome p.attempt))
  have hafter : (((s.finish run p manner).follow run (run.delivery.returned .even
      (s.ambientAfter p).now ((s.ambientAfter p).isDone r.ctx)
      (p.act.outcome p.attempt))).1.cancelAll (Scenario.cancelledBy p)).system.ambient =
        s.ambientAfter p := by
    rw [Scenario.ambient_cancelAll, Scenario.ambientAfter, hsame.system]
    rfl
  rw [h.turnRun_playing hready hplaying, hend, h.ctx, ← hnow]
  dsimp only
  rw [hafter]
  exact arrives_returned hcalled hpace hsoundly hprogress (p.act.outcome p.attempt)

/-- **Every turn of a run is a few happenings.** -/
theorem Shows.turn (h : r.Shows c s.system.ambient run) (hpace : r.pace = .even)
    (hsound : r.Sound began c) (hready : run.isReady s.system.ambient = true)
    (hact : ∀ p, run.playing = some p → p.act.collapse = none) :
    ∃ happenings : List (Happening Unit), r.Arrives (r.run c happenings)
      ((s.turnRun run).1.cancelAll (s.turnRun run).2.2).system.ambient (s.turnRun run).2.1 := by
  cases hplaying : run.playing with
  | none => exact ⟨[.wake false], h.turn_pausing hpace hsound hready hplaying⟩
  | some p => exact ⟨_, h.turn_playing hpace hsound hready hplaying (hact p hplaying)⟩

/-- A millisecond passes when the run is not ready. -/
theorem Shows.tick (h : r.Shows c a run) (hnot : run.isReady a = false) :
    r.Shows (r.apply c .tick) { a with now := a.now + 1 } run := by
  have hready : r.isReady c = false := by
    cases hplaying : run.playing with
    | none => rw [← h.isReady hplaying, hnot]
    | some p =>
        have hcoherent := h.coherent
        rw [Run.Coherent, hplaying] at hcoherent
        obtain ⟨arrival, frames, hprogress, -⟩ := hcoherent
        rw [Repetition.isReady, ← h.delivery, hprogress]
  have happly : r.apply c .tick =
      r.surround c { c.ambient with now := c.ambient.now + 1 } := by
    rw [apply, hready]
    rfl
  have hnow := h.alike.now
  rw [happly]
  refine ⟨h.delivery, h.ctx, h.coherent, ⟨?_, h.alike.forth.cancelled⟩,
    ⟨?_, h.alike.back.cancelled⟩⟩
  · exact Nat.succ_le_succ (Nat.le_of_eq hnow)
  · exact Nat.succ_le_succ (Nat.le_of_eq hnow.symm)

/-- Time passes as long as the run is not ready. -/
theorem Shows.wait (h : r.Shows c a run) (d : Nat)
    (hnot : ∀ k, k < d → run.isReady { a with now := a.now + k } = false) :
    r.Shows (r.run c (List.replicate d .tick)) { a with now := a.now + d } run := by
  induction d generalizing c a with
  | zero => exact h
  | succ d ih =>
      have hfirst := h.tick (hnot 0 (Nat.succ_pos d))
      have hrest := ih hfirst fun k hk => by
        have hlater := hnot (k + 1) (Nat.succ_lt_succ hk)
        rwa [Nat.add_comm k 1, ← Nat.add_assoc] at hlater
      dsimp only at hrest
      rwa [Nat.add_assoc, Nat.add_comm 1 d] at hrest

/-- Time passes as far as nobody wants to be woken before. -/
theorem Shows.advance (h : r.Shows c s.system.ambient run)
    (hnot : run.isReady s.system.ambient = false) {time : Nat}
    (hnext : s.nextWake? (Scenario.delivering.wakes s run) = some time) :
    ∃ happenings : List (Happening Unit),
      r.Shows (r.run c happenings) (s.advanceTo time).system.ambient run := by
  obtain ⟨-, hleast⟩ := List.min?_eq_some_iff.mp hnext
  have hwake : ∀ t ∈ run.wake?, time ≤ t := fun t ht =>
    hleast t (List.mem_append_left _ (List.mem_append_left _ (Option.mem_toList.mpr ht)))
  have hends (hpausing : run.isPausing = true) : ∀ t ∈ run.ctx.endsAt?, time ≤ t := fun t ht => by
    refine hleast t (List.mem_append_left _ (List.mem_append_right _ ?_))
    rw [hpausing]
    exact Option.mem_toList.mpr ht
  rw [s.ambient_advanceTo]
  refine ⟨_, h.wait (time - s.now) fun k hk => ?_⟩
  have hbefore : s.system.ambient.now + k < time := by
    rw [Scenario.now] at hk
    omega
  exact Run.not_ready_before hnot hbefore hwake hends

/-- Some things happen, and then others. -/
theorem run_append {α : Type} (r : Repetition) (c : Course α) (first later : List (Happening α)) :
    r.run c (first ++ later) = r.run (r.run c first) later :=
  List.foldl_append

/-- A delivery that is going on is as far as the course, and one that is over
has come to the same outcome now. -/
def Stands (r : Repetition) (c : Course Unit) (s : Scenario) : Run ⊕ Except Error Unit → Prop
  | .inl run => r.Shows c s.system.ambient run
  | .inr outcome => c.result = some (s.now, outcome)

/-- What leaves the bus alone does not count. -/
theorem Stands.of_system {step : Run ⊕ Except Error Unit} (h : r.Stands c s step)
    (hsystem : s'.system = s.system) : r.Stands c s' step := by
  cases step with
  | inl run =>
      rw [Stands, hsystem]
      exact h
  | inr outcome =>
      rw [Stands, Scenario.now, hsystem]
      exact h

/-- A turn of a delivery that does not break down. -/
theorem Shows.errand (h : r.Shows c s.system.ambient run) (hpace : r.pace = .even)
    (hsound : r.Sound began c) (hready : run.isReady s.system.ambient = true)
    {step : Run ⊕ Except Error Unit} (hturn : Scenario.delivering.turn s run = .ok (s', step)) :
    ∃ happenings : List (Happening Unit), r.Stands (r.run c happenings) s' step := by
  have hact (p : Playing) (hplaying : run.playing = some p) : p.act.collapse = none := by
    cases hcollapse : p.act.collapse with
    | none => rfl
    | some text =>
        unfold Scenario.delivering at hturn
        simp only [h.turnRun_playing hready hplaying, Scenario.endAct, hcollapse] at hturn
        cases hturn
  obtain ⟨happenings, harrives⟩ := h.turn hpace hsound hready hact
  refine ⟨happenings, ?_⟩
  unfold Scenario.delivering at hturn
  dsimp only at hturn
  cases hupshot : (s.turnRun run).2.1 with
  | going run' =>
      rw [hupshot] at harrives hturn
      cases hturn
      exact harrives
  | returned outcome =>
      rw [hupshot] at harrives hturn
      cases hturn
      exact harrives
  | collapsed text =>
      rw [hupshot] at harrives
      exact harrives.elim

/-- As many turns as there are without time passing. -/
theorem Shows.goOn (hpace : r.pace = .even) (fuel : Nat) {step : Run ⊕ Except Error Unit}
    (h : r.Shows c s.system.ambient run) (hsound : r.Sound began c)
    (hgone : Scenario.goOn Scenario.delivering fuel s run = .ok (s', step)) :
    ∃ happenings : List (Happening Unit), r.Stands (r.run c happenings) s' step := by
  induction fuel generalizing c s run with
  | zero =>
      cases hgone
      exact ⟨[], h⟩
  | succ fuel ih =>
      unfold Scenario.goOn at hgone
      split at hgone
      · cases hgone
        exact ⟨[], h⟩
      · rename_i hready
        have hready : run.isReady s.system.ambient = true := by
          simpa [Scenario.delivering] using hready
        obtain ⟨⟨after, reached⟩, hturn, hrest⟩ := of_bind_ok hgone
        obtain ⟨first, hfirst⟩ := h.errand hpace hsound hready hturn
        have hroused := hfirst.of_system (s.rouse_same after).system
        dsimp only at hrest
        split at hrest
        · obtain ⟨later, hlater⟩ := ih hroused (run_sound hsound first) hrest
          exact ⟨first ++ later, by rwa [run_append]⟩
        · cases hrest
          exact ⟨first, hroused⟩

/-- A delivery that goes on to its end. -/
theorem Shows.carryOut (hpace : r.pace = .even) (fuel : Nat)
    (h : r.Shows c s.system.ambient run) (hsound : r.Sound began c) {outcome : Except Error Unit}
    (hdone : Scenario.carryOutWithin Scenario.delivering fuel s run = .ok (s', some outcome)) :
    ∃ happenings : List (Happening Unit),
      (r.run c happenings).result = some (s'.now, outcome) := by
  induction fuel generalizing c s run with
  | zero => cases hdone
  | succ fuel ih =>
      unfold Scenario.carryOutWithin at hdone
      obtain ⟨⟨mid, step⟩, hgone, hrest⟩ := of_bind_ok hdone
      obtain ⟨first, hfirst⟩ := h.goOn hpace _ hsound hgone
      have hsoundly := run_sound hsound first
      dsimp only at hrest
      split at hrest
      · cases hrest
        exact ⟨first, hfirst⟩
      · rename_i run'
        have hsettled := mid.settleWithin_meanwhile Scenario.manyTurns
        have hmean := Shows.meanwhile hfirst hsettled.now hsettled.later
        have hstill := apply_sound hsoundly (.cancelled mid.settle.system.ambient.tokens.cancelled)
        split at hrest
        · obtain ⟨later, hlater⟩ := ih hmean hstill hrest
          refine ⟨first ++ .cancelled mid.settle.system.ambient.tokens.cancelled :: later, ?_⟩
          rwa [run_append]
        · rename_i hready
          have hnot : run'.isReady mid.settle.system.ambient = false :=
            Bool.eq_false_iff.mpr hready
          split at hrest
          · rename_i time hnext
            obtain ⟨ticks, hadvanced⟩ := hmean.advance hnot hnext
            obtain ⟨later, hlater⟩ := ih hadvanced (run_sound hstill ticks) hrest
            refine ⟨first ++ .cancelled mid.settle.system.ambient.tokens.cancelled ::
              (ticks ++ later), ?_⟩
            rw [run_append]
            change (r.run (r.apply (r.run c first) _) (ticks ++ later)).result = _
            rwa [run_append]
          · cases hrest

/-- **A delivery that is repeated.**  When a scenario delivers a message through
a stage that repeats, and the delivery comes to an end, then things have
happened after which the repeated operation comes to the same outcome at the
same time. -/
theorem deliver_course (s : Scenario) (handler : String) (policy : RetryPolicy) (ctx : Context)
    (message : Message) {outcome : Except Error Unit}
    (hdone : s.deliver ⟨[.retry policy], handler⟩ ctx message = .ok (s', some outcome)) :
    let r : Repetition := ⟨policy, .even, ctx, message⟩
    ∃ happenings : List (Happening Unit),
      (r.run (r.start Unit s.system.ambient) happenings).result = some (s'.now, outcome) := by
  intro r
  obtain ⟨hsystem, hshows⟩ := shows_begin s handler policy ctx message
  have hsound : r.Sound s.now (r.start Unit s.system.ambient) := start_sound r s.system.ambient
  have hbegun : r.Shows (r.start Unit s.system.ambient)
      (s.beginRun ⟨[.retry policy], handler⟩ ctx message).1.system.ambient
      (s.beginRun ⟨[.retry policy], handler⟩ ctx message).2 := by
    rw [hsystem]
    exact hshows
  exact hbegun.carryOut rfl _ hsound hdone

end Repetition
end PubSub
