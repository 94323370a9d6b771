import PubSub.Proofs.Bus.TimeLimit
import PubSub.Proofs.Site.Scenario

/-!
# Time in a scenario

Turns take no time, and no turn restores a token.  Time passes only when
everybody waits, and then not beyond what anybody waits for.

* `Ambient.Alike` — surroundings in which the same contexts have ended;
* `Scenario.Meanwhile`, `settleWithin_meanwhile` — what all turns keep;
* `ambient_advanceTo`, `Run.not_ready_before` — time that passes.
-/

namespace PubSub

/-- The clock reads the same, and the same tokens were cancelled. -/
structure Ambient.Alike (a a' : Ambient) : Prop where
  forth : a.Later a'
  back : a'.Later a

namespace Ambient.Alike

variable {a a' : Ambient}

theorem now (h : a.Alike a') : a.now = a'.now := Nat.le_antisymm h.forth.now h.back.now

/-- The same contexts have ended. -/
theorem isDone (h : a.Alike a') (ctx : Context) : a.isDone ctx = a'.isDone ctx :=
  Bool.eq_iff_iff.mpr ⟨h.forth.isDone, h.back.isDone⟩

end Ambient.Alike

namespace Scenario

/-- Cancelling what an act cancels has the effect that the act's delivery is
told of. -/
theorem ambient_cancelAll (s : Scenario) (p : Playing) :
    (s.cancelAll (cancelledBy p)).system.ambient = s.ambientAfter p := by
  unfold cancelledBy ambientAfter
  cases p.act.cancels with
  | false => rfl
  | true => exact congrArg (·.ambient) (s.moved_stage (.cancel p.ctx)).1

/-- An act does not turn the clock. -/
theorem ambientAfter_later (s : Scenario) (p : Playing) :
    s.system.ambient.Later (s.ambientAfter p) ∧ (s.ambientAfter p).now = s.now := by
  unfold ambientAfter
  cases p.act.cancels with
  | false => exact ⟨.refl _, rfl⟩
  | true => exact ⟨⟨Nat.le_refl _, List.subset_append_right _ _⟩, rfl⟩

end Scenario

namespace Scenario

/-- Time stands still, whatever else is done. -/
structure Meanwhile (s s' : Scenario) : Prop where
  now : s'.now = s.now
  later : s.system.ambient.Later s'.system.ambient

variable {s s' s'' : Scenario}

theorem Meanwhile.of_system (h : s'.system = s.system) : s.Meanwhile s' :=
  ⟨congrArg (·.ambient.now) h, h ▸ .refl _⟩

theorem Meanwhile.trans (h : s.Meanwhile s') (h' : s'.Meanwhile s'') : s.Meanwhile s'' :=
  ⟨h'.now.trans h.now, h.later.trans h'.later⟩

theorem Meanwhile.dropRun (h : s.Meanwhile s') (id : Nat) : s.Meanwhile (s'.dropRun id) :=
  ⟨h.now, h.later⟩

/-- A move of the bus takes no time, unless it is time that passes. -/
theorem moved_meanwhile (s : Scenario) {m : Move} (hm : ∀ millis, m ≠ .advance millis) :
    s.Meanwhile (s.moved m) := by
  obtain ⟨hsystem, -⟩ := s.moved_stage m
  have hnow := (s.system.apply_now m).resolve_left fun ⟨millis, h⟩ => hm millis h
  refine ⟨?_, ?_⟩
  · exact (congrArg (·.ambient.now) hsystem).trans hnow
  · rw [hsystem]
    exact s.system.apply_later m

/-- Nor does cancelling. -/
theorem cancelAll_meanwhile (s : Scenario) (ctxs : List Context) :
    s.Meanwhile (s.cancelAll ctxs) := by
  unfold cancelAll
  induction ctxs generalizing s with
  | nil => exact .of_system rfl
  | cons ctx ctxs ih => exact (s.moved_meanwhile (by simp)).trans (ih _)

/-- Nor does the answer of an invocation. -/
theorem answerRun_meanwhile (s : Scenario) (id : Nat) (upshot : Upshot) (cancels : List Context) :
    s.Meanwhile (s.answerRun id upshot cancels) := by
  refine Meanwhile.trans ?_ (cancelAll_meanwhile _ cancels)
  cases upshot with
  | going run => exact .of_system rfl
  | returned outcome => exact (s.moved_meanwhile (by simp)).dropRun id
  | collapsed text => exact (s.moved_meanwhile (by simp)).dropRun id

/-- The turn of a run leaves the bus alone. -/
theorem turnRun_system (s : Scenario) (run : Run) : (s.turnRun run).1.system = s.system := by
  unfold turnRun
  dsimp only
  split
  · split
    · rfl
    · unfold endAct
      dsimp only
      split
      · rfl
      · exact ((s.finish run _ _).follow_spec run _).1.system
  · split
    · exact (s.follow_spec run _).1.system
    · rfl

/-- Nor does the turn of an invocation take time. -/
theorem turnInvocation_meanwhile (s : Scenario) (i : Invocation) :
    s.Meanwhile (s.turnInvocation i) := by
  unfold turnInvocation
  split
  · unfold interrupt
    dsimp only
    refine Meanwhile.trans ?_ ((moved_meanwhile _ (by simp)).dropRun i.id)
    split
    · rename_i run _
      cases run.playing <;> exact .of_system rfl
    · exact .of_system rfl
  · have hbegun := (s.moved (.invocation i.id .pending)).follow_spec
    exact (s.moved_meanwhile (by simp)).trans
      ((Meanwhile.of_system (hbegun _ _).1.system).trans (answerRun_meanwhile _ _ _ _))
  · exact (Meanwhile.of_system (s.turnRun_system _)).trans (answerRun_meanwhile _ _ _ _)

/-- No turn takes time. -/
theorem turn_meanwhile (s : Scenario) (p : Party) : s.Meanwhile (s.turn p) := by
  cases p with
  | writer call => exact s.moved_meanwhile (by simp)
  | dispatcher => exact s.moved_meanwhile (by simp)
  | watcher => exact s.moved_meanwhile (by simp)
  | invocation id =>
      simp only [turn]
      split
      · exact s.turnInvocation_meanwhile _
      · exact .of_system rfl
  | canceller =>
      simp only [turn, turnCanceller]
      split
      · refine Meanwhile.trans ?_ (moved_meanwhile _ (by simp))
        exact .of_system rfl
      · exact .of_system rfl

/-- All turns together take no time. -/
theorem settleWithin_meanwhile (s : Scenario) (fuel : Nat) :
    s.Meanwhile (s.settleWithin fuel) := by
  induction fuel generalizing s with
  | zero => exact .of_system rfl
  | succ fuel ih =>
      unfold settleWithin
      split
      · exact .of_system rfl
      · rename_i p queue hqueue
        split
        · have hroused : (s.turn p).Meanwhile (s.rouse ((s.turn p).setAlarms p)) :=
            .of_system (s.rouse_same ((s.turn p).setAlarms p)).system
          exact (s.turn_meanwhile p).trans (hroused.trans (ih _))
        · refine Meanwhile.trans ?_ (ih _)
          exact .of_system rfl

/-- Letting time pass, a scenario does nothing else. -/
theorem ambient_advanceTo (s : Scenario) (time : Nat) :
    (s.advanceTo time).system.ambient =
      { s.system.ambient with now := s.now + (time - s.now) } := by
  unfold advanceTo
  dsimp only
  rw [(enlist_same _ _).system, (enlist_same _ _).system, (moved_stage _ _).1]
  rfl

end Scenario

/-- A context that lives does so until its deadline, unless it is cancelled. -/
theorem Ambient.isDone_before {a : Ambient} {ctx : Context} {time : Nat}
    (hlive : a.isDone ctx = false) (hends : ∀ t ∈ ctx.endsAt?, time < t) :
    ({ a with now := time } : Ambient).isDone ctx = false := by
  refine Bool.eq_false_iff.mpr fun hdone => ?_
  rcases isDone_iff.mp hdone with hcancelled | hoverdue
  · exact Bool.eq_false_iff.mp hlive (isDone_iff.mpr (.inl hcancelled))
  · rw [Context.isOverdue, Option.any_eq_true] at hoverdue
    obtain ⟨deadline, hdeadline, hpast⟩ := hoverdue
    have hend := hends (wakeAt deadline) (by rw [Context.endsAt?, hdeadline]; rfl)
    have hdue := (wakeAt_le_iff deadline time).mpr (of_decide_eq_true hpast)
    omega

/-- A run that waits is not ready before the time for which it waits. -/
theorem Run.not_ready_before {run : Run} {a : Ambient} {time k : Nat}
    (hnot : run.isReady a = false) (hbefore : a.now + k < time)
    (hwake : ∀ t ∈ run.wake?, time ≤ t)
    (hends : run.isPausing = true → ∀ t ∈ run.ctx.endsAt?, time ≤ t) :
    run.isReady { a with now := a.now + k } = false := by
  rw [isReady, Bool.or_eq_false_iff] at hnot ⊢
  obtain ⟨hearly, hlive⟩ := hnot
  constructor
  · cases hw : run.wake? with
    | none => simp [hw] at hearly
    | some t =>
        have ht := hwake t hw
        simp only [Option.all_some, decide_eq_false_iff_not]
        omega
  · cases hpausing : run.isPausing with
    | false => rfl
    | true =>
        rw [hpausing, Bool.true_and] at hlive
        refine Ambient.isDone_before hlive fun t ht => ?_
        exact Nat.lt_of_lt_of_le hbefore (hends hpausing t ht)

end PubSub
