import PubSub.Proofs.Site.Steps
import PubSub.Scenario.Schedule

/-!
# Scenarios as sites

A scenario decides whose turn it is and what the handlers do.  Whatever it
decides, what its parties do with bus and deliveries are deeds of a site,
so what holds of all runs of a site holds there.

* `Site.Matches` — a site with the bus and the deliveries of a scenario;
* `Matches.turn`, `Matches.settleWithin` — the site follows every turn, and
  all turns until nobody has anything to do.
-/

namespace PubSub

/-- A run plays an act while its handler is asked, in the context that the
handler was given; otherwise it is in a pause. -/
def Run.Coherent (run : Run) : Prop :=
  match run.playing with
  | some p => ∃ arrival frames, run.delivery.progress = .handling arrival frames ∧
      p.ctx = arrival.ctx
  | none => run.isPausing = true

/-- The run and the ongoing delivery are the same. -/
structure Ongoing.Shown (o : Ongoing) (run : Run) : Prop where
  delivery : run.delivery = o.delivery
  ctx : run.ctx = o.invocation.ctx
  coherent : run.Coherent

/-- In a pause, a run waits for its end or for the end of its context. -/
theorem Run.isReady_pausing {run : Run} {a : Ambient} {until_ : Nat} {failure : Error}
    {attempts : Attempts} {frames : List Frame} (hplaying : run.playing = none)
    (hprogress : run.delivery.progress = .pausing until_ failure attempts frames) :
    run.isReady a = (decide (wakeAt until_ ≤ a.now) || a.isDone run.ctx) := by
  have hwake : run.wake? = some (wakeAt until_) := by simp only [wake?, hplaying, hprogress]
  have hpausing : run.isPausing = true := by simp only [isPausing, hprogress]
  rw [isReady, hwake, hpausing, Option.all_some, Bool.true_and]

namespace Scenario

/-- The bus and the runs are the same. -/
structure SameStage (s s' : Scenario) : Prop where
  system : s'.system = s.system
  runs : s'.runs = s.runs

theorem SameStage.trans {s s' s'' : Scenario} (h : s.SameStage s') (h' : s'.SameStage s'') :
    s.SameStage s'' :=
  ⟨h'.system.trans h.system, h'.runs.trans h.runs⟩

theorem SameStage.now {s s' : Scenario} (h : s.SameStage s') : s'.now = s.now :=
  congrArg (·.ambient.now) h.system

/-- What leaves bus and runs alone may be done many times. -/
theorem foldl_same {α : Type} {f : Scenario → α → Scenario} (h : ∀ s x, SameStage s (f s x))
    (s : Scenario) (xs : List α) : s.SameStage (xs.foldl f s) := by
  induction xs generalizing s with
  | nil => exact ⟨rfl, rfl⟩
  | cons x xs ih => exact (h s x).trans (ih (f s x))

/-- Notes go to the journal. -/
theorem notes_same (s : Scenario) (ns : List Note) : s.SameStage (s.notes ns) := by
  refine foldl_same ?_ s ns
  intro s n
  cases n <;> exact ⟨rfl, rfl⟩

/-- So does what is seen of a move, or it settles a call in the
background. -/
theorem observe_same (s : Scenario) (events : List BusEvent) :
    s.SameStage (events.foldl observe s) := by
  refine foldl_same ?_ s events
  intro s e
  cases e <;> exact ⟨rfl, rfl⟩

/-- Taking places in the queue is a matter of the schedule. -/
theorem enlist_same (s : Scenario) (ps : List Party) : s.SameStage (s.enlist ps) := by
  refine foldl_same ?_ s ps
  intro s p
  split <;> exact ⟨rfl, rfl⟩

/-- So is waking others up. -/
theorem rouse_same (before s : Scenario) : s.SameStage (rouse before s) := by
  unfold rouse
  split
  · exact s.enlist_same _
  · exact s.enlist_same _

/-- A move of the bus. -/
theorem moved_stage (s : Scenario) (m : Move) :
    (s.moved m).system = (s.system.apply m).1 ∧ (s.moved m).runs = s.runs := by
  have hsame := observe_same { s with system := (s.system.apply m).1 } (s.system.apply m).2
  exact ⟨hsame.system, hsame.runs⟩

/-- Following a delivery, a run plays the next act or waits. -/
theorem follow_spec (s : Scenario) (run : Run) (step : Delivery × List Note) :
    s.SameStage (s.follow run step).1 ∧ (s.follow run step).2.delivery = step.1 ∧
      (s.follow run step).2.ctx = run.ctx ∧
      ((∀ outcome, step.1.progress ≠ .finished outcome) → (s.follow run step).2.Coherent) := by
  have hnotes := s.notes_same step.2
  unfold follow
  dsimp only
  split
  · rename_i arrival frames hprogress
    exact ⟨⟨hnotes.system, hnotes.runs⟩, rfl, rfl, fun _ => ⟨arrival, frames, hprogress, rfl⟩⟩
  · rename_i hnot
    refine ⟨hnotes, rfl, rfl, ?_⟩
    intro hunfinished
    cases hprogress : step.1.progress with
    | handling arrival frames => exact absurd hprogress (hnot arrival frames)
    | pausing until_ failure attempts frames => simp [Run.Coherent, Run.isPausing, hprogress]
    | finished outcome => exact absurd hprogress (hunfinished outcome)

/-- An act that is not given up hands its outcome to the delivery. -/
theorem endAct_returned (s : Scenario) (run : Run) {p : Playing} (h : p.act.collapse = none) :
    ∃ manner, s.endAct run p =
      let followed := (s.finish run p manner).follow run
        (run.delivery.returned .even s.now ((s.ambientAfter p).isDone run.ctx)
          (p.act.outcome p.attempt))
      (followed.1, followed.2.upshot, cancelledBy p) := by
  cases houtcome : p.act.outcome p.attempt with
  | ok _ => exact ⟨.succeeded, by simp only [endAct, h, houtcome]⟩
  | error e => exact ⟨.failed, by simp only [endAct, h, houtcome]⟩

/-- A run in a pause gives up or goes in again. -/
theorem turnRun_pausing (s : Scenario) {run : Run} (hplaying : run.playing = none)
    (hpausing : run.isPausing = true) :
    s.turnRun run =
      let followed := s.follow run
        (if s.system.ambient.isDone run.ctx then run.delivery.giveUp .even s.now
          else run.delivery.resume .even s.now (s.system.ambient.isDone run.ctx))
      (followed.1, followed.2.upshot, []) := by
  simp only [turnRun, hplaying, hpausing, if_true]

/-- The runs without one. -/
theorem lookup_filter (runs : List (Nat × Run)) (id other : Nat) :
    (runs.filter (·.1 != id)).lookup other = if other = id then none else runs.lookup other := by
  induction runs with
  | nil => simp
  | cons entry runs ih =>
      obtain ⟨key, run⟩ := entry
      by_cases hkey : key = id
      · subst hkey
        rw [List.filter_cons_of_neg (by simp), ih]
        by_cases hother : other = key
        · simp [hother]
        · have hne : (other == key) = false := beq_false_of_ne hother
          simp [hother, List.lookup_cons, hne]
      · rw [List.filter_cons_of_pos (by simpa using hkey)]
        by_cases hother : other = key
        · subst hother
          simp [hkey]
        · have hne : (other == key) = false := beq_false_of_ne hother
          simp [List.lookup_cons, hne, ih]

/-- The run that is kept, and the others. -/
theorem run?_keepRun (s : Scenario) (id other : Nat) (run : Run) :
    (s.keepRun id run).run? other = if other = id then some run else s.run? other := by
  by_cases hother : other = id
  · simp [run?, keepRun, hother]
  · have hne : (other == id) = false := beq_false_of_ne hother
    simp [run?, keepRun, List.lookup_cons, hne, lookup_filter, hother]

/-- The runs that are not dropped. -/
theorem run?_dropRun (s : Scenario) (id other : Nat) :
    (s.dropRun id).run? other = if other = id then none else s.run? other :=
  lookup_filter s.runs id other

end Scenario

namespace Site

/-- The deliveries without one. -/
theorem ongoing?_forget (t : Site) (id other : Nat) :
    (t.forget id).ongoing? other = if other = id then none else t.ongoing? other := by
  unfold ongoing? forget
  rw [List.find?_filter]
  by_cases hother : other = id
  · rw [if_pos hother, List.find?_eq_none]
    intro o _
    simp [hother]
  · rw [if_neg hother]
    congr 1
    funext o
    by_cases ho : o.invocation.id = other
    · simp [ho, hother]
    · simp [ho]

/-- The delivery that is kept, and the others. -/
theorem ongoing?_keep (t : Site) (i : Invocation) (d : Delivery) (other : Nat) :
    (t.keep i d).ongoing? other = if other = i.id then some ⟨i, d⟩ else t.ongoing? other := by
  have hrest := t.ongoing?_forget i.id other
  unfold ongoing? forget at hrest
  unfold ongoing? keep
  by_cases hother : other = i.id
  · simp [hother]
  · have hne : (i.id == other) = false := beq_false_of_ne (Ne.symm hother)
    rw [if_neg hother] at hrest ⊢
    rw [List.find?_cons_of_neg (by simp [hne]), hrest]

/-- The site has the bus and the deliveries of the scenario. -/
structure Matches (t : Site) (s : Scenario) : Prop where
  system : t.system = s.system
  ongoing : ∀ id, Option.Rel Ongoing.Shown (t.ongoing? id) (s.run? id)

namespace Matches

variable {t : Site} {s s' : Scenario} {i : Invocation} {d : Delivery} {run : Run}

/-- The rest of a scenario does not count. -/
theorem same (h : t.Matches s) (hsame : s.SameStage s') : t.Matches s' :=
  ⟨h.system.trans hsame.system.symm, by simpa [Scenario.run?, hsame.runs] using h.ongoing⟩

theorem move (h : t.Matches s) (m : Move) : (t.move m).Matches (s.moved m) := by
  obtain ⟨hsystem, hruns⟩ := s.moved_stage m
  refine ⟨?_, fun id => ?_⟩
  · rw [hsystem, ← h.system]
    rfl
  · rw [Scenario.run?, hruns]
    exact h.ongoing id

theorem keep (h : t.Matches s) (hshown : Ongoing.Shown ⟨i, d⟩ run) :
    (t.keep i d).Matches (s.keepRun i.id run) := by
  refine ⟨h.system, fun id => ?_⟩
  rw [ongoing?_keep, Scenario.run?_keepRun]
  split
  · exact .some hshown
  · exact h.ongoing id

theorem forget (h : t.Matches s) (id : Nat) : (t.forget id).Matches (s.dropRun id) := by
  refine ⟨h.system, fun other => ?_⟩
  rw [ongoing?_forget, Scenario.run?_dropRun]
  split
  · exact .none
  · exact h.ongoing other

/-- The handler's own cancelling. -/
theorem cancelFor (h : t.Matches s) (arrival : Arrival) (cancels : Bool) :
    (t.cancelFor arrival cancels).Matches
      (s.cancelAll (if cancels then [arrival.ctx] else [])) := by
  cases cancels with
  | true => exact h.move _
  | false => exact h

/-- An invocation that goes on with its run. -/
theorem settle (h : t.Matches s) (hdelivery : run.delivery = d) (hctx : run.ctx = i.ctx)
    (hcoherent : (∀ outcome, d.progress ≠ .finished outcome) → run.Coherent) :
    (t.settle i d).Matches (s.answerRun i.id run.upshot []) := by
  unfold Site.settle Scenario.answerRun Run.upshot
  rw [hdelivery]
  cases hprogress : d.progress with
  | finished outcome => exact (h.move _).forget i.id
  | _ => exact h.keep ⟨hdelivery, hctx, hcoherent (by simp [hprogress])⟩

/-- An invocation goes on with a run that follows its delivery. -/
theorem follow (h : t.Matches s) (hctx : run.ctx = i.ctx) (step : Delivery × List Note) :
    (t.settle i step.1).Matches
      ((s.follow run step).1.answerRun i.id (s.follow run step).2.upshot []) := by
  obtain ⟨hsame, hdelivery, hkept, hcoherent⟩ := s.follow_spec run step
  exact (h.same hsame).settle hdelivery (hkept.trans hctx) hcoherent

/-- An attempt that a site has made is only written down. -/
theorem noted (h : t.Matches s) (a : Attempt) :
    Matches { t with attempts := t.attempts ++ [a] } s :=
  ⟨h.system, h.ongoing⟩

/-- The handler is given up in mid-air. -/
theorem collapse (h : t.Matches s) {o : Ongoing} {arrival : Arrival} {frames : List Frame}
    {text : String} (cancels : Bool)
    (hprogress : o.delivery.progress = .handling arrival frames) :
    (t.goOn o.invocation o.delivery .even .collapsed cancels).Matches
      (s.answerRun o.invocation.id (.collapsed text)
        (if cancels then [arrival.ctx] else [])) := by
  unfold goOn
  rw [hprogress]
  exact ((h.move _).forget o.invocation.id).cancelFor arrival cancels

/-- The turn of a run that plays an act: the act is over. -/
theorem act (h : t.Matches s) {o : Ongoing} (hshown : o.Shown run) {p : Playing}
    (hplaying : run.playing = some p) (hready : run.isReady s.system.ambient = true) :
    ∃ reply cancels, (t.goOn o.invocation o.delivery .even reply cancels).Matches
      ((s.turnRun run).1.answerRun o.invocation.id (s.turnRun run).2.1 (s.turnRun run).2.2) := by
  obtain ⟨hdelivery, hctx, hcoherent⟩ := hshown
  simp only [Run.Coherent, hplaying] at hcoherent
  obtain ⟨arrival, frames, hprogress, hplayed⟩ := hcoherent
  have hdue : ¬ s.now < p.wake := by
    simp only [Run.isReady, Run.wake?, hplaying, Run.isPausing, hprogress, Option.all_some,
      Bool.false_and, Bool.or_false, decide_eq_true_eq] at hready
    exact Nat.not_lt.mpr hready
  have hturn : s.turnRun run = s.endAct run p := by
    simp only [Scenario.turnRun, hplaying, if_neg hdue]
  have hcancelled : Scenario.cancelledBy p = if p.act.cancels then [arrival.ctx] else [] := by
    rw [Scenario.cancelledBy, hplayed]
  rw [hturn]
  cases hcollapse : p.act.collapse with
  | some text =>
      have hfinish : s.SameStage (s.finish run p .dropped) := ⟨rfl, rfl⟩
      refine ⟨.collapsed, p.act.cancels, ?_⟩
      simp only [Scenario.endAct, hcollapse, hcancelled]
      exact (h.same hfinish).collapse p.act.cancels (hdelivery ▸ hprogress)
  | none =>
      obtain ⟨manner, hend⟩ := s.endAct_returned run hcollapse
      have hfinish : s.SameStage (s.finish run p manner) := ⟨rfl, rfl⟩
      have hnow : t.system.ambient.now = s.now := congrArg (·.ambient.now) h.system
      have hended : (t.cancelFor arrival p.act.cancels).system.ambient.isDone o.invocation.ctx =
          (s.ambientAfter p).isDone run.ctx := by
        rw [hctx, Scenario.ambientAfter, hplayed, ← h.system]
        cases p.act.cancels <;> rfl
      refine ⟨.returned (p.act.outcome p.attempt), p.act.cancels, ?_⟩
      unfold goOn
      rw [hend, ← hdelivery, hprogress]
      dsimp only
      rw [hended, hnow, hcancelled]
      exact ((h.same hfinish).follow hctx _).cancelFor arrival p.act.cancels

/-- The turn of a run that is in a pause: it gives up, or makes another
attempt. -/
theorem pause (h : t.Matches s) {o : Ongoing} (hshown : o.Shown run)
    (hplaying : run.playing = none) (hready : run.isReady s.system.ambient = true) :
    (t.goOn o.invocation o.delivery .even .pending false).Matches
      ((s.turnRun run).1.answerRun o.invocation.id (s.turnRun run).2.1 (s.turnRun run).2.2) := by
  obtain ⟨hdelivery, hctx, hcoherent⟩ := hshown
  simp only [Run.Coherent, hplaying] at hcoherent
  have hnow : t.system.ambient.now = s.now := congrArg (·.ambient.now) h.system
  have hdone : t.system.ambient.isDone o.invocation.ctx = s.system.ambient.isDone run.ctx := by
    rw [h.system, hctx]
  cases hprogress : run.delivery.progress with
  | pausing until_ failure attempts frames =>
      rw [s.turnRun_pausing hplaying hcoherent]
      unfold goOn
      rw [← hdelivery, hprogress]
      dsimp only
      rw [hnow, hdone]
      by_cases hended : s.system.ambient.isDone run.ctx = true
      · rw [if_pos hended, if_pos hended]
        exact h.follow hctx _
      · have hlive : s.system.ambient.isDone run.ctx = false := by simpa using hended
        have hdue : wakeAt until_ ≤ s.now := by
          rw [Run.isReady_pausing hplaying hprogress, hlive, Bool.or_false] at hready
          exact of_decide_eq_true hready
        rw [if_neg hended, if_neg hended, if_pos hdue, hlive]
        exact (h.noted _).follow hctx _
  | _ => simp [Run.isPausing, hprogress] at hcoherent

/-- The first turn of an invocation: its delivery begins. -/
theorem begin_ (h : t.Matches s) (i : Invocation) (hlive : s.system.ambient.isDone i.ctx = false) :
    ((t.move (.invocation i.id .pending)).attempt i (Delivery.begin .even
        t.system.ambient.now false i.task.target.stages ⟨i.ctx, i.message⟩).1).Matches
      (let begun := (s.moved (.invocation i.id .pending)).beginRun i.task.target i.ctx i.message
       begun.1.answerRun i.id begun.2.upshot []) := by
  have hmoved := (h.move (.invocation i.id .pending))
  have hambient : (s.moved (.invocation i.id .pending)).system.ambient = t.system.ambient := by
    rw [← hmoved.system, Site.move]
    simp only [System.apply]
    split <;> rfl
  have hnow : (s.moved (.invocation i.id .pending)).now = t.system.ambient.now :=
    congrArg (·.now) hambient
  simp only [Scenario.beginRun, hambient, hnow, h.system, hlive]
  exact (hmoved.noted _).follow rfl _

/-- The turn of an invocation that has something to do. -/
theorem turnInvocation (h : t.Matches s) (i : Invocation)
    (hready : s.system.ambient.isDone i.ctx = true ∨
      ∀ run, s.run? i.id = some run → run.isReady s.system.ambient = true) :
    ∃ reply cancels, (t.turn i .even reply cancels).Matches (s.turnInvocation i) := by
  have hongoing := h.ongoing i.id
  unfold Site.turn Scenario.turnInvocation
  rw [h.system]
  cases herr : s.system.ambient.err i.ctx with
  | some e =>
      refine ⟨.pending, false, ((h.same ?_).move _).forget i.id⟩
      split
      · rename_i run hrun
        cases run.playing <;> exact ⟨rfl, rfl⟩
      · exact ⟨rfl, rfl⟩
  | none =>
      have hlive : s.system.ambient.isDone i.ctx = false := by
        simp only [Ambient.isDone, Context.isDone]
        change (s.system.ambient.err i.ctx).isSome = false
        rw [herr]
        rfl
      cases ho : t.ongoing? i.id with
      | none =>
          cases hrun : s.run? i.id with
          | none => exact ⟨.pending, false, h.system ▸ h.begin_ i hlive⟩
          | some run =>
              rw [ho, hrun] at hongoing
              cases hongoing
      | some o =>
          cases hrun : s.run? i.id with
          | none =>
              rw [ho, hrun] at hongoing
              cases hongoing
          | some run =>
              rw [ho, hrun] at hongoing
              cases hongoing with
              | some hshown =>
                  have hid : o.invocation.id = i.id := by simpa using List.find?_some ho
                  have hdue := (hready.resolve_left (by simp [hlive])) run hrun
                  rw [← hid]
                  cases hplaying : run.playing with
                  | some p => exact h.act hshown hplaying hdue
                  | none => exact ⟨.pending, false, h.pause hshown hplaying hdue⟩

/-- **A scenario is a site.**  Whatever a party does at its turn, with the
bus and with the deliveries, is done by deeds of a site. -/
theorem turn (h : t.Matches s) (party : Party) (hready : s.isReady party = true) :
    ∃ deeds, (t.run deeds).Matches (s.turn party) := by
  cases party with
  | writer call => exact ⟨[.bus (.call call)], h.move _⟩
  | dispatcher => exact ⟨[.bus .dispatcher], h.move _⟩
  | watcher => exact ⟨[.bus .watcher], h.move _⟩
  | invocation id =>
      simp only [Scenario.turn]
      split
      · rename_i i hi
        have hid : i.id = id := by simpa using List.find?_some hi
        have hdue : s.system.ambient.isDone i.ctx = true ∨
            ∀ run, s.run? i.id = some run → run.isReady s.system.ambient = true := by
          simp only [Scenario.isReady, hi, Option.any_some, Bool.or_eq_true] at hready
          refine hready.imp_right fun hall run hrun => ?_
          rw [← hid, hrun] at hall
          exact hall
        obtain ⟨reply, cancels, hturn⟩ := h.turnInvocation i hdue
        have hi' : t.system.bus.invocation? id = some i := h.system ▸ hi
        refine ⟨[.turn id .even reply cancels], ?_⟩
        simp only [Site.run, List.foldl_cons, List.foldl_nil, Site.apply, hi']
        exact hturn
      · exact ⟨[], h⟩
  | canceller =>
      simp only [Scenario.turn, Scenario.turnCanceller]
      split
      · rename_i time ctx hplanned
        have hsame : s.SameStage { s with planned := s.planned.filter (time < ·.1) } := ⟨rfl, rfl⟩
        exact ⟨[.bus (.cancel ctx)], (h.same hsame).move _⟩
      · exact ⟨[], h⟩

/-- So is whatever all parties do until they have nothing to do. -/
theorem settleWithin (h : t.Matches s) (fuel : Nat) :
    ∃ deeds, (t.run deeds).Matches (s.settleWithin fuel) := by
  induction fuel generalizing s t with
  | zero => exact ⟨[], h⟩
  | succ fuel ih =>
      unfold Scenario.settleWithin
      split
      · exact ⟨[], h⟩
      · rename_i p queue hqueue
        by_cases hready : s.isReady p = true
        · obtain ⟨deeds, hturn⟩ := h.turn p hready
          have hwaiting : (s.turn p).SameStage ((s.turn p).setAlarms p) := ⟨rfl, rfl⟩
          have hroused := Scenario.rouse_same s ((s.turn p).setAlarms p)
          obtain ⟨later, hlater⟩ := ih (hturn.same (hwaiting.trans hroused))
          refine ⟨deeds ++ later, ?_⟩
          rw [if_pos hready, run_append]
          exact hlater
        · rw [if_neg hready]
          exact ih (h.same ⟨rfl, rfl⟩)

end Matches
end Site
end PubSub
