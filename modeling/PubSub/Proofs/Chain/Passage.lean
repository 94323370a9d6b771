import PubSub.Proofs.Chain.Inward
import PubSub.Proofs.Retry.Course
import PubSub.Reader.Node

/-!
# A message on its way

A message is delivered through any stages to a handler.  Around the delivery
the clock goes on, a millisecond at a time, tokens are cancelled, and the
handler returns, whenever that may be and with whatever outcome.  Time does
not pass a pause that is over, nor a pause whose context has ended; if both
happen in one millisecond, either may be noticed first.

All that can be seen of the delivery is written down.  Every time it goes in,
at first or after a pause, an attempt begins, and where the delivery stands then
says how going in has ended.

* `Route`, `Passage` — a message before its stages, and how far it has come;
* `Route.start`, `Route.apply`, `Route.run` — what happens to it;
* `Route.Step`, `Route.apply_step` — all that can become of a passage;
* `Route.run_keeps` — what every step keeps, a run keeps;
* `Passage.goIn_eq` — what is seen of an attempt;
* `Route.handles_run` — where a delivery stands, and what was seen last;
* `Passage.Attested`, `Route.attested_run` — the delivery bears out the record;
* `Node.route`, `Node.fork_stages` — the message before the stages of a node.
-/

namespace PubSub

/-- A message that is to be delivered: the stages before the handler, the
outermost first, the pauses that are drawn, and the context. -/
structure Route where
  stages : List Stage
  pace : Pace
  ctx : Context
  message : Message

/-- Something that was seen of a delivery: when, and in which attempt. -/
structure Sighting where
  time : Nat
  attempt : Nat
  sight : Sight

/-- How far a message has come.  What was seen and what was told is listed in
its order. -/
structure Passage where
  ambient : Ambient
  delivery : Delivery
  /-- How many attempts have begun. -/
  attempts : Nat
  record : List Sighting
  told : List Note
  /-- What the delivery has come to, and when. -/
  result : Option (Nat × Except Error Unit)

namespace Passage

/-- The passage after its delivery has moved. -/
def move (p : Passage) (step : Delivery × List Note) (seen : List Sight) : Passage :=
  { p with
    delivery := step.1
    record := p.record ++ seen.map (⟨p.ambient.now, p.attempts, ·⟩)
    told := p.told ++ step.2
    result :=
      match step.1.progress with
      | .finished outcome => some (p.ambient.now, outcome)
      | _ => none }

/-- The passage after its delivery has gone in once more, through stages to
where it stands now.  That the stages are those which were entered is what their
tags tell. -/
def goIn (p : Passage) (stages : List Stage) (given : Arrival) (step : Delivery × List Note) :
    Passage :=
  { p with attempts := p.attempts + 1 }.move step
    (Stage.entrances stages given ++ step.1.progress.sight?.toList)

/-- What was seen. -/
def sights (p : Passage) : List Sight := p.record.map (·.sight)

/-- The delivery stands at the handler, which was given this. -/
def Handles (p : Passage) (given : Arrival) : Prop :=
  ∃ frames, p.delivery.progress = .handling given frames

/-- The handler was called last, in the present attempt, and given this. -/
def HasCalled (p : Passage) (given : Arrival) : Prop :=
  ∃ before t, p.record = before ++ [⟨t, p.attempts, .called given⟩]

/-- So that is the last of whatever includes the calls of the handler. -/
theorem HasCalled.getLast? {p : Passage} {given : Arrival} (h : p.HasCalled given)
    {f : Sight → Bool} (hf : f (.called given)) :
    (p.sights.filter f).getLast? = some (.called given) := by
  obtain ⟨before, t, hrecord⟩ := h
  rw [sights, hrecord, List.map_append, List.filter_append, List.map_singleton,
    List.filter_cons_of_pos hf, List.filter_nil, List.getLast?_concat]

/-- The lines with which tags tell that they are entered, in their order. -/
def lines (p : Passage) : List Note := p.sights.flatMap Sight.notes

/-- A move adds what is seen of it. -/
theorem sights_move (p : Passage) (step : Delivery × List Note) (seen : List Sight) :
    (p.move step seen).sights = p.sights ++ seen := by
  simp only [sights, move, List.map_append, List.map_map]
  exact congrArg (_ ++ ·) (List.map_id _)

/-- Whether it was called last is read off what was seen last. -/
theorem hasCalled_iff {p : Passage} {before : List Sighting} {s : Sighting} {given : Arrival}
    (h : p.record = before ++ [s]) :
    p.HasCalled given ↔ s.attempt = p.attempts ∧ s.sight = .called given := by
  constructor
  · intro hcalled
    obtain ⟨before', t, hrecord⟩ := hcalled
    have hlast := congrArg List.getLast? (h.symm.trans hrecord)
    simp only [List.getLast?_concat, Option.some.injEq] at hlast
    rw [hlast]
    exact ⟨rfl, rfl⟩
  · intro hlast
    obtain ⟨hattempt, hsight⟩ := hlast
    exact ⟨before, s.time, by rw [h, ← hattempt, ← hsight]⟩

end Passage

namespace Route

variable (r : Route)

/-- What is passed to the first stage. -/
def arrival : Arrival := ⟨r.ctx, r.message⟩

/-- The delivery begins. -/
def start (a : Ambient) : Passage :=
  let step := Delivery.begin r.pace a.now (a.isDone r.ctx) r.stages r.arrival
  (⟨a, step.1, 0, [], [], none⟩ : Passage).goIn r.stages r.arrival step

/-- Is a pause over, or has its context ended? -/
def isReady (p : Passage) : Bool :=
  match p.delivery.progress with
  | .pausing until_ .. => decide (wakeAt until_ ≤ p.ambient.now) || p.ambient.isDone r.ctx
  | _ => false

/-- The passage after a pause has come to its end, one way or the other. -/
def endPause (p : Passage) (until_ : Nat) (attempts : Attempts) (insists : Bool) : Passage :=
  let ended := p.ambient.isDone r.ctx
  let due := decide (wakeAt until_ ≤ p.ambient.now)
  if ended && !(due && insists) then p.move (p.delivery.giveUp r.pace p.ambient.now) []
  else if due then
    p.goIn attempts.inner attempts.arrival (p.delivery.resume r.pace p.ambient.now ended)
  else p

/-- The passage after something has happened.  What cannot happen now changes
nothing. -/
def apply (p : Passage) : Happening Unit → Passage
  | .tick =>
      if r.isReady p then p
      else { p with ambient := { p.ambient with now := p.ambient.now + 1 } }
  | .cancelled tokens =>
      { p with ambient := ⟨p.ambient.now,
        { p.ambient.tokens with cancelled := tokens ++ p.ambient.tokens.cancelled }⟩ }
  | .returned outcome =>
      match p.delivery.progress with
      | .handling .. =>
          p.move (p.delivery.returned r.pace p.ambient.now (p.ambient.isDone r.ctx) outcome)
            [.answered outcome]
      | _ => p
  | .wake insists =>
      match p.delivery.progress with
      | .pausing until_ _ attempts _ => r.endPause p until_ attempts insists
      | _ => p

/-- The passage after many things have happened. -/
def run (a : Ambient) (happenings : List (Happening Unit)) : Passage :=
  happenings.foldl r.apply (r.start a)

/-- What can become of a passage in one step. -/
inductive Step (p : Passage) : Passage → Prop where
  /-- The surroundings have changed, if anything. -/
  | surrounded (a : Ambient) : Step p { p with ambient := a }
  /-- The handler has returned. -/
  | answered {given : Arrival} {frames : List Frame}
      (progress : p.delivery.progress = .handling given frames) (ended : Bool)
      (outcome : Except Error Unit) :
      Step p (p.move
        (Delivery.leave r.pace p.ambient.now ended outcome p.delivery.drawn frames)
        [.answered outcome])
  /-- The context has ended during a pause. -/
  | gaveUp {until_ : Nat} {failure : Error} {attempts : Attempts} {frames : List Frame}
      (progress : p.delivery.progress = .pausing until_ failure attempts frames) :
      Step p (p.move
        (Delivery.leave r.pace p.ambient.now true (.error failure) p.delivery.drawn frames) [])
  /-- A pause is over. -/
  | resumed {until_ : Nat} {failure : Error} {attempts : Attempts} {frames : List Frame}
      (progress : p.delivery.progress = .pausing until_ failure attempts frames)
      (ended : Bool) :
      Step p (p.goIn attempts.inner attempts.arrival
        (Delivery.enter r.pace p.ambient.now ended p.delivery.drawn attempts.inner
          attempts.arrival (.retry attempts :: frames)))

variable {r}

/-- Whatever happens, it is one of these. -/
theorem apply_step (p : Passage) (happening : Happening Unit) :
    r.Step p (r.apply p happening) := by
  have hstill : r.Step p p := .surrounded p.ambient
  cases happening with
  | tick =>
      rw [apply]
      split
      · exact hstill
      · exact .surrounded _
  | cancelled tokens => exact .surrounded _
  | returned outcome =>
      cases hprogress : p.delivery.progress with
      | handling given frames =>
          simp only [apply, hprogress, Delivery.returned]
          exact .answered hprogress _ outcome
      | pausing until_ failure attempts frames => simpa only [apply, hprogress] using hstill
      | finished result => simpa only [apply, hprogress] using hstill
  | wake insists =>
      cases hprogress : p.delivery.progress with
      | handling given frames => simpa only [apply, hprogress] using hstill
      | finished result => simpa only [apply, hprogress] using hstill
      | pausing until_ failure attempts frames =>
          simp only [apply, hprogress, endPause, Delivery.giveUp, Delivery.resume]
          split
          · exact .gaveUp hprogress
          split
          · exact .resumed hprogress _
          · exact hstill

/-- What holds at the beginning and is kept by every step, holds at any
time. -/
theorem run_keeps {P : Passage → Prop} {a : Ambient} (hstart : P (r.start a))
    (hstep : ∀ {p p' : Passage}, P p → r.Step p p' → P p') (happenings : List (Happening Unit)) :
    P (r.run a happenings) := by
  suffices hrun : ∀ p, P p → P (happenings.foldl r.apply p) from hrun _ hstart
  induction happenings with
  | nil => exact fun p hp => hp
  | cons happening happenings ih =>
      exact fun p hp => ih _ (hstep hp (apply_step p happening))

end Route

/-- On the way out, a delivery does not come to the handler. -/
theorem Delivery.leave_ne_handling {pace : Pace} {now drawn : Nat} {ended : Bool}
    {outcome : Except Error Unit} {frames frames' : List Frame} {given : Arrival} :
    (leave pace now ended outcome drawn frames).1.progress ≠ .handling given frames' := by
  intro h
  rcases leave_cases pace now ended outcome drawn frames with
    hfinished | ⟨_, _, _, _, _, -, -, hpausing⟩
  · cases hfinished.symm.trans h
  · cases hpausing.symm.trans h

namespace Passage

variable {p : Passage} {step : Delivery × List Note} {stages : List Stage} {a given : Arrival}
  {pace : Pace} {now drawn : Nat} {ended : Bool} {frames : List Frame}

/-- What is seen of going in is what the stages make of the arrival. -/
theorem goIn_eq (hstep : step.1 = (Delivery.enter pace now ended drawn stages a frames).1) :
    p.goIn stages a step =
      { p with attempts := p.attempts + 1 }.move step (Stage.seen stages a) := by
  rw [goIn, hstep, Delivery.enter_sight?]
  rfl

/-- At its end stands the handler, or the failure of a stage. -/
theorem goIn_record (hstep : step.1 = (Delivery.enter pace now ended drawn stages a frames).1) :
    (p.goIn stages a step).record =
      (p.record ++ (Stage.entrances stages a).map (⟨p.ambient.now, p.attempts + 1, ·⟩)) ++
        [⟨p.ambient.now, p.attempts + 1, .arrived (Stage.giveAll stages a)⟩] := by
  rw [goIn_eq hstep]
  simp [move, Stage.seen]

/-- Having gone in, a delivery stands at the handler exactly if it has called it
last. -/
theorem goIn_handles_iff
    (hstep : step.1 = (Delivery.enter pace now ended drawn stages a frames).1) :
    (p.goIn stages a step).Handles given ↔ (p.goIn stages a step).HasCalled given := by
  have hhandles : (p.goIn stages a step).Handles given ↔ Stage.giveAll stages a = .ok given := by
    rw [← Delivery.enter_handles_iff pace now ended drawn stages a frames, ← hstep]
    rfl
  rw [hhandles, hasCalled_iff (goIn_record hstep)]
  cases Stage.giveAll stages a with
  | ok given' => simp [Sight.arrived, goIn, move]
  | error e => simp [Sight.arrived]

/-- A move tells the lines of what is seen of it. -/
theorem lines_move (h : p.told.filter Note.isEntry = p.lines) {seen : List Sight}
    (hseen : step.2.filter Note.isEntry = seen.flatMap Sight.notes) :
    (p.move step seen).told.filter Note.isEntry = (p.move step seen).lines := by
  rw [lines, sights_move, List.flatMap_append, ← hseen]
  exact (List.filter_append _ _).trans (congrArg (· ++ _) h)

/-- So does going in once more. -/
theorem lines_goIn (h : p.told.filter Note.isEntry = p.lines)
    (hstep : step = Delivery.enter pace now ended drawn stages given frames) :
    (p.goIn stages given step).told.filter Note.isEntry = (p.goIn stages given step).lines := by
  rw [goIn_eq (congrArg Prod.fst hstep)]
  refine lines_move (p := { p with attempts := p.attempts + 1 }) h ?_
  have harrived : (Sight.arrived (Stage.giveAll stages given)).notes = [] := by
    cases Stage.giveAll stages given <;> rfl
  rw [hstep, Delivery.enter_entries, Stage.seen, List.flatMap_append, List.flatMap_singleton,
    harrived, List.append_nil]

end Passage

/-- **A delivery stands at the handler exactly if it has called it last.** -/
theorem Route.handles_run (r : Route) (a : Ambient) (happenings : List (Happening Unit))
    (given : Arrival) :
    (r.run a happenings).Handles given ↔ (r.run a happenings).HasCalled given := by
  refine r.run_keeps (P := fun p => ∀ given, p.Handles given ↔ p.HasCalled given)
    (fun given => Passage.goIn_handles_iff rfl) (fun {p p'} hp hstep => ?_) happenings given
  cases hstep with
  | surrounded a => exact hp
  | answered progress ended outcome =>
      -- the last that was seen is the return of the handler
      intro given
      refine iff_of_false (fun ⟨_, h⟩ => Delivery.leave_ne_handling h) fun h => ?_
      cases ((Passage.hasCalled_iff rfl).mp h).2
  | gaveUp progress =>
      intro given
      refine iff_of_false (fun ⟨_, h⟩ => Delivery.leave_ne_handling h) fun hcalled => ?_
      obtain ⟨before, t, hrecord⟩ := hcalled
      have hbefore : p.HasCalled given := ⟨before, t, (List.append_nil _).symm.trans hrecord⟩
      obtain ⟨frames, hhandling⟩ := (hp given).mpr hbefore
      cases progress.symm.trans hhandling
  | resumed progress ended => exact fun given => Passage.goIn_handles_iff rfl

/-- The lines of the tags that are entered are told, and no others. -/
theorem Route.lines_run (r : Route) (a : Ambient) (happenings : List (Happening Unit)) :
    (r.run a happenings).told.filter Note.isEntry = (r.run a happenings).lines := by
  refine r.run_keeps (P := fun p => p.told.filter Note.isEntry = p.lines)
    (Passage.lines_goIn rfl rfl) (fun {p p'} h hstep => ?_) happenings
  cases hstep with
  | surrounded a => exact h
  | answered progress ended outcome =>
      exact Passage.lines_move h (Delivery.leave_entries _ _ _ _ _ _)
  | gaveUp progress => exact Passage.lines_move h (Delivery.leave_entries _ _ _ _ _ _)
  | resumed progress ended => exact Passage.lines_goIn h rfl

/-- The delivery bears out what was written down of it. -/
structure Passage.Attested (p : Passage) : Prop where
  /-- The lines of the tags that were entered are told, and no others. -/
  told : p.told.filter Note.isEntry = p.lines
  /-- The delivery stands at the handler if and only if it has called it last. -/
  present {given : Arrival} : p.Handles given ↔ p.HasCalled given

theorem Route.attested_run (r : Route) (a : Ambient) (happenings : List (Happening Unit)) :
    (r.run a happenings).Attested :=
  ⟨r.lines_run a happenings, r.handles_run a happenings _⟩

namespace Node

variable {δ : Type}

/-- A message that is to be delivered to the handler of a node. -/
def route (n : Node δ) (pace : Pace) (ctx : Context) (message : Message) : Route :=
  ⟨n.target.stages, pace, ctx, message⟩

/-- A behavior made ready for a node. -/
def ready (n : Node δ) (decoding : Decoding) : Behavior → Stage :=
  Behavior.ready decoding n.group (.ofSpans n.initialInterval n.maxInterval n.timeout)

/-- The stages before the handler of a node are its behaviors from the last to
the first. -/
theorem fork_stages (stream handler : String) (decoding : Decoding) (behaviors : List Behavior)
    (o : ReaderOptions δ) :
    let n := fork stream handler decoding behaviors o
    n.target.stages = behaviors.reverse.map (n.ready decoding) :=
  List.map_reverse.symm

end Node
end PubSub
