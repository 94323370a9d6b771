import PubSub.Proofs.Chain.Passage

/-!
# The order of stages

Of the stages before a handler only two kinds are in each other's way: those
that restore payloads, which may fail, and those that repeat attempts after
failures.  What the others do to an arrival they might as well do at once, and
before all the rest.  So a chain is delivered in lockstep with its core, to
which what the others do is given in advance; and two chains with one core, of
which the same is given in advance, look the same from outside.

* `Stage.core`, `Stage.settle` — the core of a chain, and what the rest does;
* `Stage.giveAll_core`, `wayOut_core` — the chain and its core;
* `Delivery.core`, `leave_core`, `enter_core` — deliveries, as far as they are
  about the core;
* `Passage.Matches`, `Route.run_matches` — lockstep with the core;
* `Node.order_run` — chains that look the same.
-/

namespace PubSub

namespace Arrival

theorem inGroup_inGroup (a : Arrival) (name : String) :
    (a.inGroup name).inGroup name = a.inGroup name := by
  unfold inGroup
  split <;> rfl

theorem inFlow_inGroup (a : Arrival) (name : String) :
    a.inFlow.inGroup name = (a.inGroup name).inFlow := by
  unfold inGroup
  split <;> rfl

theorem inFlow_inFlow (a : Arrival) : a.inFlow.inFlow = a.inFlow := rfl

end Arrival

namespace Stage

/-- Does a stage restore payloads or repeat attempts? -/
def isCore : Stage → Bool
  | .unmarshal _ => true
  | .retry _ => true
  | _ => false

/-- The stages that do. -/
def core (stages : List Stage) : List Stage := stages.filter isCore

/-- What a stage makes of an arrival, if it is none of these. -/
def turn : Stage → Arrival → Arrival
  | .group name, a => a.inGroup name
  | .correlation, a => a.inFlow
  | _, a => a

/-- What all the stages make of it that are none of these. -/
def settle (stages : List Stage) (a : Arrival) : Arrival :=
  stages.foldl (fun a stage => stage.turn a) a

variable {stage : Stage}

/-- To put the group on a message before or after its payload is restored is
the same. -/
theorem give_inGroup (decoding : Decoding) (a : Arrival) (name : String) :
    (unmarshal decoding).give (a.inGroup name) =
      ((unmarshal decoding).give a).map (·.inGroup name) := by
  simp only [give_unmarshal_eq, Arrival.inGroup_eq, Message.inGroup]
  rcases decoding.payload? a.message.stream a.message.data with _ | (e | payload) <;> rfl

/-- So is to let it begin its own flow. -/
theorem give_inFlow (decoding : Decoding) (a : Arrival) :
    (unmarshal decoding).give a.inFlow = ((unmarshal decoding).give a).map (·.inFlow) := by
  simp only [give_unmarshal_eq, Arrival.inFlow]
  rcases decoding.payload? a.message.stream a.message.data with _ | (e | payload) <;> rfl

/-- So is whatever another stage does. -/
theorem give_turn (decoding : Decoding) (stage : Stage) (a : Arrival) :
    (unmarshal decoding).give (stage.turn a) =
      ((unmarshal decoding).give a).map stage.turn := by
  cases stage with
  | group name => exact give_inGroup decoding a name
  | correlation => exact give_inFlow decoding a
  | _ =>
      simp only [turn]
      cases (unmarshal decoding).give a <;> rfl

/-- And so is all that other stages do. -/
theorem give_settle (decoding : Decoding) (stages : List Stage) (a : Arrival) :
    (unmarshal decoding).give (settle stages a) =
      ((unmarshal decoding).give a).map (settle stages) := by
  induction stages generalizing a with
  | nil =>
      rw [settle, List.foldl_nil]
      cases (unmarshal decoding).give a <;> rfl
  | cons stage stages ih =>
      refine (ih (stage.turn a)).trans ?_
      rw [give_turn]
      cases (unmarshal decoding).give a <;> rfl

/-- A stage of the core is kept, and may be passed after the others. -/
theorem cons_core (h : stage.isCore) (stages : List Stage) (a : Arrival) :
    core (stage :: stages) = stage :: core stages ∧
      settle (stage :: stages) a = settle stages a ∧
      stage.give (settle stages a) = (stage.give a).map (settle stages) := by
  refine ⟨List.filter_cons_of_pos h, ?_⟩
  cases stage with
  | unmarshal decoding => exact ⟨rfl, give_settle decoding stages a⟩
  | retry policy => exact ⟨rfl, rfl⟩
  | _ => cases h

/-- Another stage is left out, and what it does is done in advance. -/
theorem cons_rest (h : stage.isCore = false) (stages : List Stage) (a : Arrival) :
    core (stage :: stages) = core stages ∧ stage.give a = .ok (stage.turn a) := by
  refine ⟨List.filter_cons_of_neg (by simp [h]), ?_⟩
  cases stage with
  | unmarshal decoding => cases h
  | retry policy => cases h
  | group name => exact give_group name a
  | _ => rfl

/-- A chain makes of an arrival what its core makes of it when the rest is done
in advance. -/
theorem giveAll_core (stages : List Stage) (a : Arrival) :
    giveAll stages a = giveAll (core stages) (settle stages a) := by
  induction stages generalizing a with
  | nil => rfl
  | cons stage stages ih =>
      cases h : stage.isCore with
      | false =>
          obtain ⟨hcore, hgive⟩ := cons_rest h stages a
          rw [giveAll_cons_ok hgive, hcore, ih]
          rfl
      | true =>
          obtain ⟨hcore, hsettle, hlate⟩ := cons_core h stages a
          rw [hcore, hsettle]
          cases hgive : stage.give a with
          | ok given =>
              rw [hgive] at hlate
              rw [giveAll_cons_ok hgive, giveAll_cons_ok hlate, ih]
          | error e =>
              rw [hgive] at hlate
              rw [giveAll_cons_error hgive, giveAll_cons_error hlate]

end Stage

/-- A repeated attempt, as far as it is about the core. -/
def Attempts.core (again : Attempts) : Attempts :=
  { again with
    inner := Stage.core again.inner
    arrival := Stage.settle again.inner again.arrival }

/-- A frame, if it is about the core. -/
def Frame.core? : Frame → Option Frame
  | .retry again => some (.retry again.core)
  | _ => none

/-- Where a delivery stands, as far as it is about the core. -/
def Progress.core : Progress → Progress
  | .handling given frames => .handling given (frames.filterMap Frame.core?)
  | .pausing until_ failure again frames =>
      .pausing until_ failure again.core (frames.filterMap Frame.core?)
  | .finished outcome => .finished outcome

/-- A delivery, as far as it is about the core. -/
def Delivery.core (d : Delivery) : Delivery := { d with progress := d.progress.core }

namespace Stage

variable {stage : Stage} {now : Nat}

theorem frames_core (h : stage.isCore) (stages : List Stage) (a : Arrival) :
    (stage.frames now stages a).filterMap Frame.core? =
      stage.frames now (core stages) (settle stages a) := by
  cases stage with
  | unmarshal decoding => rfl
  | retry policy => rfl
  | _ => cases h

theorem frames_rest (h : stage.isCore = false) (stages : List Stage) (a : Arrival) :
    (stage.frames now stages a).filterMap Frame.core? = [] := by
  cases stage with
  | unmarshal decoding => cases h
  | retry policy => cases h
  | _ => rfl

/-- The frames of a chain, as far as they are about the core, are those of the
core. -/
theorem wayOut_core (now : Nat) (stages : List Stage) (a : Arrival) :
    (wayOut now stages a).filterMap Frame.core? = wayOut now (core stages) (settle stages a) := by
  induction stages generalizing a with
  | nil => rfl
  | cons stage stages ih =>
      cases h : stage.isCore with
      | false =>
          obtain ⟨hcore, hgive⟩ := cons_rest h stages a
          rw [wayOut_cons_ok hgive, List.filterMap_append, frames_rest h, List.append_nil, ih,
            hcore]
          rfl
      | true =>
          obtain ⟨hcore, hsettle, hlate⟩ := cons_core h stages a
          rw [hcore, hsettle]
          cases hgive : stage.give a with
          | ok given =>
              rw [hgive] at hlate
              rw [wayOut_cons_ok hgive, wayOut_cons_ok hlate, List.filterMap_append, ih,
                frames_core h]
          | error e =>
              rw [hgive] at hlate
              rw [wayOut_cons_error hgive, wayOut_cons_error hlate]
              rfl

end Stage

namespace Delivery

variable {pace : Pace} {now drawn : Nat} {ended : Bool} {outcome : Except Error Unit}

/-- On the way out, only frames that repeat attempts matter. -/
theorem leave_core (frames : List Frame) (drawn : Nat) :
    (leave pace now ended outcome drawn frames).1.core =
      (leave pace now ended outcome drawn (frames.filterMap Frame.core?)).1 := by
  induction frames generalizing drawn with
  | nil => rfl
  | cons frame frames ih =>
      cases frame with
      | tag name => exact ih drawn
      | logging span => exact ih drawn
      | retry again =>
          have hframes : (Frame.retry again :: frames).filterMap Frame.core? =
            .retry again.core :: frames.filterMap Frame.core? := rfl
          rw [hframes]
          cases outcome with
          | ok _ => exact ih drawn
          | error e =>
              have hpause : nextPause pace now ended again.core drawn =
                nextPause pace now ended again drawn := rfl
              simp only [leave, hpause]
              split
              · rfl
              · split <;> exact ih (drawn + 1)

/-- On the way in, a delivery is in lockstep with its core. -/
theorem enter_core (stages : List Stage) (a : Arrival) (frames : List Frame) :
    (enter pace now ended drawn stages a frames).1.core =
      (enter pace now ended drawn (Stage.core stages) (Stage.settle stages a)
        (frames.filterMap Frame.core?)).1 := by
  rw [enter_eq, enter_eq, ← Stage.giveAll_core, ← Stage.wayOut_core, ← List.filterMap_append]
  cases Stage.giveAll stages a with
  | ok given => rfl
  | error e => exact leave_core _ drawn

end Delivery

/-- Can it be seen outside of the chain? -/
def Sight.isOutward : Sight → Bool
  | .entered .. => false
  | _ => true

/-- Where a delivery and its core stand, the same is seen. -/
theorem Progress.sight?_core (progress : Progress) : progress.core.sight? = progress.sight? := by
  cases progress with
  | handling given frames => rfl
  | pausing until_ failure attempts frames => rfl
  | finished outcome => rfl

namespace Passage

/-- What was seen outside of the chain: the calls of the handler, its returns,
and the payloads that could not be restored. -/
def outward (p : Passage) : List Sighting := p.record.filter (·.sight.isOutward)

/-- The calls of the handler among it: when, and what was given. -/
def calls (p : Passage) : List (Nat × Arrival) :=
  p.outward.filterMap fun s =>
    match s.sight with
    | .called given => some (s.time, given)
    | _ => none

/-- The passage of the core stands where that of the chain stands, as far as
it is about the core, and both look the same from outside. -/
structure Matches (p q : Passage) : Prop where
  ambient : q.ambient = p.ambient
  delivery : q.delivery = p.delivery.core
  attempts : q.attempts = p.attempts
  outward : q.outward = p.outward
  result : q.result = p.result

variable {p q : Passage} {step step' : Delivery × List Note}

/-- Both stand at the handler, which was given the same, or neither does. -/
theorem Matches.handles (h : p.Matches q) {given : Arrival} :
    q.Handles given ↔ p.Handles given := by
  rw [Handles, Handles, h.delivery]
  cases hprogress : p.delivery.progress <;> simp [Delivery.core, hprogress, Progress.core]

theorem Matches.move (h : p.Matches q) (hstep : step'.1 = step.1.core) (seen seen' : List Sight)
    (hseen : seen'.filter Sight.isOutward = seen.filter Sight.isOutward) :
    (p.move step seen).Matches (q.move step' seen') where
  ambient := h.ambient
  delivery := hstep
  attempts := h.attempts
  outward := by
    have houtward := h.outward
    simp only [Passage.outward, Passage.move, List.filter_append, List.filter_map] at houtward ⊢
    rw [houtward, h.ambient, h.attempts]
    exact congrArg (fun seen => _ ++ List.map _ seen) hseen
  result := by
    simp only [Passage.move, hstep, h.ambient]
    cases hprogress : step.1.progress <;> simp only [Delivery.core, hprogress, Progress.core]

theorem Matches.goIn (h : p.Matches q) (hstep : step'.1 = step.1.core) (stages : List Stage)
    (given : Arrival) :
    (p.goIn stages given step).Matches
      (q.goIn (Stage.core stages) (Stage.settle stages given) step') := by
  have hafter : ({ p with attempts := p.attempts + 1 } : Passage).Matches
      { q with attempts := q.attempts + 1 } :=
    ⟨h.ambient, h.delivery, congrArg (· + 1) h.attempts, h.outward, h.result⟩
  have hentered (stages : List Stage) (given : Arrival) :
      (Stage.entrances stages given).filter Sight.isOutward = [] := by
    refine List.filter_eq_nil_iff.mpr fun s hs => ?_
    obtain ⟨stage, -, given', rfl⟩ := Stage.of_mem_entrances hs
    simp [Sight.isOutward]
  have hsight : step'.1.progress.sight? = step.1.progress.sight? := by
    rw [hstep]
    exact step.1.progress.sight?_core
  refine hafter.move hstep _ _ ?_
  rw [List.filter_append, List.filter_append, hentered, hentered, hsight]

end Passage

namespace Route

variable {r : Route} {p q : Passage}

/-- The core of the stages, before which the rest was done in advance. -/
def core (r : Route) : Route where
  stages := Stage.core r.stages
  pace := r.pace
  ctx := (Stage.settle r.stages r.arrival).ctx
  message := (Stage.settle r.stages r.arrival).message

/-- A context does not end earlier or later for what is done in advance. -/
theorem isDone_core (r : Route) (a : Ambient) : a.isDone r.core.ctx = a.isDone r.ctx := by
  have hturn (stage : Stage) (arrival : Arrival) :
      a.isDone (stage.turn arrival).ctx = a.isDone arrival.ctx := by
    cases stage with
    | group name => rw [Stage.turn, Arrival.inGroup_eq]
    | _ => rfl
  suffices hsettle : ∀ stages arrival,
      a.isDone (Stage.settle stages arrival).ctx = a.isDone arrival.ctx from hsettle _ _
  intro stages
  induction stages with
  | nil => exact fun arrival => rfl
  | cons stage stages ih => exact fun arrival => (ih _).trans (hturn stage arrival)

/-- They begin in lockstep. -/
theorem start_matches (r : Route) (a : Ambient) : (r.start a).Matches (r.core.start a) := by
  let step := Delivery.begin r.pace a.now (a.isDone r.ctx) r.stages r.arrival
  let step' := Delivery.begin r.core.pace a.now (a.isDone r.core.ctx) r.core.stages r.core.arrival
  have hstep : step'.1 = step.1.core := by
    simp only [step, step', isDone_core]
    exact (Delivery.enter_core r.stages r.arrival []).symm
  have hbefore : (⟨a, step.1, 0, [], [], none⟩ : Passage).Matches ⟨a, step'.1, 0, [], [], none⟩ :=
    ⟨rfl, hstep, rfl, rfl, rfl⟩
  exact hbefore.goIn hstep r.stages r.arrival

/-- A pause is over for both. -/
theorem isReady_core (h : p.Matches q) : r.core.isReady q = r.isReady p := by
  rw [isReady, isReady, h.delivery, h.ambient, isDone_core]
  cases hprogress : p.delivery.progress <;> simp only [Delivery.core, hprogress, Progress.core]

/-- Whatever happens, they stay in lockstep. -/
theorem apply_matches (h : p.Matches q) (happening : Happening Unit) :
    (r.apply p happening).Matches (r.core.apply q happening) := by
  have hprogress : q.delivery.progress = p.delivery.progress.core := by rw [h.delivery]; rfl
  have hdrawn : q.delivery.drawn = p.delivery.drawn := by rw [h.delivery]; rfl
  cases happening with
  | tick =>
      rw [apply, apply, isReady_core h]
      split
      · exact h
      · exact ⟨by rw [h.ambient], h.delivery, h.attempts, h.outward, h.result⟩
  | cancelled tokens =>
      exact ⟨by simp only [apply, h.ambient], h.delivery, h.attempts, h.outward, h.result⟩
  | returned outcome =>
      cases hp : p.delivery.progress with
      | handling given frames =>
          rw [hp, Progress.core] at hprogress
          simp only [apply, hp, hprogress, Delivery.returned, hdrawn, h.ambient, isDone_core]
          exact h.move (Delivery.leave_core _ _).symm _ _ rfl
      | pausing until_ failure again frames =>
          rw [hp, Progress.core] at hprogress
          simpa only [apply, hp, hprogress] using h
      | finished result =>
          rw [hp, Progress.core] at hprogress
          simpa only [apply, hp, hprogress] using h
  | wake insists =>
      cases hp : p.delivery.progress with
      | handling given frames =>
          rw [hp, Progress.core] at hprogress
          simpa only [apply, hp, hprogress] using h
      | finished result =>
          rw [hp, Progress.core] at hprogress
          simpa only [apply, hp, hprogress] using h
      | pausing until_ failure again frames =>
          rw [hp, Progress.core] at hprogress
          simp only [apply, hp, hprogress, endPause, Delivery.giveUp, Delivery.resume, hdrawn,
            h.ambient, isDone_core]
          split
          · exact h.move (Delivery.leave_core _ _).symm _ _ rfl
          split
          · exact h.goIn (Delivery.enter_core _ _ _).symm _ _
          · exact h

theorem run_matches (r : Route) (a : Ambient) (happenings : List (Happening Unit)) :
    (r.run a happenings).Matches (r.core.run a happenings) := by
  suffices hrun : ∀ p q, p.Matches q →
      (happenings.foldl r.apply p).Matches (happenings.foldl r.core.apply q) from
    hrun _ _ (r.start_matches a)
  induction happenings with
  | nil => exact fun p q h => h
  | cons happening happenings ih => exact fun p q h => ih _ _ (apply_matches h happening)

end Route

/-- Does a behavior restore payloads or repeat attempts? -/
def Behavior.isCore : Behavior → Bool
  | .unmarshal => true
  | .retry => true
  | _ => false

namespace Node

variable {δ : Type}

/-- The core of the stages of a node is made of the behaviors in the core. -/
theorem core_ready (n : Node δ) (decoding : Decoding) (behaviors : List Behavior) :
    Stage.core (behaviors.map (n.ready decoding)) =
      (behaviors.filter Behavior.isCore).map (n.ready decoding) := by
  have hready : Stage.isCore ∘ n.ready decoding = Behavior.isCore := by
    funext behavior
    cases behavior <;> rfl
  rw [Stage.core, List.filter_map, hready]

/-- The rest is done once for all, wherever it stands and however often. -/
theorem settle_ready (n : Node δ) (decoding : Decoding) (behaviors : List Behavior) (a : Arrival) :
    Stage.settle (behaviors.map (n.ready decoding)) a =
      let grouped := if .group ∈ behaviors then a.inGroup n.group else a
      if .correlation ∈ behaviors then grouped.inFlow else grouped := by
  induction behaviors generalizing a with
  | nil => rfl
  | cons behavior behaviors ih =>
      cases behavior with
      | group =>
          refine (ih (a.inGroup n.group)).trans ?_
          simp [Arrival.inGroup_inGroup]
      | correlation =>
          refine (ih a.inFlow).trans ?_
          by_cases hgroup : .group ∈ behaviors <;>
            simp [hgroup, Arrival.inFlow_inGroup, Arrival.inFlow_inFlow]
      | _ => exact (ih a).trans (by simp)

/-- **Only the order in which payloads are restored and attempts repeated
matters**: if two chains have these behaviors in the same order, and both or
neither put the group on messages, and both or neither let messages begin their
own flow, then the handler is called at the same times with the same message in
the same context, the deliveries come to the same at the same time, and at any
time both stand at the handler or neither does. -/
theorem order_run (stream handler : String) (decoding : Decoding) (o : ReaderOptions δ)
    {behaviors others : List Behavior}
    (hcore : behaviors.filter Behavior.isCore = others.filter Behavior.isCore)
    (hgroup : .group ∈ behaviors ↔ .group ∈ others)
    (hcorrelation : .correlation ∈ behaviors ↔ .correlation ∈ others)
    (pace : Pace) (ctx : Context) (message : Message) (a : Ambient)
    (happenings : List (Happening Unit)) :
    let p := ((fork stream handler decoding behaviors o).route pace ctx message).run a happenings
    let q := ((fork stream handler decoding others o).route pace ctx message).run a happenings
    p.calls = q.calls ∧ p.outward = q.outward ∧ p.result = q.result ∧
      ∀ given, p.Handles given ↔ q.Handles given := by
  intro p q
  let n := fork stream handler decoding behaviors o
  have hstages (behaviors : List Behavior) :
      (fork stream handler decoding behaviors o).target.stages =
        behaviors.reverse.map (n.ready decoding) :=
    fork_stages stream handler decoding behaviors o
  have hsame : ((fork stream handler decoding behaviors o).route pace ctx message).core =
      ((fork stream handler decoding others o).route pace ctx message).core := by
    have hleft : Stage.core (behaviors.reverse.map (n.ready decoding)) =
        Stage.core (others.reverse.map (n.ready decoding)) := by
      rw [core_ready, core_ready, List.filter_reverse, List.filter_reverse, hcore]
    have hsettled : Stage.settle (behaviors.reverse.map (n.ready decoding)) ⟨ctx, message⟩ =
        Stage.settle (others.reverse.map (n.ready decoding)) ⟨ctx, message⟩ := by
      simp only [settle_ready, List.mem_reverse, hgroup, hcorrelation]
    simp only [Route.core, route, Route.arrival, hstages, hleft, hsettled]
  -- both are in lockstep with the one core
  have hp := Route.run_matches
    ((fork stream handler decoding behaviors o).route pace ctx message) a happenings
  have hq := Route.run_matches
    ((fork stream handler decoding others o).route pace ctx message) a happenings
  rw [← hsame] at hq
  have houtward : p.outward = q.outward := hp.outward.symm.trans hq.outward
  refine ⟨?_, houtward, hp.result.symm.trans hq.result,
    fun given => hp.handles.symm.trans hq.handles⟩
  rw [Passage.calls, Passage.calls, houtward]

/-- The group is put on inside of the repetition or outside, the outcome is
reported or not: an order that is a stranger to the registry is handled at the
second attempt. -/
theorem order_run_standard :
    let behaviors := [.group, .unmarshal, .logging, .retry, .correlation, .group]
    let node (behaviors : List Behavior) : Node Unit :=
      fork "orders" "bill" ⟨.empty, .json, none⟩ behaviors
        { ReaderOptions.unset with group := some "billing" }
    let message := Message.compose ⟨"m-1", "shop", "orders", 1, [], none, none, none, none⟩
      ⟨⟨1970, 1, 1⟩, 0, 0, 0, 0⟩
    let run (behaviors : List Behavior) :=
      ((node behaviors).route (fun _ _ _ => 500000) ⟨[0], none, none, none⟩ message).run
        ⟨0, ⟨1, []⟩⟩ [.returned (.error (.handler "busy")), .tick, .wake true, .returned (.ok ())]
    behaviors.filter Behavior.isCore = Behavior.standard.filter Behavior.isCore ∧
      (.group ∈ behaviors ↔ .group ∈ Behavior.standard) ∧
      (.correlation ∈ behaviors ↔ .correlation ∈ Behavior.standard) ∧
      (run behaviors).calls = (run Behavior.standard).calls ∧
      (run behaviors).calls.map (·.1) = [0, 1] := by
  intro behaviors node message run
  have hcore : behaviors.filter Behavior.isCore = Behavior.standard.filter Behavior.isCore := rfl
  have hgroup : .group ∈ behaviors ↔ .group ∈ Behavior.standard := by decide
  have hcorrelation : .correlation ∈ behaviors ↔ .correlation ∈ Behavior.standard := by decide
  refine ⟨hcore, hgroup, hcorrelation, ?_, by decide +kernel⟩
  exact (order_run "orders" "bill" ⟨.empty, .json, none⟩ _ hcore hgroup hcorrelation _ _ _ _ _).1

end Node
end PubSub
