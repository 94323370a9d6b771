import PubSub.Proofs.Chain.Passage

/-!
# Rounds

A stage that repeats attempts divides the stages of a chain.  Those outside
of it are passed once, and what they make of the message is kept.  Those
inside of it, and the handler, are passed in every attempt, and every attempt
is given what was kept.  In which order a chain is passed does not depend on
the attempt: stages follow each other from the last to the first, up to the
handler or to one that fails.

* `Stage.Ordered`, `entrances_ordered` — stages are passed in their order;
* `Passage.Once`, `Once.next` — chains that do not repeat attempts;
* `Passage.Rounds`, `Rounds.next` — chains that do;
* `Stage.block`, `Passage.Divided` — what is entered;
* `Node.rounds_run` — for any stages around a repetition.
-/

namespace PubSub

namespace Sight

/-- Is the handler called, or a stage entered other than one that repeats
attempts? -/
def isEntry : Sight → Bool
  | .entered (.retry _) _ => false
  | .entered _ _ => true
  | .called _ => true
  | _ => false

/-- The stage that is entered. -/
def stage? : Sight → Option Stage
  | .entered stage _ => some stage
  | _ => none

end Sight

/-- Does a stage repeat attempts? -/
def Stage.isRetry : Stage → Bool
  | .retry _ => true
  | _ => false

namespace Stage

variable {outer inner stages : List Stage} {a given : Arrival} {e : Error}

/-- Stages are entered in their order, each of them once: all of them, or
those up to one that cannot restore the payload. -/
structure Ordered (stages : List Stage) (a : Arrival) : Prop where
  whole {given : Arrival} (h : giveAll stages a = .ok given) :
    (entrances stages a).map Sight.stage? = stages.map some
  cut {e : Error} (h : giveAll stages a = .error e) :
    ∃ before decoding after given, stages = before ++ Stage.unmarshal decoding :: after ∧
      giveAll before a = .ok given ∧ decoding.restore given.message = .error e ∧
      (entrances stages a).map Sight.stage? = (before ++ [Stage.unmarshal decoding]).map some
  /-- Each is entered with what a handler in its place would be called with. -/
  inPlace {k : Nat} {stage : Stage} {given : Arrival} :
    (entrances stages a)[k]? = some (.entered stage given) ↔ stages[k]? = some stage ∧
      ∀ pace now ended drawn frames, ∃ left,
        (Delivery.enter pace now ended drawn (stages.take k) a frames).1.progress =
          .handling given left

theorem entrances_whole (h : giveAll stages a = .ok given) :
    (entrances stages a).map Sight.stage? = stages.map some := by
  induction stages generalizing a with
  | nil => rfl
  | cons stage stages ih =>
      obtain ⟨next, hgive, hrest⟩ := of_giveAll_ok h
      rw [entrances_cons_ok hgive, List.map_cons, List.map_cons, ih hrest]
      rfl

theorem entrances_cut (h : giveAll stages a = .error e) :
    ∃ before decoding after given, stages = before ++ Stage.unmarshal decoding :: after ∧
      giveAll before a = .ok given ∧ decoding.restore given.message = .error e ∧
      (entrances stages a).map Sight.stage? =
        (before ++ [Stage.unmarshal decoding]).map some := by
  induction stages generalizing a with
  | nil => cases h
  | cons stage stages ih =>
      rcases of_giveAll_error h with hgive | ⟨next, hgive, hrest⟩
      · obtain ⟨decoding, rfl, hrestore⟩ := give_error hgive
        refine ⟨[], decoding, stages, a, rfl, rfl, hrestore, ?_⟩
        rw [entrances_cons_error hgive]
        rfl
      · obtain ⟨before, decoding, after, given, rfl, hbefore, hrestore, hentered⟩ := ih hrest
        refine ⟨stage :: before, decoding, after, given, rfl, ?_, hrestore, ?_⟩
        · rw [giveAll_cons_ok hgive, hbefore]
        · rw [entrances_cons_ok hgive, List.map_cons, hentered]
          rfl

/-- A stage is entered with what those before it make of the arrival. -/
theorem entrances_getElem? {stage : Stage} {k : Nat} :
    (entrances stages a)[k]? = some (.entered stage given) ↔
      stages[k]? = some stage ∧ giveAll (stages.take k) a = .ok given := by
  induction stages generalizing a k with
  | nil => simp [entrances]
  | cons first stages ih =>
      cases k with
      | zero => simp [entrances, giveAll]
      | succ k =>
          cases hgive : first.give a with
          | ok next =>
              rw [entrances_cons_ok hgive, List.take_succ_cons, giveAll_cons_ok hgive]
              exact ih
          | error e =>
              rw [entrances_cons_error hgive, List.take_succ_cons, giveAll_cons_error hgive]
              simp

theorem entrances_ordered (stages : List Stage) (a : Arrival) : Ordered stages a where
  whole := entrances_whole
  cut := entrances_cut
  inPlace := by
    intro k stage given
    rw [entrances_getElem?]
    refine and_congr_right fun _ => ⟨fun h pace now ended drawn frames => ?_, fun h => ?_⟩
    · exact (Delivery.enter_handles_iff _ _ _ _ _ _ _).mpr h
    · exact (Delivery.enter_handles_iff (fun _ _ _ => 0) 0 false 0 _ _ []).mp (h _ _ _ _ _)

theorem entrances_append_ok (h : giveAll outer a = .ok given) :
    entrances (outer ++ inner) a = entrances outer a ++ entrances inner given := by
  induction outer generalizing a with
  | nil =>
      cases h
      rfl
  | cons stage stages ih =>
      obtain ⟨next, hgive, hrest⟩ := of_giveAll_ok h
      rw [List.cons_append, entrances_cons_ok hgive, entrances_cons_ok hgive, ih hrest,
        List.cons_append]

theorem entrances_append_error (h : giveAll outer a = .error e) :
    entrances (outer ++ inner) a = entrances outer a := by
  induction outer generalizing a with
  | nil => cases h
  | cons stage stages ih =>
      rcases of_giveAll_error h with hgive | ⟨next, hgive, hrest⟩
      · rw [List.cons_append, entrances_cons_error hgive, entrances_cons_error hgive]
      · rw [List.cons_append, entrances_cons_ok hgive, entrances_cons_ok hgive, ih hrest]

/-- After outer stages, the inner ones are seen with what those have made. -/
theorem seen_append_ok (h : giveAll outer a = .ok given) :
    seen (outer ++ inner) a = entrances outer a ++ seen inner given := by
  rw [seen, seen, entrances_append_ok h, giveAll_append, h, List.append_assoc]
  rfl

/-- After an outer stage has failed, they are not seen at all. -/
theorem seen_append_error (h : giveAll outer a = .error e) :
    seen (outer ++ inner) a = seen outer a := by
  rw [seen, seen, entrances_append_error h, giveAll_append, h]
  rfl

theorem seen_retry (policy : RetryPolicy) (inner : List Stage) (a : Arrival) :
    seen (.retry policy :: inner) a = .entered (.retry policy) a :: seen inner a := by
  rw [seen, seen, entrances_cons_ok (give_retry policy a), giveAll_cons_ok (give_retry policy a),
    List.cons_append]

end Stage

/-- The attempt that a frame repeats. -/
def Frame.again? : Frame → Option Attempts
  | .retry again => some again
  | _ => none

/-- Nothing will be repeated. -/
def Progress.IsLast : Progress → Prop
  | .handling _ frames => frames.filterMap Frame.again? = []
  | .pausing .. => False
  | .finished _ => True

/-- Nothing will be repeated but the inner stages, with what they are given.
Of their attempts, so many have begun. -/
def Progress.Repeats (policy : RetryPolicy) (inner : List Stage) (given : Arrival) (n : Nat) :
    Progress → Prop
  | .handling _ frames =>
      ∃ began, frames.filterMap Frame.again? = [⟨policy, n, began, inner, given⟩]
  | .pausing _ _ again frames =>
      (∃ began, again = ⟨policy, n + 1, began, inner, given⟩) ∧
        frames.filterMap Frame.again? = []
  | .finished _ => True

namespace Stage

variable {outer inner stages : List Stage} {policy : RetryPolicy} {a given : Arrival} {e : Error}
  {now : Nat}

/-- A stage that does not repeat attempts leaves no frame that does. -/
theorem frames_again? {stage : Stage} (h : stage.isRetry = false) (stages : List Stage)
    (a : Arrival) : (stage.frames now stages a).filterMap Frame.again? = [] := by
  cases stage with
  | retry policy => cases h
  | _ => rfl

/-- So outer stages leave none, and the others are left by the inner stages. -/
theorem wayOut_append_ok (houter : ∀ stage ∈ outer, stage.isRetry = false)
    (h : giveAll outer a = .ok given) :
    (wayOut now (outer ++ inner) a).filterMap Frame.again? =
      (wayOut now inner given).filterMap Frame.again? := by
  induction outer generalizing a with
  | nil =>
      cases h
      rfl
  | cons stage stages ih =>
      obtain ⟨hstage, hstages⟩ := List.forall_mem_cons.mp houter
      obtain ⟨next, hgive, hrest⟩ := of_giveAll_ok h
      rw [List.cons_append, wayOut_cons_ok hgive, List.filterMap_append, ih hstages hrest,
        frames_again? hstage, List.append_nil]

theorem wayOut_append_error (houter : ∀ stage ∈ outer, stage.isRetry = false)
    (h : giveAll outer a = .error e) :
    (wayOut now (outer ++ inner) a).filterMap Frame.again? = [] := by
  induction outer generalizing a with
  | nil => cases h
  | cons stage stages ih =>
      obtain ⟨hstage, hstages⟩ := List.forall_mem_cons.mp houter
      rcases of_giveAll_error h with hgive | ⟨next, hgive, hrest⟩
      · rw [List.cons_append, wayOut_cons_error hgive]
        rfl
      · rw [List.cons_append, wayOut_cons_ok hgive, List.filterMap_append, ih hstages hrest,
          frames_again? hstage, List.append_nil]

theorem wayOut_again? (honce : ∀ stage ∈ stages, stage.isRetry = false) (a : Arrival) :
    (wayOut now stages a).filterMap Frame.again? = [] := by
  rw [← List.append_nil stages]
  cases hgiven : giveAll stages a with
  | ok given => exact wayOut_append_ok honce hgiven
  | error e => exact wayOut_append_error honce hgiven

/-- The one stage that repeats attempts leaves the one frame that does. -/
theorem wayOut_retry_again? (hinner : ∀ stage ∈ inner, stage.isRetry = false) :
    (wayOut now (.retry policy :: inner) given).filterMap Frame.again? =
      [⟨policy, 1, now, inner, given⟩] := by
  rw [wayOut_cons_ok (give_retry policy given), List.filterMap_append, wayOut_again? hinner]
  rfl

end Stage

namespace Delivery

variable {pace : Pace} {now drawn n began : Nat} {ended : Bool} {outcome : Except Error Unit}
  {stages inner : List Stage} {policy : RetryPolicy} {a given : Arrival} {frames : List Frame}

/-- Without a frame that repeats attempts, going out comes to an end. -/
theorem leave_isLast (h : frames.filterMap Frame.again? = []) :
    (leave pace now ended outcome drawn frames).1.progress = .finished outcome := by
  rcases leave_cases pace now ended outcome drawn frames with
    hfinished | ⟨before, again, rest, until_, e, rfl, -, -⟩
  · exact hfinished
  · simp [Frame.again?] at h

/-- With one such frame, its attempts go on or are over. -/
theorem leave_repeats
    (h : frames.filterMap Frame.again? = [⟨policy, n, began, inner, given⟩]) :
    (leave pace now ended outcome drawn frames).1.progress.Repeats policy inner given n := by
  rcases leave_cases pace now ended outcome drawn frames with
    hfinished | ⟨before, again, rest, until_, e, rfl, -, hpausing⟩
  · rw [hfinished]
    trivial
  · have hagain : (Frame.retry again :: rest).filterMap Frame.again? =
        again :: rest.filterMap Frame.again? := rfl
    rw [List.filterMap_append, hagain] at h
    rcases List.append_eq_singleton_iff.mp h with ⟨-, hone⟩ | ⟨-, hnone⟩
    · obtain ⟨rfl, hrest⟩ := List.cons.inj hone
      rw [hpausing]
      exact ⟨⟨began, rfl⟩, hrest⟩
    · cases hnone

/-- Where a delivery stands when it has gone in through stages that do not
repeat attempts. -/
theorem enter_isLast (h : ((Stage.wayOut now stages a) ++ frames).filterMap Frame.again? = []) :
    (enter pace now ended drawn stages a frames).1.progress.IsLast := by
  rw [enter_eq]
  cases Stage.giveAll stages a with
  | ok given => exact h
  | error e =>
      rw [reach, leave_isLast h]
      trivial

/-- Where it stands when one of them does. -/
theorem enter_repeats (h : ((Stage.wayOut now stages a) ++ frames).filterMap Frame.again? =
      [⟨policy, n, began, inner, given⟩]) :
    (enter pace now ended drawn stages a frames).1.progress.Repeats policy inner given n := by
  rw [enter_eq]
  cases Stage.giveAll stages a with
  | ok given' => exact ⟨began, h⟩
  | error e => exact leave_repeats h

end Delivery

namespace Passage

variable {p p' : Passage} {r : Route} {step : Delivery × List Note} {stages : List Stage}
  {policy : RetryPolicy} {given : Arrival}

/-- What was seen on the way in. -/
def inward (p : Passage) : List Sight := p.sights.filter fun s => !s.isAnswer

/-- What was entered: the stages other than those that repeat attempts, and
the handler. -/
def entries (p : Passage) : List Sight := p.sights.filter Sight.isEntry

theorem inward_answered (outcome : Except Error Unit) :
    (p.move step [.answered outcome]).inward = p.inward := by
  rw [inward, sights_move, List.filter_append]
  exact List.append_nil _

theorem inward_gaveUp : (p.move step []).inward = p.inward := by
  rw [inward, sights_move, List.append_nil, inward]

theorem inward_goIn {pace : Pace} {now drawn : Nat} {ended : Bool} {frames : List Frame}
    (hstep : step.1 = (Delivery.enter pace now ended drawn stages given frames).1) :
    (p.goIn stages given step).inward = p.inward ++ Stage.seen stages given := by
  rw [goIn_eq hstep, inward, sights_move, List.filter_append, Stage.seen_inward]
  rfl

/-- What cannot be a return of the handler is seen on the way in. -/
theorem filter_inward {f : Sight → Bool} (h : ∀ outcome, f (.answered outcome) = false)
    (p : Passage) : p.sights.filter f = p.inward.filter f := by
  rw [inward, List.filter_filter]
  refine List.filter_congr fun s _ => ?_
  cases s with
  | answered outcome => simp [h]
  | _ => simp [Sight.isAnswer]

/-- A message that goes in once. -/
structure Once (stages : List Stage) (a : Arrival) (p : Passage) : Prop where
  inward : p.inward = Stage.seen stages a
  stands : p.delivery.progress.IsLast

/-- A message that goes in once, and then again and again from some stage. -/
structure Rounds (before : List Sight) (policy : RetryPolicy) (inner : List Stage)
    (given : Arrival) (p : Passage) : Prop where
  inward : p.inward =
    before ++ (List.replicate p.attempts (Stage.seen inner given)).flatten
  stands : p.delivery.progress.Repeats policy inner given p.attempts
  attempts : 1 ≤ p.attempts

/-- No step lets it go in again. -/
theorem Once.next {a : Arrival} (h : p.Once stages a) (hstep : r.Step p p') :
    p'.Once stages a := by
  have hstands := h.stands
  cases hstep with
  | surrounded a => exact ⟨h.inward, h.stands⟩
  | @answered given frames progress ended outcome =>
      rw [progress] at hstands
      refine ⟨(inward_answered outcome).trans h.inward, ?_⟩
      change (Delivery.leave _ _ _ _ _ frames).1.progress.IsLast
      rw [Delivery.leave_isLast hstands]
      trivial
  | gaveUp progress =>
      rw [progress] at hstands
      exact hstands.elim
  | resumed progress ended =>
      rw [progress] at hstands
      exact hstands.elim

/-- Every step lets it go in from the same stage with the same arrival, or
leaves it where it is. -/
theorem Rounds.next {before : List Sight} {inner : List Stage}
    (hinner : ∀ stage ∈ inner, stage.isRetry = false)
    (h : p.Rounds before policy inner given) (hstep : r.Step p p') :
    p'.Rounds before policy inner given := by
  have hstands := h.stands
  cases hstep with
  | surrounded a => exact ⟨h.inward, h.stands, h.attempts⟩
  | answered progress ended outcome =>
      rw [progress] at hstands
      obtain ⟨began, hframes⟩ := hstands
      exact ⟨(inward_answered outcome).trans h.inward, Delivery.leave_repeats hframes, h.attempts⟩
  | @gaveUp until_ failure again frames progress =>
      rw [progress] at hstands
      refine ⟨inward_gaveUp.trans h.inward, ?_, h.attempts⟩
      change (Delivery.leave _ _ _ _ _ frames).1.progress.Repeats policy inner given p.attempts
      rw [Delivery.leave_isLast hstands.2]
      trivial
  | @resumed until_ failure again frames progress ended =>
      rw [progress] at hstands
      obtain ⟨⟨began, rfl⟩, hrest⟩ := hstands
      have hframes : (Stage.wayOut p.ambient.now inner given ++
            .retry ⟨policy, p.attempts + 1, began, inner, given⟩ :: frames).filterMap
          Frame.again? = [⟨policy, p.attempts + 1, began, inner, given⟩] := by
        rw [List.filterMap_append, Stage.wayOut_again? hinner, List.nil_append]
        exact congrArg (List.cons _) hrest
      refine ⟨?_, Delivery.enter_repeats hframes, Nat.le_add_left 1 _⟩
      rw [inward_goIn rfl, h.inward, List.append_assoc]
      change _ = before ++ (List.replicate (p.attempts + 1) _).flatten
      rw [List.replicate_succ', List.flatten_append, List.flatten_singleton]

/-- A delivery through stages that do not repeat attempts goes in once. -/
theorem Once.start (r : Route) (a : Ambient) (honce : ∀ stage ∈ r.stages, stage.isRetry = false) :
    (r.start a).Once r.stages r.arrival where
  inward := inward_goIn rfl
  stands := Delivery.enter_isLast (by rw [List.append_nil, Stage.wayOut_again? honce])

/-- So it does if one of these fails before others that repeat attempts. -/
theorem Once.start_cut {r : Route} {a : Ambient} {outer inner : List Stage} {e : Error}
    (hstages : r.stages = outer ++ inner) (houter : ∀ stage ∈ outer, stage.isRetry = false)
    (hcut : Stage.giveAll outer r.arrival = .error e) :
    (r.start a).Once outer r.arrival where
  inward := (inward_goIn rfl).trans (by rw [hstages, Stage.seen_append_error hcut]; rfl)
  stands := Delivery.enter_isLast (by
    rw [List.append_nil, hstages, Stage.wayOut_append_error houter hcut])

/-- If none of them fails, the first round begins. -/
theorem Rounds.start {r : Route} {a : Ambient} {outer inner : List Stage}
    (hstages : r.stages = outer ++ .retry policy :: inner)
    (houter : ∀ stage ∈ outer, stage.isRetry = false)
    (hinner : ∀ stage ∈ inner, stage.isRetry = false)
    (hgiven : Stage.giveAll outer r.arrival = .ok given) :
    (r.start a).Rounds (Stage.entrances outer r.arrival ++ [.entered (.retry policy) given])
      policy inner given where
  inward := by
    have hinward : (r.start a).inward = Stage.seen r.stages r.arrival := inward_goIn rfl
    have hone : (r.start a).attempts = 1 := rfl
    rw [hinward, hone, hstages, Stage.seen_append_ok hgiven, Stage.seen_retry, List.append_cons,
      List.replicate_one, List.flatten_singleton]
  stands := by
    have hframes : (Stage.wayOut a.now r.stages r.arrival ++ []).filterMap Frame.again? =
        [⟨policy, 1, a.now, inner, given⟩] := by
      rw [List.append_nil, hstages, Stage.wayOut_append_ok houter hgiven,
        Stage.wayOut_retry_again? hinner]
    exact Delivery.enter_repeats hframes
  attempts := Nat.le_refl 1

end Passage

namespace Stage

variable {stages : List Stage} {a : Arrival}

/-- What is entered in one attempt: the stages, and then the handler unless a
stage fails. -/
def block (stages : List Stage) (a : Arrival) : List Sight :=
  entrances stages a ++
    match giveAll stages a with
    | .ok given => [.called given]
    | .error _ => []

theorem block_of_error {e : Error} (h : giveAll stages a = .error e) :
    block stages a = entrances stages a := by
  rw [block, h, List.append_nil]

theorem entrances_isEntry (honce : ∀ stage ∈ stages, stage.isRetry = false) (a : Arrival) :
    (entrances stages a).filter Sight.isEntry = entrances stages a := by
  refine List.filter_eq_self.mpr fun s hs => ?_
  obtain ⟨stage, hstage, given, rfl⟩ := of_mem_entrances hs
  have honce := honce stage hstage
  cases stage with
  | retry policy => cases honce
  | _ => rfl

theorem seen_isEntry (honce : ∀ stage ∈ stages, stage.isRetry = false) (a : Arrival) :
    (seen stages a).filter Sight.isEntry = block stages a := by
  rw [seen, block, List.filter_append, entrances_isEntry honce]
  cases giveAll stages a <;> rfl

end Stage

/-- What is entered by a delivery through outer stages, one that repeats
attempts, and inner stages. -/
structure Passage.Divided (outer inner : List Stage) (a : Arrival) (p : Passage) : Prop where
  /-- The outer stages are entered once.  Then in every attempt, of which there
  is one at least, the inner stages and the handler are; and every attempt is
  given the same.  The frame that repeats them counts the same attempts. -/
  rounds {given : Arrival} (h : Stage.giveAll outer a = .ok given) :
    1 ≤ p.attempts ∧
      p.entries = Stage.entrances outer a ++
        (List.replicate p.attempts (Stage.block inner given)).flatten ∧
      ∃ policy, p.delivery.progress.Repeats policy inner given p.attempts
  /-- Unless one of the outer stages fails: then there is no attempt. -/
  cut {e : Error} (h : Stage.giveAll outer a = .error e) : p.entries = Stage.entrances outer a
  /-- Either way stages are entered in their order, up to one that fails. -/
  ordered : Stage.Ordered outer a ∧ ∀ given, Stage.Ordered inner given
  /-- So say the tags among them, and so the delivery stands. -/
  attested : p.Attested
  /-- Where it stands at the handler, that is what it entered last. -/
  standing {given : Arrival} (h : p.Handles given) : p.entries.getLast? = some (.called given)

namespace Passage

variable {outer inner stages : List Stage} {p : Passage} {policy : RetryPolicy} {a given : Arrival}

/-- In a delivery that goes in once, the stages are entered once. -/
theorem Once.entries (h : p.Once stages a) (honce : ∀ stage ∈ stages, stage.isRetry = false) :
    p.entries = Stage.block stages a := by
  rw [Passage.entries, filter_inward (fun _ => rfl), h.inward, Stage.seen_isEntry honce]

/-- In rounds, those are which the rounds repeat. -/
theorem Rounds.entries
    (h : p.Rounds (Stage.entrances outer a ++ [.entered (.retry policy) given]) policy inner given)
    (houter : ∀ stage ∈ outer, stage.isRetry = false)
    (hinner : ∀ stage ∈ inner, stage.isRetry = false) :
    p.entries = Stage.entrances outer a ++
      (List.replicate p.attempts (Stage.block inner given)).flatten := by
  rw [Passage.entries, filter_inward (fun _ => rfl), h.inward, List.filter_append,
    List.filter_append, List.filter_flatten, List.map_replicate, Stage.seen_isEntry hinner,
    Stage.entrances_isEntry houter]
  exact congrArg (· ++ _) (List.append_nil _)

end Passage

namespace Route

variable {r : Route} {outer inner : List Stage} {policy : RetryPolicy}

/-- A run through stages that do not repeat attempts. -/
theorem once_run (honce : ∀ stage ∈ r.stages, stage.isRetry = false) (a : Ambient)
    (happenings : List (Happening Unit)) :
    (r.run a happenings).entries = Stage.block r.stages r.arrival :=
  (r.run_keeps (Passage.Once.start r a honce) Passage.Once.next happenings).entries honce

/-- A run through stages one of which does. -/
theorem divided_run (hstages : r.stages = outer ++ .retry policy :: inner)
    (houter : ∀ stage ∈ outer, stage.isRetry = false)
    (hinner : ∀ stage ∈ inner, stage.isRetry = false) (a : Ambient)
    (happenings : List (Happening Unit)) :
    (r.run a happenings).Divided outer inner r.arrival where
  rounds hgiven := by
    have hrounds := r.run_keeps (Passage.Rounds.start (a := a) hstages houter hinner hgiven)
      (Passage.Rounds.next hinner) happenings
    exact ⟨hrounds.attempts, hrounds.entries houter hinner, policy, hrounds.stands⟩
  cut hcut := by
    have hout := r.run_keeps (Passage.Once.start_cut (a := a) hstages houter hcut)
      Passage.Once.next happenings
    exact (hout.entries houter).trans (Stage.block_of_error hcut)
  ordered := ⟨Stage.entrances_ordered _ _, Stage.entrances_ordered _⟩
  attested := r.attested_run a happenings
  standing h := ((r.handles_run a happenings _).mp h).getLast? rfl

end Route

namespace Node

variable {δ : Type}

/-- One behavior repeats attempts. -/
theorem isRetry_ready (n : Node δ) (decoding : Decoding) {behaviors : List Behavior}
    (h : .retry ∉ behaviors) :
    ∀ stage ∈ behaviors.reverse.map (n.ready decoding), stage.isRetry = false := by
  intro stage hstage
  obtain ⟨behavior, hbehavior, rfl⟩ := List.mem_map.mp hstage
  cases behavior with
  | retry => exact absurd (List.mem_reverse.mp hbehavior) h
  | _ => rfl

/-- **Where a stage stands decides whether it is entered once or in every
attempt**: without a behavior that repeats attempts, all are entered once, from
the last to the first; with one, those after it in the list are, and those
before it are entered in every attempt. -/
theorem rounds_run (stream handler : String) (decoding : Decoding) (o : ReaderOptions δ)
    {inner outer : List Behavior} (hinner : .retry ∉ inner) (houter : .retry ∉ outer)
    (pace : Pace) (ctx : Context) (message : Message) (a : Ambient)
    (happenings : List (Happening Unit)) :
    let n := fork stream handler decoding (inner ++ .retry :: outer) o
    let plain := fork stream handler decoding outer o
    ((n.route pace ctx message).run a happenings).Divided (outer.reverse.map (n.ready decoding))
        (inner.reverse.map (n.ready decoding)) ⟨ctx, message⟩ ∧
      ((plain.route pace ctx message).run a happenings).entries =
        Stage.block (outer.reverse.map (plain.ready decoding)) ⟨ctx, message⟩ ∧
      ((plain.route pace ctx message).run a happenings).Attested := by
  intro n plain
  constructor
  · have hstages : n.target.stages = outer.reverse.map (n.ready decoding) ++
        n.ready decoding .retry :: inner.reverse.map (n.ready decoding) := by
      rw [fork_stages stream handler decoding (inner ++ .retry :: outer) o, List.reverse_append,
        List.reverse_cons, List.append_assoc, List.map_append]
      rfl
    exact Route.divided_run (r := n.route pace ctx message) hstages
      (n.isRetry_ready decoding houter) (n.isRetry_ready decoding hinner) a happenings
  · have hstages := fork_stages stream handler decoding outer o
    have honce := plain.isRetry_ready decoding houter
    rw [← hstages] at honce ⊢
    exact ⟨Route.once_run (r := plain.route pace ctx message) honce a happenings,
      Route.attested_run _ a happenings⟩

/-- Something fails and, half a millisecond later, goes well. -/
def secondTime : List (Happening Unit) :=
  [.returned (.error (.handler "busy")), .tick, .wake true, .returned (.ok ())]

/-- A tag that was added before the repetition, one that was added after it,
and two attempts. -/
theorem rounds_run_again :
    let n : Node Unit := fork "orders" "bill" ⟨.empty, .json, none⟩
      ([.tag "in"] ++ .retry :: [.tag "out"]) .unset
    let message := Message.compose ⟨"m-1", "shop", "orders", 1, [], none, none, none, none⟩
      ⟨⟨1970, 1, 1⟩, 0, 0, 0, 0⟩
    let p := (n.route (fun _ _ _ => 500000) ⟨[0], none, none, none⟩ message).run ⟨0, ⟨1, []⟩⟩
      secondTime
    .retry ∉ [Behavior.tag "in"] ∧ .retry ∉ [Behavior.tag "out"] ∧ p.attempts = 2 ∧
      p.entries.map Sight.stage? =
        [some (.tag "out"), some (.tag "in"), none, some (.tag "in"), none] ∧
      p.told.filter Note.isEntry = p.lines ∧ p.lines.length = 3 := by
  intro n message p
  have hinner : .retry ∉ [Behavior.tag "in"] := by decide
  have houter : .retry ∉ [Behavior.tag "out"] := by decide
  have hdivided := (rounds_run "orders" "bill" ⟨.empty, .json, none⟩ (.unset : ReaderOptions Unit)
    hinner houter (fun _ _ _ => 500000) ⟨[0], none, none, none⟩ message ⟨0, ⟨1, []⟩⟩ secondTime).1
  have hattempts : p.attempts = 2 := by decide +kernel
  have hgiven (a : Arrival) : Stage.giveAll [.tag "out"] a = .ok a := rfl
  have hentries := (hdivided.rounds (hgiven _)).2.1
  refine ⟨hinner, houter, hattempts, ?_, hdivided.attested.told, by decide +kernel⟩
  rw [hentries, hattempts]
  rfl

end Node
end PubSub
