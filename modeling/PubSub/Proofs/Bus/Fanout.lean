import Mathlib.Data.List.Induction
import PubSub.Proofs.Bus.Breakdown

/-!
# What becomes of the messages

Messages are taken off the queue in the order in which they were put on
it, and nothing is lost between the two.  Each of them is given to the
listeners that its stream has when it is taken off, one after the other,
before the next message is looked at.

* `Bus.acceptedIn`, `Bus.takenIn`, `Bus.spawnedIn` — what was seen of the
  messages;
* `System.rounds` — the messages taken off, with their listeners;
* `Dispatcher.Dealt` — the invocations there are for them so far;
* `System.fanout_run` — the whole story, for every run.
-/

namespace PubSub

namespace BusEvent

/-- The message put on the queue, if one was. -/
def accepted? : BusEvent → Option Message
  | .accepted _ m => some m
  | _ => none

/-- The message taken off the queue, if one was. -/
def taken? : BusEvent → Option Message
  | .taken m => some m
  | _ => none

/-- The invocation begun, if one was. -/
def spawned? : BusEvent → Option Invocation
  | .spawned i => some i
  | _ => none

end BusEvent

namespace Bus

/-- The messages put on the queue, in order. -/
def acceptedIn (events : List BusEvent) : List Message := events.filterMap BusEvent.accepted?

/-- The messages taken off the queue, in order. -/
def takenIn (events : List BusEvent) : List Message := events.filterMap BusEvent.taken?

/-- The invocations begun, in order. -/
def spawnedIn (events : List BusEvent) : List Invocation := events.filterMap BusEvent.spawned?

/-- Events that tell nothing of a message on its way. -/
structure Silent (events : List BusEvent) : Prop where
  accepted : acceptedIn events = []
  taken : takenIn events = []
  spawned : spawnedIn events = []

section Seen

variable (events new : List BusEvent)

@[simp] theorem acceptedIn_append :
    acceptedIn (events ++ new) = acceptedIn events ++ acceptedIn new :=
  List.filterMap_append

@[simp] theorem takenIn_append : takenIn (events ++ new) = takenIn events ++ takenIn new :=
  List.filterMap_append

@[simp] theorem spawnedIn_append :
    spawnedIn (events ++ new) = spawnedIn events ++ spawnedIn new :=
  List.filterMap_append

end Seen

/-- Log events are silent. -/
theorem Silent.log (e : LogEvent) : Silent [.log e] := ⟨rfl, rfl, rfl⟩

/-- Whatever else is seen of the end of an invocation is written to the
log. -/
theorem endingEvents_logs (i : Invocation) (ending : Ending) :
    ∃ logs : List LogEvent, endingEvents i ending = .ended i.id ending :: logs.map .log := by
  have hfailure : ∀ e, ∃ log, failureEvent i e = .log log := by
    intro e
    unfold failureEvent
    dsimp only
    split <;> exact ⟨_, rfl⟩
  cases ending with
  | returned outcome =>
      cases outcome with
      | ok _ => exact ⟨[], rfl⟩
      | error e =>
          obtain ⟨log, hlog⟩ := hfailure e
          exact ⟨[log], by simp [endingEvents, hlog]⟩
  | interrupted e =>
      obtain ⟨log, hlog⟩ := hfailure e
      exact ⟨[log], by simp [endingEvents, hlog]⟩
  | collapsed => exact ⟨[], rfl⟩

/-- The end of an invocation is silent. -/
theorem Silent.ending (i : Invocation) (ending : Ending) : Silent (endingEvents i ending) := by
  obtain ⟨logs, hlogs⟩ := endingEvents_logs i ending
  rw [hlogs]
  constructor <;>
    simp [acceptedIn, takenIn, spawnedIn, BusEvent.accepted?, BusEvent.taken?, BusEvent.spawned?]

/-- What is reported of the end of the dispatcher is silent. -/
theorem Silent.join (b : Bus) : Silent b.joinEvents := by
  unfold joinEvents
  split <;> exact ⟨rfl, rfl, rfl⟩

end Bus

/-- What there is to do for messages that were taken off with these
listeners: message by message, and listener by listener. -/
def deals (rounds : List (Message × List Task)) : List (Message × Task) :=
  rounds.flatMap fun round => round.2.map (round.1, ·)

/-- The invocations that there are for some rounds: all, or in the middle
of the last round, those for all rounds before and for the listeners that
are not pending. -/
def Dispatcher.Dealt (d : Dispatcher) (rounds : List (Message × List Task))
    (begun : List (Message × Task)) : Prop :=
  match d.current with
  | none => begun = deals rounds
  | some m => ∃ before served, rounds = before ++ [(m, served ++ d.pending)] ∧
      begun = deals before ++ served.map (m, ·)

/-- The messages that are taken off in a run, each with the listeners that
its stream has at that moment. -/
def System.rounds (s : System) : List Move → List (Message × List Task)
  | [] => []
  | move :: moves =>
      (Bus.takenIn (s.apply move).2).map (fun m => (m, s.bus.audience m)) ++
        (s.apply move).1.rounds moves

namespace Bus

/-- The queue holds what was put on it and not yet taken off, and the
invocations agree with the rounds. -/
structure Fanout (rounds : List (Message × List Task)) (events : List BusEvent)
    (b : Bus) : Prop where
  queued : acceptedIn events = takenIn events ++ b.queue
  inOrder : rounds.map Prod.fst = takenIn events
  dealt : b.dispatcher.Dealt rounds ((spawnedIn events).map fun i => (i.message, i.task))
  numbered : (spawnedIn events).map (·.id) = List.range b.nextInvocation

variable {a : Ambient} {b b' : Bus} {rounds : List (Message × List Task)}
  {events new : List BusEvent}

namespace Fanout

/-- Nothing happens to messages. -/
theorem silent (h : Fanout rounds events b) (hsilent : Silent new)
    (hqueue : b'.queue = b.queue) (hcurrent : b'.dispatcher.current = b.dispatcher.current)
    (hpending : b'.dispatcher.pending = b.dispatcher.pending)
    (hnext : b'.nextInvocation = b.nextInvocation) :
    Fanout (rounds ++ (takenIn new).map fun m => (m, b.audience m)) (events ++ new) b' := by
  obtain ⟨haccepted, htaken, hspawned⟩ := hsilent
  obtain ⟨hq, hr, hd, hn⟩ := h
  refine ⟨?_, ?_, ?_, ?_⟩
  · simpa [haccepted, htaken, hqueue] using hq
  · simpa [htaken] using hr
  · unfold Dispatcher.Dealt at hd ⊢
    rw [hcurrent, hpending]
    simpa [htaken, hspawned] using hd
  · simpa [hspawned, hnext] using hn

/-- A message is put on the queue. -/
theorem push (h : Fanout rounds events b) (call : Nat) (m : Message)
    (hqueue : b'.queue = b.queue ++ [m]) (hd : b'.dispatcher = b.dispatcher)
    (hnext : b'.nextInvocation = b.nextInvocation) :
    Fanout rounds (events ++ [.accepted call m]) b' := by
  have haccepted : acceptedIn [.accepted call m] = [m] := rfl
  have htaken : takenIn [.accepted call m] = [] := rfl
  have hspawned : spawnedIn [.accepted call m] = [] := rfl
  obtain ⟨hq, hr, hdealt, hn⟩ := h
  refine ⟨?_, ?_, ?_, ?_⟩
  · simp [haccepted, htaken, hqueue, hq]
  · simpa [htaken] using hr
  · simpa [hd, hspawned] using hdealt
  · simpa [hspawned, hnext] using hn

/-- A message is taken off the queue, and a new round begins; without
listeners it is over at once. -/
theorem take (h : Fanout rounds events b) {m : Message} {queue : List Message}
    (hq : b.queue = m :: queue) (hd : b.dispatcher = .receiving) (hqueue : b'.queue = queue)
    (haccepted : acceptedIn new = []) (htaken : takenIn new = [m])
    (hspawned : spawnedIn new = [])
    (hd' : b'.dispatcher = nextPlacing m (b.audience m))
    (hnext : b'.nextInvocation = b.nextInvocation) :
    Fanout (rounds ++ (takenIn new).map fun m => (m, b.audience m)) (events ++ new) b' := by
  obtain ⟨hqueued, hr, hdealt, hn⟩ := h
  refine ⟨?_, ?_, ?_, by simpa [hspawned, hnext] using hn⟩
  · simpa [haccepted, htaken, hqueue, hq] using hqueued
  · simpa [htaken] using hr
  · rw [hd] at hdealt
    change List.map _ _ = deals rounds at hdealt
    simp only [spawnedIn_append, hspawned, List.append_nil, htaken, hdealt, hd', List.map_cons,
      List.map_nil]
    cases b.audience m with
    | nil => simp [Dispatcher.Dealt, nextPlacing, Dispatcher.current, deals]
    | cons task rest => exact ⟨rounds, [], rfl, by simp⟩

/-- An invocation is begun for the first pending listener. -/
theorem spawn (h : Fanout rounds events b) {i : Invocation} {rest : List Task} {turn : Turn}
    (hd : b.dispatcher = .placing i.message i.task rest turn) (hqueue : b'.queue = b.queue)
    (hd' : b'.dispatcher = nextPlacing i.message rest) (hid : i.id = b.nextInvocation)
    (hnext : b'.nextInvocation = b.nextInvocation + 1) :
    Fanout rounds (events ++ [.spawned i]) b' := by
  have haccepted : acceptedIn [.spawned i] = [] := rfl
  have htaken : takenIn [.spawned i] = [] := rfl
  have hspawned : spawnedIn [.spawned i] = [i] := rfl
  obtain ⟨hqueued, hr, hdealt, hn⟩ := h
  refine ⟨?_, ?_, ?_, by simp [hspawned, hn, hid, hnext, List.range_succ]⟩
  · simpa [haccepted, htaken, hqueue] using hqueued
  · simpa [htaken] using hr
  · rw [hd] at hdealt
    obtain ⟨before, served, hrounds, hbegun⟩ := hdealt
    have hbegun' : (spawnedIn (events ++ [.spawned i])).map (fun i => (i.message, i.task)) =
        deals before ++ (served ++ [i.task]).map (i.message, ·) := by
      simp [hspawned, hbegun]
    have hrounds' : rounds = before ++ [(i.message, (served ++ [i.task]) ++ rest)] := by
      simp [hrounds, Dispatcher.pending]
    rw [hd', hbegun', hrounds']
    cases rest with
    | nil => simp [Dispatcher.Dealt, nextPlacing, Dispatcher.current, deals]
    | cons next rest => exact ⟨before, served ++ [i.task], rfl, rfl⟩

/-- Every change that is no breakdown keeps queue and invocations in
agreement with what was seen. -/
theorem change (h : Fanout rounds events b) (hphases : b.Phases)
    (hchange : Change a b new b') (halive : ∀ why, b'.dispatcher ≠ .aborted why) :
    Fanout (rounds ++ (takenIn new).map fun m => (m, b.audience m)) (events ++ new) b' := by
  cases hchange with
  | started ctx hroot =>
      have hnone := (hphases.unstarted hroot).1
      refine h.silent ?_ rfl (by rw [hnone]; rfl) (by rw [hnone]; rfl) rfl
      simp only [start, isStarted, hroot]
      exact .log _
  | registered task => exact h.silent (.log _) rfl rfl rfl rfl
  | @pushed c m pending hc hp herr hrecv hslot =>
      have htaken : takenIn [.accepted c.id m] = [] := rfl
      rw [htaken, List.map_nil, List.append_nil]
      exact h.push c.id m rfl rfl rfl
  | unheard hd hq hl =>
      exact h.take hq hd (by simp) rfl rfl rfl (by simp [hl, hd, nextPlacing]) (by simp)
  | taken hd hq hl =>
      exact h.take hq hd (by simp) rfl rfl rfl (by simp [hl, nextPlacing]) (by simp)
  | returned hd hq hclosed =>
      exact h.silent ⟨rfl, rfl, rfl⟩ rfl (by rw [hd]; rfl) (by rw [hd]; rfl) rfl
  | lined hd hpermits =>
      exact h.silent ⟨rfl, rfl, rfl⟩ rfl (by rw [hd]; rfl) (by rw [hd]; rfl) rfl
  | @spawned m task rest permits root ctx tokens hlend hroot hctx =>
      have htaken : takenIn [.spawned ⟨b.nextInvocation, task, m, ctx, false⟩] = [] := rfl
      rw [htaken, List.map_nil, List.append_nil]
      rcases hlend with ⟨hd, -⟩ | ⟨hd, -⟩
      · exact h.spawn hd rfl rfl rfl rfl
      · exact h.spawn hd rfl rfl rfl rfl
  | aborted hlend hroot hctx => exact absurd (abort_dispatcher _ _) (halive _)
  | forfeited hc hp hplace herr =>
      refine h.silent ⟨rfl, rfl, rfl⟩ ?_ ?_ ?_ ?_ <;> split <;> simp [dismiss]
  | joined hw hd => exact h.silent (.join b) rfl rfl rfl rfl
  | @finished i hi ending hend =>
      have hcurrent := releasePermit_current { b with running := b.running.filter (·.id ≠ i.id) }
      obtain ⟨_, _, _, hframe⟩ :=
        releasePermit_frame { b with running := b.running.filter (·.id ≠ i.id) }
      exact h.silent (.ending i ending) (by rw [hframe]) hcurrent.1 hcurrent.2
        (by rw [hframe])
  | _ => exact h.silent ⟨rfl, rfl, rfl⟩ rfl rfl rfl rfl

end Fanout
end Bus

namespace System

/-- One more move adds its own round, if it begins one. -/
theorem rounds_concat (s : System) (moves : List Move) (move : Move) :
    s.rounds (moves ++ [move]) =
      s.rounds moves ++ (Bus.takenIn ((s.run moves).1.apply move).2).map
        fun m => (m, (s.run moves).1.bus.audience m) := by
  induction moves generalizing s with
  | nil => simp [rounds, run]
  | cons first moves ih => simp [rounds, run, ih, List.append_assoc]

/-- A dispatcher that has not broken down after a move had not before. -/
theorem alive_of_apply {s : System} (h : s.bus.Sound) (move : Move)
    (halive : ∀ why, (s.apply move).1.bus.dispatcher ≠ .aborted why) (why : Abort) :
    s.bus.dispatcher ≠ .aborted why := by
  intro hd
  refine halive why ?_
  rcases (apply_sound h move).2 with ⟨hsame, -⟩ | hchange
  · rw [hsame, hd]
  · rw [hchange.over_stays h.phases (by rw [hd]; rfl), hd]

/-- The invariant of the fan-out, for every run without a breakdown. -/
theorem fanout_of_alive {config : BusConfig} {tokens : Tokens} {moves : List Move}
    (h : ∀ why, ((initial config tokens).run moves).1.bus.dispatcher ≠ .aborted why) :
    Bus.Fanout ((initial config tokens).rounds moves) ((initial config tokens).run moves).2
      ((initial config tokens).run moves).1.bus := by
  induction moves using List.reverseRecOn with
  | nil => exact ⟨rfl, rfl, rfl, rfl⟩
  | append_singleton moves move ih =>
      have hsound := sound_run config tokens moves
      rw [run_concat] at h ⊢
      have hbefore := ih (alive_of_apply hsound move h)
      rw [rounds_concat]
      rcases (apply_sound hsound move).2 with ⟨hsame, hnone⟩ | hchange
      · simp only [hsame, hnone, List.append_nil]
        simpa [Bus.takenIn] using hbefore
      · exact hbefore.change hsound.phases hchange h

/-- When all timeouts can be added to the clock, there is no breakdown. -/
theorem fanout_of_addable {config : BusConfig} {tokens : Tokens} {moves : List Move}
    (h : (initial config tokens).Addable moves) :
    Bus.Fanout ((initial config tokens).rounds moves) ((initial config tokens).run moves).2
      ((initial config tokens).run moves).1.bus :=
  fanout_of_alive (unbroken_run h).alive

/-- **Nothing is lost, doubled or overtaken.**  In every state of every run
the messages put on the queue are those taken off, followed by those in
the queue, which never holds more than it may.  The messages taken off
have each been given to the listeners that had been registered on their
stream by then, in the order of registration, one message after the
other, as far as the dispatcher has come.  A bus that has stopped has
given every message that was put on the queue to all its listeners. -/
theorem fanout_run (config : BusConfig) (tokens : Tokens) (moves : List Move)
    (h : (initial config tokens).Addable moves) :
    let rounds := (initial config tokens).rounds moves
    let final := (initial config tokens).run moves
    Bus.Fanout rounds final.2 final.1.bus ∧
      final.1.bus.queue.length ≤ max config.queueCapacity 1 ∧
      final.1.bus.listeners = moves.flatMap Move.registered ∧
      (final.1.bus.isStopped = true →
        rounds.map Prod.fst = Bus.acceptedIn final.2 ∧
          (Bus.spawnedIn final.2).map (fun i => (i.message, i.task)) = deals rounds) := by
  intro rounds final
  have hsound : final.1.bus.Sound := sound_run config tokens moves
  have hfanout : Bus.Fanout rounds final.2 final.1.bus := fanout_of_addable h
  refine ⟨hfanout, ?_, ?_, ?_⟩
  · have hbound := hsound.slots.bounded
    have hconfig : final.1.bus.config = config.effective :=
      run_config (s := initial config tokens) (.ofConfig config) moves
    rw [hconfig] at hbound
    change _ ≤ max config.queueCapacity 1 at hbound
    omega
  · exact run_listeners (initial config tokens) moves
  · intro hstopped
    have hw : final.1.bus.watcher = .stopped := of_decide_eq_true hstopped
    have hreturned := (unbroken_run h).returned_of_stopped hsound.phases hw
    have hempty := (hsound.phases.drained hreturned).2.1
    have hqueued := hfanout.queued
    have hdealt := hfanout.dealt
    rw [hempty, List.append_nil] at hqueued
    rw [hreturned] at hdealt
    exact ⟨hfanout.inOrder.trans hqueued.symm, hdealt⟩

/-- A listener to orders. -/
def sampleListener (group : String) (timeout : Nat) : Task :=
  ⟨"orders", ⟨[], "handler"⟩, group, timeout, none⟩

/-- An order. -/
def sampleOrder (id : String) : Message :=
  Message.compose
    { id, source := "shop", stream := "orders", streamVersion := 0, data := [],
      contentType := none, schema := none, schemaVersion := none, subject := none }
    (.afterStart 0)

/-- Two listeners share one permit, and a third one comes while the second
waits for it. -/
def crowdedMoves : List Move :=
  [.start ⟨[0], none, none, none⟩,
    .register (sampleListener "audit" 0),
    .register (sampleListener "billing" (Span.ofSeconds 30)),
    .write ⟨[1], none, none, none⟩ [sampleOrder "o-1", sampleOrder "o-2"],
    .call 0, .dispatcher, .dispatcher, .dispatcher, .call 0,
    .register (sampleListener "late" 0),
    .invocation 0 .pending, .invocation 0 (.returned (.ok ())), .dispatcher]

/-- The two listeners that were there in time get the first order, and the
second order is still in the queue. -/
theorem fanout_run_crowded :
    let start := initial ⟨0, 0⟩ ⟨2, []⟩
    let final := start.run crowdedMoves
    start.Addable crowdedMoves ∧
      Bus.Fanout (start.rounds crowdedMoves) final.2 final.1.bus ∧
      (Bus.spawnedIn final.2).map (fun i => (i.message.id, i.task.group)) =
        [("o-1", "audit"), ("o-1", "billing")] ∧
      final.1.bus.queue.map (·.id) = ["o-2"] := by
  have hfits : (initial ⟨0, 0⟩ ⟨2, []⟩).Addable crowdedMoves := by
    intro task hmem
    simp only [crowdedMoves, List.mem_cons, Move.register.injEq, reduceCtorEq, List.not_mem_nil,
      or_false, false_or] at hmem
    rcases hmem with rfl | rfl | rfl
    · exact .inl rfl
    · exact .inr (Context.fits_iff.mpr (by decide))
    · exact .inl rfl
  exact ⟨hfits, (fanout_run ⟨0, 0⟩ ⟨2, []⟩ crowdedMoves hfits).1, rfl, rfl⟩

end System
end PubSub
