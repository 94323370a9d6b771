import PubSub.Proofs.Bus.Fanout

/-!
# Shutdown

When the context of a bus ends, the bus shuts down.  No handler is called
any more; what is still in the queue is taken off, but its invocations
only report the end of their contexts.  A bus that has stopped stays as
it is, and as long as it has not, some party has something to do: none
of them waits for another one that waits for it.

* `Bus.Closed` — a bus that has stopped for good;
* `System.RootDone`, `System.Still` — the context has ended, and nobody
  has anything to do;
* `BusEvent.Subdued`, `Bus.Change.subdued` — what can still be seen of
  invocations;
* `System.stopped_of_still` — no deadlock;
* `System.shutdown_run` — all of it, for every run.
-/

namespace PubSub

/-- What can be seen of invocations once their contexts have ended: no
handler is called, and the end of a context is all that ends them. -/
def BusEvent.Subdued : BusEvent → Prop
  | .entered _ => False
  | .ended _ (.interrupted e) => e.isContextEnd = true
  | .ended _ _ => False
  | _ => True

namespace Bus

variable {a : Ambient} {b b' : Bus} {events : List BusEvent}

/-- A bus that has stopped: all its permits are free, no invocation is
left, the queue is empty and closed, and every call is refused. -/
structure Closed (permits : Nat) (b : Bus) : Prop where
  stopped : b.isStopped = true
  sender : b.senderOpen = false
  dispatcher : b.dispatcher = .returned
  queue : b.queue = []
  running : b.running = []
  permits : b.permits = permits
  refuses : ∀ ctx messages, b.beginCall ctx messages = .error .busClosed

/-- A bus that has stopped after its dispatcher has returned. -/
theorem Sound.closed (h : b.Sound) (hw : b.watcher = .stopped) (hd : b.dispatcher = .returned) :
    b.Closed b.config.maxInFlight := by
  obtain ⟨hsender, hqueue, -⟩ := h.phases.drained hd
  have hrunning := h.permits.quiet hw
  have hcount := h.permits.counted
  rw [hd, hw, hrunning] at hcount
  have hstarted : b.isStarted = true := by
    cases hroot : b.root with
    | none =>
        have hnone := (h.phases.unstarted hroot).1
        rw [hd] at hnone
        cases hnone
    | some root => simp [isStarted, hroot]
  exact ⟨by simp [isStopped, hw], hsender, hd, hqueue, hrunning, hcount,
    fun ctx messages => by simp [beginCall, hstarted, hsender]⟩

/-- A stopped bus stays stopped, and its dispatcher does not come back. -/
theorem Change.stopped_stays (h : b.Phases) (hchange : Change a b events b')
    (hw : b.watcher = .stopped) (hd : b.dispatcher = .returned) :
    b'.watcher = .stopped ∧ b'.dispatcher = .returned := by
  refine ⟨?_, (hchange.over_stays h (by rw [hd]; rfl)).trans hd⟩
  cases hchange with
  | started ctx hroot =>
      have hnone := (h.unstarted hroot).1
      rw [hd] at hnone
      cases hnone
  | forfeited hc hp hplace herr => split <;> simp [dismiss, hw]
  | unheard hd' hq hl => simpa using hw
  | taken hd' hq hl => simpa using hw
  | aborted hlend hroot hctx =>
      rcases hlend with ⟨hd', -⟩ | ⟨hd', -⟩ <;> rw [hd] at hd' <;> cases hd'
  | closing hw' hroot hdone => rw [hw] at hw'; cases hw'
  | joined hw' hd' => rw [hw] at hw'; cases hw'
  | stopped hw' => rfl
  | finished hi ending hend =>
      rcases releasePermit_cases ({ b with running := b.running.filter _ })
        with ⟨_, _, _, hd', -⟩ | ⟨_, hw', -, -⟩ | ⟨-, -, hframe⟩
      · rw [hd] at hd'; cases hd'
      · rw [hw] at hw'; cases hw'
      · rw [hframe]
        exact hw
  | _ => exact hw

/-- The context that a bus was started with stays. -/
theorem Change.root_eq (hchange : Change a b events b') {root : Context}
    (hroot : b.root = some root) : b'.root = some root := by
  cases hchange with
  | started ctx hnone => rw [hroot] at hnone; cases hnone
  | forfeited hc hp hplace herr => split <;> simp [dismiss, hroot]
  | unheard hd hq hl => simpa using hroot
  | taken hd hq hl => simpa using hroot
  | aborted hlend hr hctx =>
      obtain ⟨_, _, _, hframe⟩ := releasePermit_frame _
      rw [abort, hframe]
      exact hroot
  | finished hi ending hend =>
      obtain ⟨_, _, _, hframe⟩ := releasePermit_frame _
      rw [hframe]
      exact hroot
  | _ => exact hroot

/-- An invocation that is begun is running. -/
theorem Change.running_of_spawned (hchange : Change a b events b') {i : Invocation}
    (hi : i ∈ spawnedIn events) : i ∈ b'.running := by
  cases hchange with
  | started ctx hroot =>
      unfold start at hi
      split at hi <;> cases hi
  | spawned hlend hroot hctx => exact List.mem_append_right _ hi
  | joined hw hd => rw [(Silent.join b).spawned] at hi; cases hi
  | finished hj ending hend => rw [(Silent.ending _ _).spawned] at hi; cases hi
  | _ => cases hi

/-- An invocation that is running goes on, unless it is seen to end. -/
theorem Change.running_or_ended (hchange : Change a b events b') {i : Invocation}
    (hi : i ∈ b.running) :
    (∃ j ∈ b'.running, j.id = i.id) ∨ ∃ ending, .ended i.id ending ∈ events := by
  cases hchange with
  | forfeited hc hp hplace herr =>
      left
      refine ⟨i, ?_, rfl⟩
      split <;> simpa [dismiss] using hi
  | unheard hd hq hl => exact .inl ⟨i, by simpa using hi, rfl⟩
  | taken hd hq hl => exact .inl ⟨i, by simpa using hi, rfl⟩
  | spawned hlend hroot hctx => exact .inl ⟨i, List.mem_append_left _ hi, rfl⟩
  | aborted hlend hroot hctx =>
      obtain ⟨_, _, _, hframe⟩ := releasePermit_frame _
      rw [abort, hframe]
      exact .inl ⟨i, hi, rfl⟩
  | entered hj herr hfresh =>
      refine .inl ⟨_, List.mem_map_of_mem hi, ?_⟩
      split <;> rfl
  | @finished j hj ending hend =>
      obtain ⟨_, _, _, hframe⟩ := releasePermit_frame _
      rw [hframe]
      by_cases hid : i.id = j.id
      · rw [hid]
        exact .inr ⟨ending, List.mem_cons_self⟩
      · exact .inl ⟨i, List.mem_filter.mpr ⟨hi, by simpa using hid⟩, rfl⟩
  | _ => exact .inl ⟨i, hi, rfl⟩

/-- Once the context of the bus has ended, no handler is called, and
invocations end with the end of their contexts only. -/
theorem Change.subdued (h : b.Tethered) (hchange : Change a b events b') {root : Context}
    (hroot : b.root = some root) (hdone : a.isDone root = true) :
    ∀ event ∈ events, event.Subdued := by
  have hended : ∀ i ∈ b.running, ∃ e, a.err i.ctx = some e := by
    intro i hi
    obtain ⟨root', hroot', hunder⟩ := h i hi
    rw [hroot] at hroot'
    cases hroot'
    exact Ambient.isDone_iff_err.mp (hunder.isDone hdone)
  cases hchange with
  | started ctx hnone => rw [hroot] at hnone; cases hnone
  | registered task => simp [register, BusEvent.Subdued]
  | joined hw hd =>
      unfold joinEvents
      split <;> simp [BusEvent.Subdued]
  | @entered i hi herr hfresh =>
      obtain ⟨e, he⟩ := hended i hi
      rw [herr] at he
      cases he
  | @finished i hi ending hend =>
      obtain ⟨e, he⟩ := hended i hi
      cases ending with
      | interrupted e' =>
          have hcontext := Ambient.isContextEnd_of_err hend
          simp [endingEvents, failureEvent, hcontext, BusEvent.Subdued]
      | returned outcome => rw [hend.1] at he; cases he
      | collapsed => rw [hend.1] at he; cases he
  | _ => simp [BusEvent.Subdued, Bus.unheard]

/-- A call whose step does nothing waits for a slot. -/
theorem stepCall_idle {c : Call} (hstep : b.stepCall a c = (b, [])) : c.place = .waiting := by
  unfold stepCall at hstep
  split at hstep
  · cases congrArg Prod.snd hstep
  · cases congrArg Prod.snd hstep
  · cases congrArg Prod.snd hstep
  · split at hstep
    · cases congrArg Prod.snd hstep
    · split at hstep
      · cases congrArg Prod.snd hstep
      · split at hstep
        · cases congrArg Prod.snd hstep
        · -- the line would have grown
          have hline := congrArg (fun step => step.1.line.length) hstep
          simp [queueUp, updateCall] at hline
      · assumption

/-- Beginning an invocation is seen, or breaks the dispatcher down. -/
theorem spawn_not_idle {m : Message} {task : Task} {rest : List Task} (hroot : b.root ≠ none)
    (hevents : (b.spawn a m task rest).2.2 = []) :
    (b.spawn a m task rest).1.dispatcher.isOver = true := by
  unfold spawn at hevents ⊢
  split at hevents
  · rename_i hnone
    exact absurd hnone hroot
  · split at hevents
    · simp [*, Dispatcher.isOver]
    · cases hevents

/-- A dispatcher whose step does nothing waits for a message or a permit,
or is not there. -/
theorem stepDispatcher_idle (hroot : b.root ≠ none) (hbus : (b.stepDispatcher a).1 = b)
    (hevents : (b.stepDispatcher a).2.2 = []) :
    b.dispatcher = .receiving ∧ b.queue = [] ∧ b.isClosed = false ∨
      b.dispatcher.isWaiting = true ∨ b.dispatcher.isOver = true ∨
      b.dispatcher = .unstarted := by
  cases hd : b.dispatcher with
  | unstarted => simp
  | returned => simp [Dispatcher.isOver]
  | aborted why => simp [Dispatcher.isOver]
  | receiving =>
      left
      unfold stepDispatcher at hbus hevents
      rw [hd] at hbus hevents
      cases hq : b.queue with
      | cons m queue =>
          simp only [hq, take] at hevents
          split at hevents <;> cases hevents
      | nil =>
          refine ⟨rfl, rfl, ?_⟩
          cases hclosed : b.isClosed with
          | false => rfl
          | true =>
              have hdispatcher := congrArg Bus.dispatcher hbus
              simp [hq, hclosed, hd] at hdispatcher
  | placing m task rest turn =>
      unfold stepDispatcher at hbus hevents
      rw [hd] at hbus hevents
      have hover : b.dispatcher.isOver = false := by rw [hd]; rfl
      cases turn with
      | waiting => exact .inr (.inl rfl)
      | holding =>
          have hspawn := spawn_not_idle hroot hevents
          rw [hbus, hover] at hspawn
          cases hspawn
      | asking =>
          by_cases hpermits : 0 < b.permits
          · simp only [if_pos hpermits] at hbus hevents
            have hspawn := spawn_not_idle (by simpa using hroot) hevents
            rw [hbus, hover] at hspawn
            cases hspawn
          · simp only [if_neg hpermits] at hbus
            have hdispatcher := congrArg Bus.dispatcher hbus
            simp [hd] at hdispatcher

/-- A watcher whose step does nothing has nothing to do. -/
theorem stepWatcher_idle (hstep : (b.stepWatcher a).1 = b) : b.watcherReady a = false := by
  by_contra hready
  have hready : b.watcherReady a = true := by simpa using hready
  have hw := congrArg Bus.watcher hstep
  unfold stepWatcher at hw
  rw [hready] at hw
  cases hwatcher : b.watcher with
  | unstarted => simp [watcherReady, hwatcher] at hready
  | stopped => simp [watcherReady, hwatcher] at hready
  | watching => simp [hwatcher] at hw
  | joining => simp [hwatcher] at hw
  | draining held => simp [hwatcher] at hw

end Bus

/-- Is it a step of a party of the bus?  An invocation is asked without an
outcome at hand. -/
def Move.isStep : Move → Bool
  | .call _ | .dispatcher | .watcher | .invocation _ .pending => true
  | _ => false

namespace System

variable {s : System}

/-- The bus has been started, and its context has ended. -/
def RootDone (s : System) : Prop :=
  ∃ root, s.bus.root = some root ∧ s.ambient.isDone root = true

/-- Nobody has anything to do. -/
def Still (s : System) : Prop :=
  ∀ move : Move, move.isStep = true → s.apply move = (s, [])

/-- The context has ended for good. -/
theorem RootDone.apply (h : s.RootDone) (hsound : s.bus.Sound) (move : Move) :
    (s.apply move).1.RootDone := by
  obtain ⟨root, hroot, hdone⟩ := h
  refine ⟨root, ?_, (s.apply_later move).isDone hdone⟩
  rcases (apply_sound hsound move).2 with ⟨hsame, -⟩ | hchange
  · rw [hsame]
    exact hroot
  · exact hchange.root_eq hroot

/-- When nobody has anything to do, every call waits for a slot. -/
theorem Still.call_waiting (h : s.Still) (hsound : s.bus.Sound) {c : Call}
    (hc : c ∈ s.bus.calls) : c.place = .waiting := by
  have hfind : s.bus.call? c.id = some c := Keyed.find?_of_mem hsound.slots.distinct hc
  have hstep := h (.call c.id) rfl
  simp only [apply, hfind, ofStep, Prod.mk.injEq] at hstep
  exact Bus.stepCall_idle (a := s.ambient) (Prod.ext (congrArg System.bus hstep.1) hstep.2)

/-- When nobody has anything to do and the context has ended, no invocation
is left: it would have to end. -/
theorem Still.running_nil (h : s.Still) (hsound : s.bus.Sound) (hdone : s.RootDone) :
    s.bus.running = [] := by
  by_contra hne
  obtain ⟨i, hi⟩ := List.exists_mem_of_ne_nil _ hne
  obtain ⟨root, hroot, hended⟩ := hdone
  obtain ⟨root', hroot', hunder⟩ := hsound.tethered i hi
  rw [hroot] at hroot'
  cases hroot'
  obtain ⟨e, he⟩ := Ambient.isDone_iff_err.mp (hunder.isDone hended)
  have hfind : s.bus.invocation? i.id = some i :=
    Keyed.find?_of_mem hsound.permits.distinct hi
  have hstep := congrArg Prod.snd (h (.invocation i.id .pending) rfl)
  simp only [apply, hfind, ofStep, he, Bus.pollInvocation] at hstep
  cases hstep

/-- When nobody has anything to do, no dispatcher waits for a permit that
an invocation might give back, and none for a message that a call might
write. -/
theorem Still.dispatcher_isOver (h : s.Still) (hsound : s.bus.Sound) (hdone : s.RootDone)
    (hclosed : s.bus.senderOpen = false) : s.bus.dispatcher.isOver = true := by
  have hroot : s.bus.root ≠ none := by
    obtain ⟨root, hroot, -⟩ := hdone
    simp [hroot]
  have hstep := h .dispatcher rfl
  have hbus : (s.bus.stepDispatcher s.ambient).1 = s.bus :=
    congrArg (fun step => step.1.bus) hstep
  rcases Bus.stepDispatcher_idle hroot hbus (congrArg Prod.snd hstep) with
    ⟨hd, hq, hopen⟩ | hwait | hover | hunstarted
  · -- a call waits in line, so the empty queue has no slot for the dispatcher to empty
    have hcalls : s.bus.calls ≠ [] := by
      intro hnil
      simp [Bus.isClosed, hclosed, hnil] at hopen
    obtain ⟨c, hc⟩ := List.exists_mem_of_ne_nil _ hcalls
    have hline : s.bus.line ≠ [] := by
      have hmem := (hsound.slots.mem_line c.id).mpr ⟨c, hc, rfl, h.call_waiting hsound hc⟩
      exact List.ne_nil_of_mem hmem
    have hrecv : s.bus.receiverOpen = true := by
      rw [hsound.phases.receiver, hd]
      rfl
    have hfull := hsound.slots.full hrecv hline
    have hgranted : s.bus.granted = 0 := by
      unfold Bus.granted
      rw [List.length_eq_zero_iff, List.filter_eq_nil_iff]
      intro c hc
      simp [h.call_waiting hsound hc]
    have hpos := hsound.queueCapacity_pos
    rw [hq, hgranted] at hfull
    simp only [List.length_nil] at hfull
    omega
  · -- all permits are with invocations, and there are none
    have hcount := hsound.permits.counted
    have hzero := hsound.permits.inLine hwait
    have hrunning := h.running_nil hsound hdone
    have hheld : s.bus.dispatcher.held = 0 := by
      cases hd : s.bus.dispatcher with
      | placing m task rest turn => cases turn <;> simp_all [Dispatcher.isWaiting, Dispatcher.held]
      | _ => rfl
    have hdrain : s.bus.watcher.held = 0 := by
      cases hw : s.bus.watcher with
      | draining held =>
          have hover := hsound.phases.joined (by rw [hw]; rfl)
          have hnot := (Dispatcher.held_of_isOver hover).2
          rw [hwait] at hnot
          cases hnot
      | _ => rfl
    have hpos := hsound.maxInFlight_pos
    rw [hzero, hrunning, hheld, hdrain] at hcount
    simp only [List.length_nil] at hcount
    omega
  · exact hover
  · exact absurd hunstarted (hsound.phases.started hroot).1

/-- **No deadlock.**  When the context has ended and nobody has anything to
do, the bus has stopped. -/
theorem stopped_of_still (hsound : s.bus.Sound) (hdone : s.RootDone) (h : s.Still) :
    s.bus.isStopped = true := by
  have hidle : s.bus.watcherReady s.ambient = false := by
    have hstep := h .watcher rfl
    exact Bus.stepWatcher_idle (congrArg (fun step => step.1.bus) hstep)
  obtain ⟨root, hroot, hended⟩ := hdone
  have hdone : s.RootDone := ⟨root, hroot, hended⟩
  cases hw : s.bus.watcher with
  | unstarted => exact absurd hw (hsound.phases.started (by simp [hroot])).2
  | watching => simp [Bus.watcherReady, hw, hroot, hended] at hidle
  | joining =>
      have hclosed : s.bus.senderOpen = false := by
        rw [hsound.phases.sender, hw]
        rfl
      have hover := h.dispatcher_isOver hsound hdone hclosed
      cases hd : s.bus.dispatcher <;> simp_all [Bus.watcherReady, Dispatcher.isOver]
  | draining held =>
      have hover := hsound.phases.joined (by rw [hw]; rfl)
      have hcount := hsound.permits.counted
      rw [hsound.permits.collecting held hw, h.running_nil hsound hdone,
        (Dispatcher.held_of_isOver hover).1, hw] at hcount
      simp [Watcher.held] at hcount
      simp [Bus.watcherReady, hw, hcount] at hidle
  | stopped => simp [Bus.isStopped, hw]

/-- A bus that has stopped for good is left as it is by every run. -/
theorem run_closed (hsound : s.bus.Sound) (hw : s.bus.watcher = .stopped)
    (hd : s.bus.dispatcher = .returned) (later : List Move) :
    (s.run later).1.bus.Closed s.bus.config.maxInFlight := by
  let P (_ : List BusEvent) (b : Bus) : Prop := b.watcher = .stopped ∧ b.dispatcher = .returned
  have hkept : P (s.run later).2 (s.run later).1.bus := by
    refine run_keeps hsound ⟨hw, hd⟩ ?_ later
    rintro a b b' events new hb ⟨hw, hd⟩ hchange
    exact hchange.stopped_stays hb.phases hw hd
  have hclosed := (run_sound hsound later).closed hkept.1 hkept.2
  rwa [run_config hsound later] at hclosed

/-- Once the context has ended, no run calls a handler. -/
theorem run_subdued (hsound : s.bus.Sound) (hdone : s.RootDone) (later : List Move) :
    ∀ event ∈ (s.run later).2, event.Subdued := by
  induction later generalizing s with
  | nil => intro event hmem; cases hmem
  | cons move later ih =>
      obtain ⟨hsound', hmove⟩ := apply_sound hsound move
      intro event hmem
      rw [run_cons] at hmem
      rcases List.mem_append.mp hmem with hfirst | hlater
      · rcases hmove with ⟨-, hnone⟩ | hchange
        · rw [hnone] at hfirst
          cases hfirst
        · obtain ⟨root, hroot, hended⟩ := hdone
          exact hchange.subdued hsound.tethered hroot hended event hfirst
      · exact ih hsound' (hdone.apply hsound move) event hlater

/-- An invocation that is running, or is begun, goes on, unless it is seen to
end. -/
theorem run_running_or_ended (hsound : s.bus.Sound) (later : List Move) {i : Invocation}
    (hi : i ∈ s.bus.running ∨ i ∈ Bus.spawnedIn (s.run later).2) :
    (∃ j ∈ (s.run later).1.bus.running, j.id = i.id) ∨
      ∃ ending, .ended i.id ending ∈ (s.run later).2 := by
  let P (events : List BusEvent) (b : Bus) : Prop :=
    i ∈ s.bus.running ∨ i ∈ Bus.spawnedIn events →
      (∃ j ∈ b.running, j.id = i.id) ∨ ∃ ending, .ended i.id ending ∈ events
  have hfirst : P [] s.bus := fun hi => .inl ⟨i, hi.resolve_right List.not_mem_nil, rfl⟩
  refine run_keeps (P := P) hsound hfirst ?_ later hi
  intro a b b' events new _ hbefore hchange hi
  rw [Bus.spawnedIn_append, List.mem_append, ← or_assoc] at hi
  rcases hi with hold | hnew
  · rcases hbefore hold with ⟨j, hj, hid⟩ | ⟨ending, hended⟩
    · rcases hchange.running_or_ended hj with ⟨k, hk, hkid⟩ | ⟨ending, hended⟩
      · exact .inl ⟨k, hk, hkid.trans hid⟩
      · exact .inr ⟨ending, List.mem_append_right _ (hid ▸ hended)⟩
    · exact .inr ⟨ending, List.mem_append_left _ hended⟩
  · exact .inl ⟨i, hchange.running_of_spawned hnew, rfl⟩

/-- When a bus has stopped after the end of its context, every invocation
has ended by its own. -/
theorem run_interrupted (hsound : s.bus.Sound) (hdone : s.RootDone) (later : List Move)
    (hstopped : (s.run later).1.bus.isStopped = true) {i : Invocation}
    (hi : i ∈ s.bus.running ∨ i ∈ Bus.spawnedIn (s.run later).2) :
    ∃ e, .ended i.id (.interrupted e) ∈ (s.run later).2 ∧ e.isContextEnd = true := by
  have hquiet := (run_sound hsound later).permits.quiet (of_decide_eq_true hstopped)
  have hfate := run_running_or_ended hsound later hi
  rw [hquiet] at hfate
  obtain ⟨ending, hmem⟩ := hfate.resolve_left (by simp)
  have hsubdued := run_subdued hsound hdone later _ hmem
  cases ending with
  | interrupted e => exact ⟨e, hmem, hsubdued⟩
  | returned outcome => exact hsubdued.elim
  | collapsed => exact hsubdued.elim

/-- **Shutdown.**  A bus that has stopped is empty, at rest and closed, and
stays so.  Once its context has ended, no handler is called; the messages
in the queue, and those that calls still put there, are taken off, and
when the bus has stopped every invocation has ended by its context.  And
the bus does stop, unless somebody still has something to do. -/
theorem shutdown_run (config : BusConfig) (tokens : Tokens) (moves : List Move)
    (h : (initial config tokens).Addable moves) :
    let s := ((initial config tokens).run moves).1
    (s.bus.isStopped = true →
      ∀ later, (s.run later).1.bus.Closed (max config.maxInFlight 1)) ∧
    (s.RootDone → ∀ later,
      (∀ event ∈ (s.run later).2, event.Subdued) ∧
      ((initial config tokens).Addable (moves ++ later) →
        Bus.takenIn (s.run later).2 ++ (s.run later).1.bus.queue =
          s.bus.queue ++ Bus.acceptedIn (s.run later).2) ∧
      ((s.run later).1.bus.isStopped = true →
        ∀ i, i ∈ s.bus.running ∨ i ∈ Bus.spawnedIn (s.run later).2 →
          ∃ e, .ended i.id (.interrupted e) ∈ (s.run later).2 ∧ e.isContextEnd = true)) ∧
    (s.RootDone → s.Still → s.bus.isStopped = true) := by
  intro s
  have hsound : s.bus.Sound := sound_run config tokens moves
  refine ⟨?_, ?_, ?_⟩
  · intro hstopped later
    have hw : s.bus.watcher = .stopped := of_decide_eq_true hstopped
    have hd : s.bus.dispatcher = .returned :=
      (unbroken_run h).returned_of_stopped hsound.phases hw
    have hconfig : s.bus.config = config.effective :=
      run_config (s := initial config tokens) (.ofConfig config) moves
    have hclosed := run_closed hsound hw hd later
    rw [hconfig] at hclosed
    exact hclosed
  · intro hdone later
    refine ⟨run_subdued hsound hdone later, ?_, ?_⟩
    · intro hlater
      have hbefore := (fanout_of_addable h).queued
      have hafter := (fanout_of_addable hlater).queued
      rw [run_append, Bus.acceptedIn_append, Bus.takenIn_append, hbefore, List.append_assoc,
        List.append_assoc] at hafter
      exact (List.append_cancel_left hafter).symm
    · exact fun hstopped i hi => run_interrupted hsound hdone later hstopped hi
  · exact fun hdone hstill => stopped_of_still hsound hdone hstill

/-- The context of the bus in `crowdedMoves` is cancelled while the second
order is in the queue and an invocation waits to be asked. -/
def cancelledMoves : List Move := crowdedMoves ++ [.cancel ⟨[0], none, none, none⟩]

/-- What the parties then do until the bus has stopped. -/
def closingMoves : List Move :=
  [.watcher, .call 0, .invocation 1 .pending, .dispatcher,
    .dispatcher, .invocation 2 .pending, .dispatcher, .invocation 3 .pending,
    .dispatcher, .invocation 4 .pending, .dispatcher, .watcher, .watcher]

/-- The second order is taken off, nobody handles it, and the bus stops. -/
theorem shutdown_run_crowded :
    let start := initial ⟨0, 0⟩ ⟨2, []⟩
    let cancelled := (start.run cancelledMoves).1
    let final := (start.run (cancelledMoves ++ closingMoves)).1
    start.Addable (cancelledMoves ++ closingMoves) ∧ cancelled.RootDone ∧
      (∀ event ∈ (cancelled.run closingMoves).2, event.Subdued) ∧
      (Bus.takenIn (cancelled.run closingMoves).2).map (·.id) = ["o-2"] ∧
      (∀ later, (final.run later).1.bus.Closed 1) ∧
      final.Still ∧ final.bus.isStopped = true := by
  have hfits : (initial ⟨0, 0⟩ ⟨2, []⟩).Addable (cancelledMoves ++ closingMoves) := by
    intro task hmem
    simp only [cancelledMoves, crowdedMoves, closingMoves, List.mem_append, List.mem_cons,
      Move.register.injEq, reduceCtorEq, List.not_mem_nil, or_false, false_or] at hmem
    rcases hmem with rfl | rfl | rfl
    · exact .inl rfl
    · exact .inr (Context.fits_iff.mpr (by decide))
    · exact .inl rfl
  have hdone : ((initial ⟨0, 0⟩ ⟨2, []⟩).run cancelledMoves).1.RootDone :=
    ⟨⟨[0], none, none, none⟩, rfl, rfl⟩
  have hdone' : ((initial ⟨0, 0⟩ ⟨2, []⟩).run (cancelledMoves ++ closingMoves)).1.RootDone :=
    ⟨⟨[0], none, none, none⟩, rfl, rfl⟩
  have hstill : ((initial ⟨0, 0⟩ ⟨2, []⟩).run (cancelledMoves ++ closingMoves)).1.Still := by
    intro move hstep
    cases move with
    | call id => rfl
    | dispatcher => rfl
    | watcher => rfl
    | invocation id reply => rfl
    | _ => cases hstep
  obtain ⟨-, hclosing, -⟩ := shutdown_run ⟨0, 0⟩ ⟨2, []⟩ cancelledMoves hfits.of_append
  obtain ⟨hclosed, -, hlive⟩ :=
    shutdown_run ⟨0, 0⟩ ⟨2, []⟩ (cancelledMoves ++ closingMoves) hfits
  exact ⟨hfits, hdone, (hclosing hdone closingMoves).1, rfl, hclosed rfl, hstill,
    hlive hdone' hstill⟩

end System
end PubSub
