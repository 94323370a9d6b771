import PubSub.Bus.System

/-!
# What one step can do to a bus

Every move of a system changes its bus in one of the ways listed by
`Bus.Change`, or leaves it alone.  A way names all that it depends on and
all that it changes, so an invariant of the bus is proved by going
through the list once, without opening the step functions.

* `Bus.Change` — the ways in which a bus changes, with what is seen;
* `System.apply_change` — there are no others.
-/

namespace PubSub

namespace Bus

/-- The listeners of a message: the tasks on its stream, in the order of
their registration. -/
def audience (b : Bus) (m : Message) : List Task :=
  b.listeners.filter (·.stream == m.stream)

/-- The bus without a call that is over. -/
def dismiss (b : Bus) (c : Call) : Bus :=
  { b with
    calls := b.calls.filter (·.id ≠ c.id)
    line := b.line.filter (· ≠ c.id) }

/-- The dispatcher has a permit for the next listener, or takes a free one;
`permits` are free afterwards. -/
def Lends (b : Bus) (m : Message) (task : Task) (rest : List Task) (permits : Nat) : Prop :=
  b.dispatcher = .placing m task rest .asking ∧ b.permits = permits + 1 ∨
    b.dispatcher = .placing m task rest .holding ∧ b.permits = permits

/-- How an invocation that is asked can end: by its context if that has
ended, and otherwise by its handler, once that has been called. -/
def Ends (a : Ambient) (i : Invocation) : Ending → Prop
  | .interrupted e => a.err i.ctx = some e
  | _ => a.err i.ctx = none ∧ i.entered = true

section Frame

variable (b : Bus)

@[simp] theorem releaseSlot_config : b.releaseSlot.config = b.config := by
  unfold releaseSlot; split <;> rfl

@[simp] theorem releaseSlot_root : b.releaseSlot.root = b.root := by
  unfold releaseSlot; split <;> rfl

@[simp] theorem releaseSlot_senderOpen : b.releaseSlot.senderOpen = b.senderOpen := by
  unfold releaseSlot; split <;> rfl

@[simp] theorem releaseSlot_receiverOpen : b.releaseSlot.receiverOpen = b.receiverOpen := by
  unfold releaseSlot; split <;> rfl

@[simp] theorem releaseSlot_queue : b.releaseSlot.queue = b.queue := by
  unfold releaseSlot; split <;> rfl

@[simp] theorem releaseSlot_listeners : b.releaseSlot.listeners = b.listeners := by
  unfold releaseSlot; split <;> rfl

@[simp] theorem releaseSlot_dispatcher : b.releaseSlot.dispatcher = b.dispatcher := by
  unfold releaseSlot; split <;> rfl

@[simp] theorem releaseSlot_watcher : b.releaseSlot.watcher = b.watcher := by
  unfold releaseSlot; split <;> rfl

@[simp] theorem releaseSlot_permits : b.releaseSlot.permits = b.permits := by
  unfold releaseSlot; split <;> rfl

@[simp] theorem releaseSlot_running : b.releaseSlot.running = b.running := by
  unfold releaseSlot; split <;> rfl

@[simp] theorem releaseSlot_nextCall : b.releaseSlot.nextCall = b.nextCall := by
  unfold releaseSlot; split <;> rfl

@[simp] theorem releaseSlot_nextInvocation :
    b.releaseSlot.nextInvocation = b.nextInvocation := by
  unfold releaseSlot; split <;> rfl

/-- A permit that comes back goes to the dispatcher if that is in line, else
to the watcher if that collects permits and has not got all, and is free
otherwise. -/
theorem releasePermit_cases :
    (∃ m task rest, b.dispatcher = .placing m task rest .waiting ∧
        b.releasePermit = { b with dispatcher := .placing m task rest .holding }) ∨
      (∃ held, b.watcher = .draining held ∧ held < b.config.maxInFlight ∧
        b.releasePermit = { b with watcher := .draining (held + 1) }) ∨
      (∀ m task rest, b.dispatcher ≠ .placing m task rest .waiting) ∧
        (∀ held, b.watcher = .draining held → b.config.maxInFlight ≤ held) ∧
        b.releasePermit = { b with permits := b.permits + 1 } := by
  unfold releasePermit
  split
  · rename_i m task rest hd
    exact .inl ⟨m, task, rest, hd, rfl⟩
  · rename_i held hw hnot
    right
    split
    · rename_i hlt
      exact .inl ⟨held, hw, hlt, rfl⟩
    · rename_i hge
      refine .inr ⟨fun m task rest hd => hnot m task rest hd, ?_, rfl⟩
      intro held' hw'
      rw [hw] at hw'
      cases hw'
      omega
  · rename_i hnot hfree
    exact .inr (.inr ⟨fun m task rest hd => hnot m task rest hd,
      fun held hw => absurd hw (hfree held), rfl⟩)

/-- A permit that comes back concerns the dispatcher, the watcher and the
free permits only. -/
theorem releasePermit_frame :
    ∃ dispatcher watcher permits,
      b.releasePermit = { b with dispatcher, watcher, permits } := by
  rcases b.releasePermit_cases with ⟨_, _, _, -, h⟩ | ⟨_, -, -, h⟩ | ⟨-, -, h⟩
  · exact ⟨_, b.watcher, b.permits, h⟩
  · exact ⟨b.dispatcher, _, b.permits, h⟩
  · exact ⟨b.dispatcher, b.watcher, _, h⟩

/-- A slot that is handed out concerns the line and the calls only. -/
theorem releaseSlot_frame : ∃ line calls, b.releaseSlot = { b with line, calls } := by
  unfold releaseSlot
  split
  · exact ⟨b.line, b.calls, rfl⟩
  · exact ⟨_, _, rfl⟩

/-- A dispatcher that breaks down does not come back. -/
@[simp] theorem abort_dispatcher (why : Abort) : (b.abort why).dispatcher = .aborted why := by
  rcases releasePermit_cases
      ({ b with dispatcher := .aborted why, receiverOpen := false, queue := [] })
    with ⟨_, _, _, hd, -⟩ | ⟨_, -, -, hframe⟩ | ⟨-, -, hframe⟩
  · cases hd
  · rw [abort, hframe]
  · rw [abort, hframe]

/-- A call that begins is added to the calls of an open bus. -/
theorem beginCall_ok {b b' : Bus} {ctx : Context} {messages : List Message} {id : Nat}
    (h : b.beginCall ctx messages = .ok (id, b')) :
    b.isStarted = true ∧ b.senderOpen = true ∧ id = b.nextCall ∧
      b' = { b with
        calls := b.calls ++ [⟨b.nextCall, ctx, messages, 0, .calling⟩]
        nextCall := b.nextCall + 1 } := by
  unfold beginCall at h
  split at h
  · cases h
  · split at h
    · cases h
    · rename_i hstart hopen
      cases h
      simp_all

/-- A step of a call concerns the queue, the line and the calls only. -/
theorem stepCall_frame (a : Ambient) (c : Call) :
    ∃ queue line calls, (b.stepCall a c).1 = { b with queue, line, calls } := by
  have hanswer : ∀ result,
      ∃ queue line calls, (b.answer c result).1 = { b with queue, line, calls } :=
    fun result => ⟨b.queue, _, _, rfl⟩
  unfold stepCall
  split
  · exact hanswer _
  · unfold forfeit
    dsimp only
    split
    · obtain ⟨line, calls, hframe⟩ := (b.answer c _).1.releaseSlot_frame
      exact ⟨b.queue, line, calls, hframe⟩
    · exact hanswer _
  · exact hanswer _
  · split
    · exact hanswer _
    · split
      · exact ⟨_, b.line, _, rfl⟩
      · split
        · exact ⟨_, b.line, _, rfl⟩
        · exact ⟨b.queue, _, _, rfl⟩
      · exact ⟨b.queue, b.line, b.calls, rfl⟩

/-- Asking an invocation concerns the invocations, and the permits if it
ends. -/
theorem pollInvocation_frame (i : Invocation) (ended : Option Error) (reply : Reply) :
    (∃ running, (b.pollInvocation i ended reply).1 = { b with running }) ∨
      ∃ running, (b.pollInvocation i ended reply).1 = { b with running }.releasePermit := by
  unfold pollInvocation
  split
  · exact .inr ⟨_, rfl⟩
  · exact .inl ⟨_, rfl⟩
  · exact .inl ⟨b.running, rfl⟩
  · exact .inr ⟨_, rfl⟩
  · exact .inr ⟨_, rfl⟩

end Frame

/-- The ways in which a bus changes, with what can be seen. -/
inductive Change (a : Ambient) (b : Bus) : List BusEvent → Bus → Prop
  | started (ctx : Context) (hroot : b.root = none) :
      Change a b (b.start ctx).2
        { b with root := some ctx, dispatcher := .receiving, watcher := .watching }
  | registered (task : Task) :
      Change a b (b.register task).2 { b with listeners := b.listeners ++ [task] }
  | called (ctx : Context) (messages : List Message)
      (hstart : b.isStarted = true) (hopen : b.senderOpen = true) :
      Change a b []
        { b with
          calls := b.calls ++ [⟨b.nextCall, ctx, messages, 0, .calling⟩]
          nextCall := b.nextCall + 1 }
  | completed {c : Call} (hc : c ∈ b.calls) (hp : c.pending = []) :
      Change a b [.answered c.id (.ok c.written)] (b.dismiss c)
  | gaveUp {c : Call} {e : Error} (hc : c ∈ b.calls) (hp : c.pending ≠ [])
      (hplace : c.place ≠ .granted) (herr : a.err c.ctx = some e) :
      Change a b [.answered c.id (.error e)] (b.dismiss c)
  | forfeited {c : Call} {e : Error} (hc : c ∈ b.calls) (hp : c.pending ≠ [])
      (hplace : c.place = .granted) (herr : a.err c.ctx = some e) :
      Change a b [.answered c.id (.error e)]
        (if b.receiverOpen then (b.dismiss c).releaseSlot else b.dismiss c)
  | refused {c : Call} (hc : c ∈ b.calls) (hp : c.pending ≠ [])
      (herr : a.err c.ctx = none) (hrecv : b.receiverOpen = false) :
      Change a b [.answered c.id (.error .busClosed)] (b.dismiss c)
  | pushed {c : Call} {m : Message} {pending : List Message} (hc : c ∈ b.calls)
      (hp : c.pending = m :: pending) (herr : a.err c.ctx = none)
      (hrecv : b.receiverOpen = true)
      (hslot : c.place = .granted ∨ c.place = .calling ∧ 0 < b.freeSlots) :
      Change a b [.accepted c.id m]
        ({ b with queue := b.queue ++ [m] }.updateCall c.id fun c =>
          { c with pending, written := c.written + 1, place := .calling })
  | queued {c : Call} (hc : c ∈ b.calls) (hp : c.pending ≠ [])
      (herr : a.err c.ctx = none) (hrecv : b.receiverOpen = true)
      (hplace : c.place = .calling) (hslot : b.freeSlots = 0) :
      Change a b []
        ({ b with line := b.line ++ [c.id] }.updateCall c.id fun c =>
          { c with place := .waiting })
  | unheard {m : Message} {queue : List Message} (hd : b.dispatcher = .receiving)
      (hq : b.queue = m :: queue) (hl : b.audience m = []) :
      Change a b [.taken m, Bus.unheard m] { b with queue }.releaseSlot
  | taken {m : Message} {queue : List Message} {task : Task} {rest : List Task}
      (hd : b.dispatcher = .receiving) (hq : b.queue = m :: queue)
      (hl : b.audience m = task :: rest) :
      Change a b [.taken m]
        { { b with queue }.releaseSlot with dispatcher := .placing m task rest .asking }
  | returned (hd : b.dispatcher = .receiving) (hq : b.queue = [])
      (hclosed : b.isClosed = true) :
      Change a b [] { b with dispatcher := .returned, receiverOpen := false }
  | lined {m : Message} {task : Task} {rest : List Task}
      (hd : b.dispatcher = .placing m task rest .asking) (hpermits : b.permits = 0) :
      Change a b [] { b with dispatcher := .placing m task rest .waiting }
  | spawned {m : Message} {task : Task} {rest : List Task} {permits : Nat}
      {root ctx : Context} {tokens : Tokens} (hlend : b.Lends m task rest permits)
      (hroot : b.root = some root) (hctx : contextFor root task a = .ok (ctx, tokens)) :
      Change a b [.spawned ⟨b.nextInvocation, task, m, ctx, false⟩]
        { b with
          permits
          running := b.running ++ [⟨b.nextInvocation, task, m, ctx, false⟩]
          nextInvocation := b.nextInvocation + 1
          dispatcher := nextPlacing m rest }
  | aborted {m : Message} {task : Task} {rest : List Task} {permits : Nat}
      {root : Context} {why : Abort} (hlend : b.Lends m task rest permits)
      (hroot : b.root = some root) (hctx : contextFor root task a = .error why) :
      Change a b [] ({ b with permits }.abort why)
  | closing {root : Context} (hw : b.watcher = .watching) (hroot : b.root = some root)
      (hdone : a.isDone root = true) :
      Change a b [.log (.plain .debug "in-memory bus shutting down" [])]
        { b with senderOpen := false, watcher := .joining }
  | joined (hw : b.watcher = .joining)
      (hd : b.dispatcher = .returned ∨ ∃ why, b.dispatcher = .aborted why) :
      Change a b b.joinEvents { b with watcher := .draining b.permits, permits := 0 }
  | stopped (hw : b.watcher = .draining b.config.maxInFlight) :
      Change a b [.log (.plain .debug "in-memory bus stopped" [])]
        { b with watcher := .stopped, permits := b.permits + b.config.maxInFlight }
  | entered {i : Invocation} (hi : i ∈ b.running) (herr : a.err i.ctx = none)
      (hfresh : i.entered = false) :
      Change a b [.entered i.id]
        { b with running := b.running.map fun j =>
            if j.id = i.id then { j with entered := true } else j }
  | finished {i : Invocation} (hi : i ∈ b.running) (ending : Ending)
      (hend : Ends a i ending) :
      Change a b (endingEvents i ending)
        { b with running := b.running.filter (·.id ≠ i.id) }.releasePermit

variable {a : Ambient} {b : Bus}

/-- A step of a call that is not over. -/
theorem stepCall_change {c : Call} (hc : c ∈ b.calls) :
    (b.stepCall a c).1 = b ∧ (b.stepCall a c).2 = [] ∨
      Change a b (b.stepCall a c).2 (b.stepCall a c).1 := by
  cases hp : c.pending with
  | nil =>
      right
      have hstep : b.stepCall a c = b.answer c (.ok c.written) := by simp [stepCall, hp]
      rw [hstep]
      exact Change.completed hc hp
  | cons m pending =>
      have hne : c.pending ≠ [] := by simp [hp]
      cases herr : a.err c.ctx with
      | some e =>
          right
          by_cases hplace : c.place = .granted
          · simpa [stepCall, hp, herr, hplace, forfeit, answer, dismiss]
              using Change.forfeited hc hne hplace herr
          · have hstep : b.stepCall a c = b.answer c (.error e) := by
              cases hpl : c.place <;> simp_all [stepCall]
            rw [hstep]
            exact Change.gaveUp hc hne hplace herr
      | none =>
          cases hrecv : b.receiverOpen with
          | false =>
              right
              have hstep : b.stepCall a c = b.answer c (.error .busClosed) := by
                cases hpl : c.place <;> simp [stepCall, hp, herr, hpl, hrecv]
              rw [hstep]
              exact Change.refused hc hne herr hrecv
          | true =>
              cases hplace : c.place with
              | granted =>
                  right
                  simpa [stepCall, hp, herr, hplace, hrecv, push]
                    using Change.pushed hc hp herr hrecv (.inl hplace)
              | calling =>
                  right
                  by_cases hslot : 0 < b.freeSlots
                  · simpa [stepCall, hp, herr, hplace, hrecv, hslot, push]
                      using Change.pushed hc hp herr hrecv (.inr ⟨hplace, hslot⟩)
                  · simpa [stepCall, hp, herr, hplace, hrecv, hslot, queueUp]
                      using Change.queued hc hne herr hrecv hplace (by omega)
              | waiting => left; simp [stepCall, hp, herr, hplace, hrecv]

/-- A message is taken off the queue. -/
theorem take_change {m : Message} {queue : List Message} (hd : b.dispatcher = .receiving)
    (hq : b.queue = m :: queue) : Change a b (b.take m queue).2 (b.take m queue).1 := by
  have hheard : ({ b with queue } : Bus).releaseSlot.listeners.filter
      (·.stream == m.stream) = b.audience m := by
    rw [releaseSlot_listeners]
    rfl
  cases hl : b.audience m with
  | nil =>
      have htake : b.take m queue =
          ({ b with queue }.releaseSlot, [.taken m, Bus.unheard m]) := by
        simp only [take, hheard, hl]
      rw [htake]
      exact Change.unheard hd hq hl
  | cons task rest =>
      have htake : b.take m queue =
          ({ { b with queue }.releaseSlot with
              dispatcher := .placing m task rest .asking }, [.taken m]) := by
        simp only [take, hheard, hl]
      rw [htake]
      exact Change.taken hd hq hl

/-- The dispatcher begins an invocation with the permit it has, or breaks
down. -/
theorem spawn_change {m : Message} {task : Task} {rest : List Task} {permits : Nat}
    {root : Context} (hlend : b.Lends m task rest permits) (hroot : b.root = some root) :
    Change a b ({ b with permits }.spawn a m task rest).2.2
      ({ b with permits }.spawn a m task rest).1 := by
  cases hctx : contextFor root task a with
  | ok made => simpa [spawn, hroot, hctx] using Change.spawned hlend hroot hctx
  | error why => simpa [spawn, hroot, hctx] using Change.aborted hlend hroot hctx

/-- A step of the dispatcher of a bus that has a context. -/
theorem stepDispatcher_change (hstarted : b.root = none → b.dispatcher = .unstarted) :
    (b.stepDispatcher a).1 = b ∧ (b.stepDispatcher a).2.2 = [] ∨
      Change a b (b.stepDispatcher a).2.2 (b.stepDispatcher a).1 := by
  cases hd : b.dispatcher with
  | unstarted => left; simp [stepDispatcher, hd]
  | returned => left; simp [stepDispatcher, hd]
  | aborted why => left; simp [stepDispatcher, hd]
  | receiving =>
      cases hq : b.queue with
      | nil =>
          cases hclosed : b.isClosed with
          | false => left; simp [stepDispatcher, hd, hq, hclosed]
          | true =>
              right
              have hstep : b.stepDispatcher a =
                  ({ b with dispatcher := .returned, receiverOpen := false }, a.tokens, []) := by
                simp [stepDispatcher, hd, hq, hclosed]
              rw [hstep]
              exact Change.returned hd hq hclosed
      | cons m queue =>
          right
          have hstep : b.stepDispatcher a =
              ((b.take m queue).1, a.tokens, (b.take m queue).2) := by
            simp [stepDispatcher, hd, hq]
          rw [hstep]
          exact take_change hd hq
  | placing m task rest turn =>
      obtain ⟨root, hroot⟩ : ∃ root, b.root = some root :=
        Option.ne_none_iff_exists'.mp fun h => by simp [hstarted h] at hd
      cases turn with
      | waiting => left; simp [stepDispatcher, hd]
      | holding =>
          right
          have hstep : b.stepDispatcher a = b.spawn a m task rest := by
            simp [stepDispatcher, hd]
          rw [hstep]
          exact spawn_change (.inr ⟨hd, rfl⟩) hroot
      | asking =>
          right
          by_cases hpermits : 0 < b.permits
          · have hstep : b.stepDispatcher a =
                { b with permits := b.permits - 1 }.spawn a m task rest := by
              simp [stepDispatcher, hd, hpermits]
            rw [hstep]
            exact spawn_change (.inl ⟨hd, by omega⟩) hroot
          · have hzero : b.permits = 0 := by omega
            have hstep : b.stepDispatcher a =
                ({ b with dispatcher := .placing m task rest .waiting }, a.tokens, []) := by
              simp [stepDispatcher, hd, hpermits]
            rw [hstep]
            exact Change.lined hd hzero

/-- A step of the watcher. -/
theorem stepWatcher_change :
    (b.stepWatcher a).1 = b ∧ (b.stepWatcher a).2 = [] ∨
      Change a b (b.stepWatcher a).2 (b.stepWatcher a).1 := by
  cases hready : b.watcherReady a with
  | false => left; simp [stepWatcher, hready]
  | true =>
      right
      cases hw : b.watcher with
      | unstarted => simp [watcherReady, hw] at hready
      | stopped => simp [watcherReady, hw] at hready
      | watching =>
          have hany : b.root.any a.isDone = true := by simpa [watcherReady, hw] using hready
          obtain ⟨root, hroot, hdone⟩ := (Option.any_eq_true _ _).mp hany
          simpa [stepWatcher, hready, hw] using Change.closing hw hroot hdone
      | joining =>
          have hd : b.dispatcher = .returned ∨ ∃ why, b.dispatcher = .aborted why := by
            cases hd : b.dispatcher <;> simp [watcherReady, hw, hd] at hready ⊢
          simpa [stepWatcher, hready, hw] using Change.joined hw hd
      | draining held =>
          have hheld : held = b.config.maxInFlight := by simpa [watcherReady, hw] using hready
          subst hheld
          simpa [stepWatcher, hready, hw] using Change.stopped hw

/-- An invocation that is asked. -/
theorem pollInvocation_change {i : Invocation} (reply : Reply) (hi : i ∈ b.running) :
    (b.pollInvocation i (a.err i.ctx) reply).1 = b ∧
        (b.pollInvocation i (a.err i.ctx) reply).2 = [] ∨
      Change a b (b.pollInvocation i (a.err i.ctx) reply).2
        (b.pollInvocation i (a.err i.ctx) reply).1 := by
  cases herr : a.err i.ctx with
  | some e =>
      right
      exact Change.finished hi (.interrupted e) herr
  | none =>
      cases hentered : i.entered with
      | false =>
          right
          simpa [pollInvocation, hentered, enterHandler] using Change.entered hi herr hentered
      | true =>
          cases reply with
          | pending => left; simp [pollInvocation, hentered]
          | returned outcome =>
              right
              simpa [pollInvocation, hentered, finish]
                using Change.finished hi (.returned outcome) ⟨herr, hentered⟩
          | collapsed =>
              right
              simpa [pollInvocation, hentered, finish]
                using Change.finished hi .collapsed ⟨herr, hentered⟩

end Bus

namespace System

/-- A move changes the bus in one of the listed ways, or leaves it alone. -/
theorem apply_change (s : System) (move : Move)
    (hstarted : s.bus.root = none → s.bus.dispatcher = .unstarted) :
    (s.apply move).1.bus = s.bus ∧ (s.apply move).2 = [] ∨
      Bus.Change s.ambient s.bus (s.apply move).2 (s.apply move).1.bus := by
  cases move with
  | start ctx =>
      cases hroot : s.bus.root with
      | some root => left; simp [apply, ofStep, Bus.start, Bus.isStarted, hroot]
      | none =>
          right
          simpa [apply, ofStep, Bus.start, Bus.isStarted, hroot]
            using Bus.Change.started (a := s.ambient) ctx hroot
  | register task => exact .inr (.registered task)
  | write ctx messages =>
      by_cases hstart : s.bus.isStarted = true
      · by_cases hopen : s.bus.senderOpen = true
        · right
          simpa [apply, Bus.beginCall, hstart, hopen]
            using Bus.Change.called (a := s.ambient) ctx messages hstart hopen
        · left; simp [apply, Bus.beginCall, hstart, hopen]
      · left; simp [apply, Bus.beginCall, hstart]
  | call id =>
      cases hc : s.bus.call? id with
      | none => left; simp [apply, hc]
      | some c =>
          simpa [apply, hc, ofStep]
            using Bus.stepCall_change (a := s.ambient) (List.mem_of_find?_eq_some hc)
  | dispatcher => exact Bus.stepDispatcher_change hstarted
  | watcher => exact Bus.stepWatcher_change
  | invocation id reply =>
      cases hi : s.bus.invocation? id with
      | none => left; simp [apply, hi]
      | some i =>
          simpa [apply, hi, ofStep]
            using Bus.pollInvocation_change (a := s.ambient) reply (List.mem_of_find?_eq_some hi)
  | issue => exact .inl ⟨rfl, rfl⟩
  | cancel ctx => exact .inl ⟨rfl, rfl⟩
  | advance millis => exact .inl ⟨rfl, rfl⟩

end System

end PubSub
