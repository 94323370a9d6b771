import PubSub.Proofs.Bus.Run

/-!
# Listeners and their invocations

The listeners of a bus are those that were registered.  The dispatcher
gives messages to listeners only, so what holds of all tasks that are
registered holds of every task that the bus ever has to do with.

* `Dispatcher.current`, `Dispatcher.pending` — what the dispatcher is at;
* `Bus.Tasks`, `Tasks.change` — a property of all tasks of a bus;
* `System.apply_listeners`, `System.run_listeners` — the listeners.
-/

namespace PubSub

/-- The message that is being given to listeners. -/
def Dispatcher.current : Dispatcher → Option Message
  | .placing m _ _ _ => some m
  | _ => none

/-- The listeners that it still has to be given to. -/
def Dispatcher.pending : Dispatcher → List Task
  | .placing _ task rest _ => task :: rest
  | _ => []

/-- The listener that a move registers. -/
def Move.registered : Move → List Task
  | .register task => [task]
  | _ => []

namespace Bus

/-- A property of the listeners, and of the tasks that messages are being
given to. -/
structure Tasks (P : Task → Prop) (b : Bus) : Prop where
  listeners : ∀ task ∈ b.listeners, P task
  pending : ∀ task ∈ b.dispatcher.pending, P task
  running : ∀ i ∈ b.running, P i.task

variable {a : Ambient} {b b' : Bus} {events : List BusEvent} {P : Task → Prop}

/-- A permit that comes back does not change what the dispatcher is at. -/
theorem releasePermit_current (b : Bus) :
    b.releasePermit.dispatcher.current = b.dispatcher.current ∧
      b.releasePermit.dispatcher.pending = b.dispatcher.pending := by
  rcases b.releasePermit_cases with ⟨m, task, rest, hd, hframe⟩ | ⟨_, -, -, hframe⟩ |
    ⟨-, -, hframe⟩
  · rw [hframe, hd]
    exact ⟨rfl, rfl⟩
  · rw [hframe]
    exact ⟨rfl, rfl⟩
  · rw [hframe]
    exact ⟨rfl, rfl⟩

/-- A bus that has not been started has no tasks. -/
theorem Tasks.initial (config : BusConfig) (tokens : Tokens) :
    (System.initial config tokens).bus.Tasks P :=
  ⟨by simp [System.initial, Bus.ofConfig],
    by simp [System.initial, Bus.ofConfig, Dispatcher.pending],
    by simp [System.initial, Bus.ofConfig]⟩

/-- Every change leaves the bus with listeners' tasks only. -/
theorem Tasks.change (h : b.Tasks P) (hchange : Change a b events b')
    (hlisteners : ∀ task ∈ b'.listeners, P task) : b'.Tasks P := by
  cases hchange with
  | started ctx hroot => exact ⟨hlisteners, by simp [Dispatcher.pending], h.running⟩
  | forfeited hc hp hplace herr =>
      refine ⟨hlisteners, ?_, ?_⟩ <;> split
      · simpa [dismiss] using h.pending
      · exact h.pending
      · simpa [dismiss] using h.running
      · exact h.running
  | unheard hd hq hl => exact ⟨hlisteners, by simpa using h.pending, by simpa using h.running⟩
  | @taken m queue task rest hd hq hl =>
      refine ⟨hlisteners, ?_, by simpa using h.running⟩
      intro waiting hwaiting
      refine h.listeners waiting (List.mem_of_mem_filter (p := (·.stream == m.stream)) ?_)
      change waiting ∈ b.audience m
      rw [hl]
      exact hwaiting
  | returned hd hq hclosed => exact ⟨hlisteners, by simp [Dispatcher.pending], h.running⟩
  | lined hd hpermits =>
      have hpending := h.pending
      rw [hd] at hpending
      exact ⟨hlisteners, hpending, h.running⟩
  | @spawned m task rest permits root ctx tokens hlend hroot hctx =>
      have hpending : ∀ waiting ∈ task :: rest, P waiting := by
        intro waiting hwaiting
        refine h.pending waiting ?_
        rcases hlend with ⟨hd, -⟩ | ⟨hd, -⟩ <;> rw [hd] <;> exact hwaiting
      refine ⟨hlisteners, ?_, ?_⟩
      · cases rest with
        | nil => simp [nextPlacing, Dispatcher.pending]
        | cons next rest =>
            exact fun waiting hwaiting => hpending waiting (List.mem_cons_of_mem task hwaiting)
      · intro i hi
        rcases List.mem_append.mp hi with hi | hi
        · exact h.running i hi
        · rw [List.mem_singleton.mp hi]
          exact hpending task List.mem_cons_self
  | @aborted m task rest permits root why hlend hroot hctx =>
      obtain ⟨_, _, _, hframe⟩ := releasePermit_frame
        { b with permits, dispatcher := .aborted why, receiverOpen := false, queue := [] }
      refine ⟨hlisteners, ?_, ?_⟩
      · simp [Dispatcher.pending]
      · rw [abort, hframe]
        exact h.running
  | entered hi herr hfresh =>
      refine ⟨hlisteners, h.pending, ?_⟩
      intro i hi
      obtain ⟨j, hj, rfl⟩ := List.mem_map.mp hi
      split <;> exact h.running j hj
  | @finished i hi ending hend =>
      refine ⟨hlisteners, ?_, ?_⟩
      · rw [(releasePermit_current _).2]
        exact h.pending
      · obtain ⟨_, _, _, hframe⟩ :=
          releasePermit_frame { b with running := b.running.filter (·.id ≠ i.id) }
        rw [hframe]
        exact fun j hj => h.running j (List.mem_of_mem_filter hj)
  | _ => exact ⟨hlisteners, h.pending, h.running⟩

/-- Write calls do not touch the listeners. -/
theorem stepCall_listeners (c : Call) : (b.stepCall a c).1.listeners = b.listeners := by
  obtain ⟨_, _, _, hframe⟩ := b.stepCall_frame a c
  rw [hframe]

/-- Beginning an invocation does not touch the listeners. -/
theorem spawn_listeners (m : Message) (task : Task) (rest : List Task) :
    (b.spawn a m task rest).1.listeners = b.listeners := by
  unfold spawn
  split
  · rfl
  · split
    · obtain ⟨_, _, _, hframe⟩ := releasePermit_frame _
      rw [abort, hframe]
    · rfl

/-- The dispatcher does not touch the listeners. -/
theorem stepDispatcher_listeners : (b.stepDispatcher a).1.listeners = b.listeners := by
  unfold stepDispatcher
  split
  · split
    · unfold take
      dsimp only
      split <;> exact releaseSlot_listeners _
    · split <;> rfl
  · split
    · exact spawn_listeners _ _ _
    · rfl
  · exact spawn_listeners _ _ _
  · rfl

/-- The watcher does not touch the listeners. -/
theorem stepWatcher_listeners : (b.stepWatcher a).1.listeners = b.listeners := by
  unfold stepWatcher
  split
  · rfl
  · split <;> rfl

/-- Invocations do not touch the listeners. -/
theorem pollInvocation_listeners (i : Invocation) (ended : Option Error) (reply : Reply) :
    (b.pollInvocation i ended reply).1.listeners = b.listeners := by
  rcases b.pollInvocation_frame i ended reply with ⟨_, hframe⟩ | ⟨_, hframe⟩
  · rw [hframe]
  · obtain ⟨_, _, _, hpermit⟩ := releasePermit_frame _
    rw [hframe, hpermit]

end Bus

namespace System

/-- A move registers at most its own listener. -/
theorem apply_listeners (s : System) (move : Move) :
    (s.apply move).1.bus.listeners = s.bus.listeners ++ move.registered := by
  cases move with
  | start ctx =>
      simp only [apply, ofStep, Bus.start, Move.registered, List.append_nil]
      split <;> rfl
  | register task => rfl
  | write ctx messages =>
      simp only [apply, Move.registered, List.append_nil]
      split
      · rename_i hbegin
        obtain ⟨-, -, -, rfl⟩ := Bus.beginCall_ok hbegin
        rfl
      · rfl
  | call id =>
      simp only [apply, Move.registered, List.append_nil]
      split
      · exact Bus.stepCall_listeners _
      · rfl
  | dispatcher => simpa [apply, Move.registered] using Bus.stepDispatcher_listeners
  | watcher => simpa [apply, ofStep, Move.registered] using Bus.stepWatcher_listeners
  | invocation id reply =>
      simp only [apply, Move.registered, List.append_nil]
      split
      · exact Bus.pollInvocation_listeners _ _ _
      · rfl
  | _ => simp [apply, Move.registered]

/-- A property of all listeners is kept by moves that register no other. -/
theorem apply_forall_listeners {P : Task → Prop} {s : System} {move : Move}
    (h : ∀ task ∈ s.bus.listeners, P task) (hmove : ∀ task ∈ move.registered, P task) :
    ∀ task ∈ (s.apply move).1.bus.listeners, P task := by
  rw [apply_listeners, List.forall_mem_append]
  exact ⟨h, hmove⟩

/-- The listeners are those that were registered, in this order. -/
theorem run_listeners (s : System) (moves : List Move) :
    (s.run moves).1.bus.listeners = s.bus.listeners ++ moves.flatMap Move.registered := by
  induction moves generalizing s with
  | nil => simp [run]
  | cons move moves ih =>
      have hrest := ih (s.apply move).1
      rw [apply_listeners, List.append_assoc] at hrest
      rw [List.flatMap_cons]
      exact hrest

end System
end PubSub
