import PubSub.Proofs.Bus.Shutdown

/-!
# The life of a bus

A bus is started once, is closed when the context of that start has ended,
and stops when nothing is left to do.  It never goes back, and leaves none
of this out.

* `Lifecycle`, `Bus.lifecycle` — how far a bus has come;
* `System.apply_lifecycle` — a move goes one step further at most;
* `System.run_later_start` — later starts leave no trace;
* `System.run_root`, `System.rootDone_of_closed` — whose end closes a bus.
-/

namespace PubSub

/-- How far a bus has come. -/
inductive Lifecycle where
  | notStarted
  /-- Started, and open to new calls. -/
  | serving
  /-- Closed to new calls. -/
  | closed
  | stopped
  deriving DecidableEq, Repr

/-- The order in which a bus goes through its life. -/
def Lifecycle.rank : Lifecycle → Nat
  | .notStarted => 0
  | .serving => 1
  | .closed => 2
  | .stopped => 3

/-- How far a bus with such a watcher has come. -/
def Watcher.lifecycle : Watcher → Lifecycle
  | .unstarted => .notStarted
  | .watching => .serving
  | .joining | .draining _ => .closed
  | .stopped => .stopped

/-- The context of a start. -/
def Move.started? : Move → Option Context
  | .start ctx => some ctx
  | _ => none

namespace Bus

/-- How far a bus has come. -/
def lifecycle (b : Bus) : Lifecycle :=
  if !b.isStarted then .notStarted
  else if b.isStopped then .stopped
  else if b.senderOpen then .serving
  else .closed

variable {a : Ambient} {b b' : Bus} {events : List BusEvent}

/-- The watcher knows how far the bus has come. -/
theorem Phases.lifecycle_eq (h : b.Phases) : b.lifecycle = b.watcher.lifecycle := by
  have hsender := h.sender
  cases hroot : b.root with
  | none => simp [lifecycle, isStarted, hroot, (h.unstarted hroot).2, Watcher.lifecycle]
  | some root =>
      have hw := (h.started (by simp [hroot])).2
      cases hwatcher : b.watcher <;> rw [hwatcher] at hsender hw <;>
        simp_all [lifecycle, isStarted, isStopped, Watcher.lifecycle, Watcher.hasClosed]

/-- A permit that comes back does not bring the watcher further. -/
theorem releasePermit_lifecycle :
    b.releasePermit.watcher.lifecycle = b.watcher.lifecycle := by
  rcases b.releasePermit_cases with ⟨_, _, _, -, hframe⟩ | ⟨held, hw, -, hframe⟩ | ⟨-, -, hframe⟩
  · rw [hframe]
  · rw [hframe, hw]
    rfl
  · rw [hframe]

/-- A change brings the watcher one step further at most. -/
theorem Change.watcher_lifecycle (h : b.Phases) (hchange : Change a b events b') :
    b'.watcher.lifecycle = b.watcher.lifecycle ∨
      b'.watcher.lifecycle.rank = b.watcher.lifecycle.rank + 1 := by
  cases hchange with
  | started ctx hroot => right; rw [(h.unstarted hroot).2]; rfl
  | forfeited hc hp hplace herr => left; split <;> simp [dismiss]
  | unheard hd hq hl => left; simp
  | taken hd hq hl => left; simp
  | aborted hlend hroot hctx => left; exact releasePermit_lifecycle
  | closing hw hroot hdone => right; rw [hw]; rfl
  | joined hw hd => left; rw [hw]; rfl
  | stopped hw => right; rw [hw]; rfl
  | finished hi ending hend => left; exact releasePermit_lifecycle
  | _ => left; rfl

/-- A bus is closed by the end of its context only. -/
theorem Change.senderOpen_or_done (hchange : Change a b events b') (h : b.senderOpen = true) :
    b'.senderOpen = true ∨ ∃ root, b.root = some root ∧ a.isDone root = true := by
  cases hchange with
  | forfeited hc hp hplace herr => left; split <;> simpa [dismiss] using h
  | unheard hd hq hl => left; simpa using h
  | taken hd hq hl => left; simpa using h
  | aborted hlend hroot hctx =>
      left
      obtain ⟨_, _, _, hframe⟩ := releasePermit_frame _
      rw [abort, hframe]
      exact h
  | closing hw hroot hdone => exact .inr ⟨_, hroot, hdone⟩
  | finished hi ending hend =>
      left
      obtain ⟨_, _, _, hframe⟩ := releasePermit_frame _
      rw [hframe]
      exact h
  | _ => exact .inl h

end Bus

namespace System

variable {s : System}

/-- A move brings a bus one step further at most, and never back. -/
theorem apply_lifecycle (h : s.bus.Sound) (move : Move) :
    (s.apply move).1.bus.lifecycle = s.bus.lifecycle ∨
      (s.apply move).1.bus.lifecycle.rank = s.bus.lifecycle.rank + 1 := by
  obtain ⟨hsound, hmove⟩ := apply_sound h move
  rw [hsound.phases.lifecycle_eq, h.phases.lifecycle_eq]
  rcases hmove with ⟨hsame, -⟩ | hchange
  · exact .inl (by rw [hsame])
  · exact hchange.watcher_lifecycle h.phases

/-- A bus that has been started is not started again. -/
theorem apply_start_of_isStarted (h : s.bus.isStarted = true) (ctx : Context) :
    s.apply (.start ctx) = (s, []) := by
  simp [apply, ofStep, Bus.start, h]

/-- The context of a bus is the one it has, or else that of a start. -/
theorem apply_root (h : s.bus.Sound) (move : Move) :
    (s.apply move).1.bus.root = s.bus.root.or move.started? := by
  cases hroot : s.bus.root with
  | some root =>
      rcases (apply_sound h move).2 with ⟨hsame, -⟩ | hchange
      · rw [hsame, hroot]
        rfl
      · rw [hchange.root_eq hroot]
        rfl
  | none =>
      obtain ⟨hd, hw⟩ := h.phases.unstarted hroot
      cases move with
      | start ctx => simp [apply, ofStep, Bus.start, Bus.isStarted, hroot, Move.started?]
      | write ctx messages => simp [apply, Bus.beginCall, Bus.isStarted, hroot, Move.started?]
      | call id =>
          simp only [apply]
          split
          · rename_i c hc
            obtain ⟨_, _, _, hframe⟩ := s.bus.stepCall_frame s.ambient c
            simp [ofStep, hframe, hroot, Move.started?]
          · exact hroot
      | dispatcher => simp [apply, Bus.stepDispatcher, hd, hroot, Move.started?]
      | watcher => simp [apply, ofStep, Bus.stepWatcher, Bus.watcherReady, hw, hroot, Move.started?]
      | invocation id reply =>
          simp only [apply]
          split
          · rename_i i hi
            change (s.bus.pollInvocation i (s.ambient.err i.ctx) reply).1.root = none
            rcases s.bus.pollInvocation_frame i (s.ambient.err i.ctx) reply with
              ⟨_, hframe⟩ | ⟨_, hframe⟩
            · rw [hframe]
              exact hroot
            · obtain ⟨_, _, _, hpermit⟩ := Bus.releasePermit_frame _
              rw [hframe, hpermit]
              exact hroot
          · exact hroot
      | _ => exact hroot

/-- The context of a bus is that of the first start. -/
theorem run_root (h : s.bus.Sound) (moves : List Move) :
    (s.run moves).1.bus.root = s.bus.root.or (moves.findSome? Move.started?) := by
  induction moves generalizing s with
  | nil => simp [run]
  | cons move moves ih =>
      have hrest := ih (apply_sound h move).1
      rw [apply_root h move, Option.or_assoc] at hrest
      rw [run_cons, hrest, List.findSome?_cons]
      cases move.started? <;> rfl

/-- A bus has been started when one of the moves was a start. -/
theorem isStarted_run (config : BusConfig) (tokens : Tokens) (moves : List Move) :
    ((initial config tokens).run moves).1.bus.isStarted = true ↔ ∃ ctx, .start ctx ∈ moves := by
  have hroot := run_root (s := initial config tokens) (.ofConfig config) moves
  have hnone : (initial config tokens).bus.root = none := rfl
  rw [hnone, Option.none_or] at hroot
  rw [Bus.isStarted, hroot, List.findSome?_isSome_iff]
  constructor
  · rintro ⟨move, hmem, hstart⟩
    cases move with
    | start ctx => exact ⟨ctx, hmem⟩
    | _ => cases hstart
  · rintro ⟨ctx, hmem⟩
    exact ⟨.start ctx, hmem, rfl⟩

/-- A start after the first one leaves no trace in a run. -/
theorem run_later_start {config : BusConfig} {tokens : Tokens} {before : List Move}
    {first : Context} (hfirst : .start first ∈ before) (ctx : Context) (later : List Move) :
    (initial config tokens).run (before ++ .start ctx :: later) =
      (initial config tokens).run (before ++ later) := by
  have hstarted := (isStarted_run config tokens before).mpr ⟨first, hfirst⟩
  rw [run_append, run_append, run_cons, apply_start_of_isStarted hstarted, List.nil_append]

/-- A bus that is closed has a context that has ended. -/
theorem rootDone_of_closed (config : BusConfig) (tokens : Tokens) (moves : List Move)
    (h : ((initial config tokens).run moves).1.bus.senderOpen = false) :
    ((initial config tokens).run moves).1.RootDone := by
  induction moves using List.reverseRecOn with
  | nil => cases h
  | append_singleton moves move ih =>
      have hsound := sound_run config tokens moves
      rw [run_concat] at h ⊢
      cases hopen : ((initial config tokens).run moves).1.bus.senderOpen with
      | false => exact (ih hopen).apply hsound move
      | true =>
          rcases (apply_sound hsound move).2 with ⟨hsame, -⟩ | hchange
          · rw [hsame, hopen] at h
            cases h
          · have hdone := (hchange.senderOpen_or_done hopen).resolve_left (ne_true_of_eq_false h)
            exact RootDone.apply hdone hsound move

end System
end PubSub
