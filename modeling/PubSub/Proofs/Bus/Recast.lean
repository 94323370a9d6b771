import PubSub.Proofs.Bus.Change

/-!
# Steps that do not look at the calls

Much of what happens to a bus has nothing to do with its write calls: a
start, a registration, an invocation, the watcher.  Such a step can be made
with any other calls as well, does the same, and leaves them alone.

* `Bus.recast` — a bus with other calls;
* `Bus.Blind` — a step that does not look at the calls;
* `Blind.calls_eq`, `Blind.line_eq`, `Blind.nextCall_eq` — it leaves them alone;
* `Bus.blind_start`, `Bus.blind_spawn`, `Bus.blind_stepWatcher`,
  `Bus.blind_pollInvocation` — such steps.
-/

namespace PubSub.Bus

/-- A bus with other calls. -/
def recast (b : Bus) (calls : List Call) (line : List Nat) (nextCall : Nat) : Bus :=
  { b with calls, line, nextCall }

/-- A step that does not look at the calls.  With other calls it does the same, and
they are there afterwards. -/
def Blind {β : Type} (step : Bus → Bus × β) : Prop :=
  ∀ b calls line nextCall, step (b.recast calls line nextCall) =
    ((step b).1.recast calls line nextCall, (step b).2)

section Frame

variable {β : Type} {step : Bus → Bus × β}

/-- A blind step leaves the calls alone. -/
theorem Blind.calls_eq (h : Blind step) (b : Bus) : (step b).1.calls = b.calls :=
  congrArg (·.1.calls) (h b b.calls b.line b.nextCall)

/-- It leaves the line alone. -/
theorem Blind.line_eq (h : Blind step) (b : Bus) : (step b).1.line = b.line :=
  congrArg (·.1.line) (h b b.calls b.line b.nextCall)

/-- It takes no number. -/
theorem Blind.nextCall_eq (h : Blind step) (b : Bus) : (step b).1.nextCall = b.nextCall :=
  congrArg (·.1.nextCall) (h b b.calls b.line b.nextCall)

end Frame

variable (b : Bus) (calls : List Call) (line : List Nat) (nextCall : Nat)

/-- A permit can come back with any calls. -/
theorem recast_releasePermit :
    (b.recast calls line nextCall).releasePermit = b.releasePermit.recast calls line nextCall := by
  have hd : (b.recast calls line nextCall).dispatcher = b.dispatcher := rfl
  have hw : (b.recast calls line nextCall).watcher = b.watcher := rfl
  unfold releasePermit
  rw [hd, hw]
  split
  · rfl
  · rename_i held _ _
    by_cases hlt : held < b.config.maxInFlight
    · rw [if_pos hlt]
      exact if_pos hlt
    · rw [if_neg hlt]
      exact if_neg hlt
  · rfl

/-- A start does not look at the calls. -/
theorem blind_start (ctx : Context) : Blind (start · ctx) := by
  intro b calls line nextCall
  have hstarted : (b.recast calls line nextCall).isStarted = b.isStarted := rfl
  simp only [start, hstarted]
  split <;> rfl

/-- Neither does a registration. -/
theorem blind_register (task : Task) : Blind (register · task) := fun _ _ _ _ => rfl

/-- Neither does the dispatcher when it begins an invocation. -/
theorem blind_spawn (a : Ambient) (m : Message) (task : Task) (rest : List Task) :
    Blind (spawn · a m task rest) := by
  intro b calls line nextCall
  have hroot' : (b.recast calls line nextCall).root = b.root := rfl
  cases hroot : b.root with
  | none =>
      rw [hroot] at hroot'
      simp only [spawn, hroot, hroot']
  | some root =>
      rw [hroot] at hroot'
      cases hctx : contextFor root task a with
      | error why =>
          simp only [spawn, hroot, hroot', hctx, abort]
          rw [← recast_releasePermit]
          rfl
      | ok made =>
          simp only [spawn, hroot, hroot', hctx]
          rfl

/-- Neither does the watcher. -/
theorem blind_stepWatcher (a : Ambient) : Blind (stepWatcher · a) := by
  intro b calls line nextCall
  have hready : (b.recast calls line nextCall).watcherReady a = b.watcherReady a := rfl
  have hw : (b.recast calls line nextCall).watcher = b.watcher := rfl
  simp only [stepWatcher, hready, hw]
  split
  · rfl
  · cases b.watcher <;> rfl

/-- Neither does an invocation. -/
theorem blind_pollInvocation (i : Invocation) (ended : Option Error) (reply : Reply) :
    Blind (pollInvocation · i ended reply) := by
  have hfinish : ∀ ending, Blind (finish · i ending) := by
    intro ending b calls line nextCall
    simp only [finish]
    rw [← recast_releasePermit]
    rfl
  intro b calls line nextCall
  cases ended with
  | some e => exact hfinish _ b calls line nextCall
  | none =>
      cases hentered : i.entered with
      | false => simp [pollInvocation, hentered, enterHandler, recast]
      | true =>
          cases reply with
          | pending => simp [pollInvocation, hentered]
          | returned outcome =>
              simpa [pollInvocation, hentered] using
                hfinish (.returned outcome) b calls line nextCall
          | collapsed =>
              simpa [pollInvocation, hentered] using hfinish .collapsed b calls line nextCall

/-- The dispatcher takes no number. -/
theorem stepDispatcher_nextCall (b : Bus) (a : Ambient) :
    (b.stepDispatcher a).1.nextCall = b.nextCall := by
  have hspawn : ∀ (b : Bus) m task rest, (b.spawn a m task rest).1.nextCall = b.nextCall :=
    fun b m task rest => (blind_spawn a m task rest).nextCall_eq b
  unfold stepDispatcher
  split
  · split
    · unfold take
      dsimp only
      split <;> simp
    · split <;> rfl
  · split
    · exact hspawn _ _ _ _
    · rfl
  · exact hspawn _ _ _ _
  · rfl

end PubSub.Bus
