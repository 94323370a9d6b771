import PubSub.Proofs.Bus.Lifecycle

/-!
# What takes a bus down

Until its context ends, a bus keeps working whatever its listeners do, with
one exception.  The context of an invocation is made by the dispatcher, so
a timeout that is too long to be added to the clock breaks the dispatcher
down, and the bus with it: the queue is lost, and every call is refused.

* `Bus.Overflows.stepDispatcher` — such a timeout breaks the dispatcher;
* `Bus.Change.refusal` — calls that have begun are refused by a broken bus
  only;
* `System.aborted_run` — the dispatcher breaks down in no other way;
* `System.survival_run` — what holds until then.
-/

namespace PubSub

/-- A span that cannot be added to the clock has no deadline. -/
theorem Context.deadlineAfter_overflow {now timeout : Nat} (h : ¬ Fits now timeout) :
    deadlineAfter now timeout = .error .deadlineOverflow := by
  rw [fits_iff] at h
  simp [deadlineAfter, h]

namespace Bus

variable {a : Ambient} {b b' : Bus} {events : List BusEvent}

/-- No context can be made for a task whose timeout cannot be added to the
clock. -/
theorem contextFor_overflow (root : Context) {task : Task} (h : ¬ task.FitsAt a.now) :
    contextFor root task a = .error .deadlineOverflow := by
  obtain ⟨hzero, hfits⟩ := not_or.mp h
  rw [contextFor, if_neg hzero, Context.withTimeout, Context.deadlineAfter_overflow hfits]
  rfl

/-- The dispatcher does not survive its next step. -/
theorem Overflows.stepDispatcher (h : b.Overflows a) (hroot : b.root ≠ none) :
    (b.stepDispatcher a).1.dispatcher = .aborted .deadlineOverflow := by
  obtain ⟨m, task, rest, permits, hlend, hnot⟩ := h
  obtain ⟨root, hroot⟩ := Option.ne_none_iff_exists'.mp hroot
  have hspawn : ∀ b' : Bus, b'.root = some root →
      (b'.spawn a m task rest).1.dispatcher = .aborted .deadlineOverflow := by
    intro b' hroot'
    simp [spawn, hroot', contextFor_overflow root hnot]
  rcases hlend with ⟨hd, hpermits⟩ | ⟨hd, -⟩
  · simp only [Bus.stepDispatcher, hd, hpermits, Nat.zero_lt_succ, if_true]
    exact hspawn _ hroot
  · simp only [Bus.stepDispatcher, hd]
    exact hspawn _ hroot

/-- A call that has begun is refused only when the dispatcher has broken
down: it does not return while there are calls. -/
theorem Change.refusal (h : b.Phases) (hchange : Change a b events b') {id : Nat}
    (hmem : .answered id (.error .busClosed) ∈ events) : ∃ why, b.dispatcher = .aborted why := by
  have hcontext : ∀ {c : Call} {e : Error}, a.err c.ctx = some e →
      .answered id (.error .busClosed) ∉ [BusEvent.answered c.id (.error e)] := by
    intro c e herr hmem
    cases List.mem_singleton.mp hmem
    cases Ambient.isContextEnd_of_err herr
  cases hchange with
  | started ctx hroot => simp [start, isStarted, hroot] at hmem
  | registered task => simp [register] at hmem
  | gaveUp hc hp hplace herr => exact absurd hmem (hcontext herr)
  | forfeited hc hp hplace herr => exact absurd hmem (hcontext herr)
  | refused hc hp herr hrecv =>
      have hover := h.receiver
      rw [hrecv] at hover
      cases hd : b.dispatcher with
      | aborted why => exact ⟨why, rfl⟩
      | returned => exact absurd hd (h.busy hc)
      | _ => simp [hd, Dispatcher.isOver] at hover
  | joined hw hd =>
      unfold joinEvents at hmem
      split at hmem <;> simp at hmem
  | @finished i hi ending hend =>
      obtain ⟨logs, hlogs⟩ := endingEvents_logs i ending
      simp [hlogs] at hmem
  | _ => simp [Bus.unheard] at hmem

end Bus

namespace System

variable {s : System}

/-- Nobody but the dispatcher itself breaks it down. -/
theorem apply_alive {move : Move} (hmove : move ≠ .dispatcher)
    (h : ∀ why, s.bus.dispatcher ≠ .aborted why) (why : Abort) :
    (s.apply move).1.bus.dispatcher ≠ .aborted why := by
  cases move with
  | start ctx =>
      simp only [apply, ofStep, Bus.start]
      split
      · exact h why
      · simp
  | write ctx messages =>
      simp only [apply]
      split
      · rename_i hbegin
        obtain ⟨-, -, -, rfl⟩ := Bus.beginCall_ok hbegin
        exact h why
      · exact h why
  | call id =>
      simp only [apply]
      split
      · rename_i c hc
        obtain ⟨_, _, _, hframe⟩ := s.bus.stepCall_frame s.ambient c
        simpa [ofStep, hframe] using h why
      · exact h why
  | dispatcher => exact absurd rfl hmove
  | watcher =>
      simp only [apply, ofStep, Bus.stepWatcher]
      split
      · exact h why
      · split <;> exact h why
  | invocation id reply =>
      simp only [apply]
      split
      · rename_i i hi
        change (s.bus.pollInvocation i (s.ambient.err i.ctx) reply).1.dispatcher ≠ _
        rcases s.bus.pollInvocation_frame i (s.ambient.err i.ctx) reply with
          ⟨_, hframe⟩ | ⟨_, hframe⟩
        · rw [hframe]
          exact h why
        · rw [hframe]
          refine Bus.releasePermit_alive ?_ why
          exact h
      · exact h why
  | _ => exact h why

/-- A dispatcher that has ended stays as it is. -/
theorem run_over (h : s.bus.Sound) (hover : s.bus.dispatcher.isOver = true) (later : List Move) :
    (s.run later).1.bus.dispatcher = s.bus.dispatcher := by
  refine run_keeps (P := fun _ b => b.dispatcher = s.bus.dispatcher) h rfl ?_ later
  intro a b b' events new hsound hsame hchange
  exact (hchange.over_stays hsound.phases (hsame ▸ hover)).trans hsame

/-- The dispatcher of a run breaks down just when it makes a step over a
timeout that cannot be added to the clock. -/
theorem aborted_run (config : BusConfig) (tokens : Tokens) (moves : List Move) :
    (∃ why, ((initial config tokens).run moves).1.bus.dispatcher = .aborted why) ↔
      ∃ before after, moves = before ++ .dispatcher :: after ∧
        ((initial config tokens).run before).1.bus.Overflows
          ((initial config tokens).run before).1.ambient := by
  constructor
  · induction moves using List.reverseRecOn with
    | nil =>
        rintro ⟨why, hd⟩
        cases hd
    | append_singleton moves move ih =>
        rintro ⟨why, hd⟩
        have hsound := sound_run config tokens moves
        rw [run_concat] at hd
        by_cases hbefore :
            ∃ why, ((initial config tokens).run moves).1.bus.dispatcher = .aborted why
        · obtain ⟨before, after, rfl, hover⟩ := ih hbefore
          exact ⟨before, after ++ [move], by simp, hover⟩
        · have halive := not_exists.mp hbefore
          have hmove : move = .dispatcher := by
            by_contra hne
            exact apply_alive hne halive why hd
          refine ⟨moves, [], by rw [hmove], ?_⟩
          by_contra hfits
          rcases (apply_sound hsound move).2 with ⟨hsame, -⟩ | hchange
          · rw [hsame] at hd
            exact halive why hd
          · exact hchange.alive halive hfits why hd
  · rintro ⟨before, after, rfl, hover⟩
    have hsound := sound_run config tokens before
    have hroot : ((initial config tokens).run before).1.bus.root ≠ none := by
      obtain ⟨m, task, rest, permits, hlend, -⟩ := hover
      refine hsound.phases.root_ne_none ?_
      rcases hlend with ⟨hd, -⟩ | ⟨hd, -⟩ <;> simp [hd]
    have hbroken : (((initial config tokens).run before).1.apply .dispatcher).1.bus.dispatcher =
        .aborted .deadlineOverflow := hover.stepDispatcher hroot
    refine ⟨.deadlineOverflow, ?_⟩
    rw [run_append, run_cons, run_over (apply_sound hsound _).1 (by rw [hbroken]; rfl), hbroken]

/-- As long as the dispatcher has not broken down, no call that has begun is
refused. -/
theorem run_unrefused (moves : List Move) (h : s.bus.Sound)
    (halive : ∀ why, (s.run moves).1.bus.dispatcher ≠ .aborted why) (id : Nat) :
    .answered id (.error .busClosed) ∉ (s.run moves).2 := by
  induction moves using List.reverseRecOn with
  | nil => nofun
  | append_singleton moves move ih =>
      have hsound := run_sound h moves
      rw [run_concat] at halive ⊢
      have hbefore := alive_of_apply hsound move halive
      intro hmem
      rcases List.mem_append.mp hmem with hmem | hmem
      · exact ih hbefore hmem
      · rcases (apply_sound hsound move).2 with ⟨-, hnone⟩ | hchange
        · rw [hnone] at hmem
          cases hmem
        · obtain ⟨why, hd⟩ := hchange.refusal hsound.phases hmem
          exact hbefore why hd

/-- **What takes a bus down.**  The dispatcher of a run has broken down just
when it made a step for a listener whose timeout could not be added to the
clock.  Until then every message that was accepted is in the queue or has
been given to its listeners, and no call that had begun was refused;
unless the context of the bus has ended, the dispatcher is at work and no
new call is refused either. -/
theorem survival_run (config : BusConfig) (tokens : Tokens) (moves : List Move) :
    let start := initial config tokens
    let final := start.run moves
    ((∃ why, final.1.bus.dispatcher = .aborted why) ↔
      ∃ before after, moves = before ++ .dispatcher :: after ∧
        (start.run before).1.bus.Overflows (start.run before).1.ambient) ∧
    ((∀ why, final.1.bus.dispatcher ≠ .aborted why) →
      Bus.Fanout (start.rounds moves) final.2 final.1.bus ∧
      (∀ id, .answered id (.error .busClosed) ∉ final.2) ∧
      (¬ final.1.RootDone →
        final.1.bus.dispatcher.isOver = false ∧
        ∀ ctx messages, final.1.bus.beginCall ctx messages ≠ .error .busClosed)) := by
  intro start final
  refine ⟨aborted_run config tokens moves, fun halive => ?_⟩
  refine ⟨fanout_of_alive halive, run_unrefused moves (.ofConfig config) halive, fun hroot => ?_⟩
  have hsound : final.1.bus.Sound := sound_run config tokens moves
  have hopen : final.1.bus.senderOpen = true := by
    by_contra hclosed
    exact hroot (rootDone_of_closed config tokens moves (Bool.not_eq_true _ ▸ hclosed))
  refine ⟨?_, ?_⟩
  · cases hd : final.1.bus.dispatcher with
    | aborted why => exact absurd hd (halive why)
    | returned =>
        rw [(hsound.phases.drained hd).1] at hopen
        cases hopen
    | _ => rfl
  · intro ctx messages hbegin
    unfold Bus.beginCall at hbegin
    rw [hopen] at hbegin
    split at hbegin <;> cases hbegin

/-- A listener with the longest timeout there is gets the first of two
orders. -/
def endlessMoves : List Move :=
  [.start ⟨[0], none, none, none⟩,
    .register (sampleListener "audit" Span.longest),
    .write ⟨[1], none, none, none⟩ [sampleOrder "o-1", sampleOrder "o-2"],
    .call 0, .call 0, .call 0, .dispatcher, .dispatcher]

/-- Nothing has ended the context of the bus, but the dispatcher has broken
down, both orders are lost, and the next call is refused. -/
theorem survival_fails_endless :
    let final := (initial ⟨4, 1⟩ ⟨2, []⟩).run endlessMoves
    ¬ final.1.RootDone ∧
      final.1.bus.dispatcher = .aborted .deadlineOverflow ∧
      (Bus.acceptedIn final.2).map (·.id) = ["o-1", "o-2"] ∧
      final.1.bus.queue.map (·.id) = [] ∧ (Bus.spawnedIn final.2).map (·.id) = [] ∧
      (final.1.run [.write ⟨[1], none, none, none⟩ [sampleOrder "o-3"], .call 1]).2 =
        [.answered 1 (.error .busClosed)] := by
  refine ⟨?_, rfl, rfl, rfl, rfl, rfl⟩
  rintro ⟨root, hroot, hdone⟩
  cases hroot
  cases hdone

end System
end PubSub
