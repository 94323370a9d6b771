import PubSub.Proofs.Bus.Lifecycle
import PubSub.Proofs.Bus.Parallelism

/-!
# Time limits

An invocation is begun under the context of the bus, with a limit of its
own if its task has a timeout.  Whatever its handler does, it is asked for
an outcome only as long as its context lives; after that it ends when it is
asked, and its permit comes back.  So under a runtime that asks those who
have something to do before it lets time pass, and that skips no alarm,
no invocation runs longer than its limit says.

* `Context.limit`, `Invocation.BegunUnder` — the limit of an invocation;
* `Bus.Knows` — an invocation, followed through a run;
* `System.Prompt` — runs under such a runtime;
* `System.now_le_limit`, `System.now_eq_of_done` — how the clock and an
  invocation that is running keep together;
* `System.apply_others`, `System.called_of_asked` — how an invocation goes on;
* `System.ended_of_apply` — how it ends;
* `Invocation.Limited`, `System.limited_run` — all of it together.
-/

namespace PubSub

namespace Context

/-- The instant at which a context ends by itself that has been derived when
the clock reads `now`: the end of a span, unless that is zero, or the
deadline of its root if that comes sooner. -/
def limit (root : Context) (now span : Nat) : Option Nat :=
  (if span = 0 then none else some (Span.ofMillis now + span)).merge min root.deadline

/-- Nobody has cancelled the context itself, by its own token. -/
def Spared (ctx : Context) (t : Tokens) : Prop :=
  ∀ token, ctx.lineage.head? = some token → token ∉ t.cancelled

end Context

/-- The context of the invocation has been derived from a root when the clock
read `now`. -/
structure Invocation.BegunUnder (i : Invocation) (root : Context) (now : Nat) : Prop where
  lineage : ∃ token, i.ctx.lineage = token :: root.lineage
  deadline : i.ctx.deadline = root.limit now i.task.timeout

namespace Invocation

variable {i : Invocation} {root : Context} {a : Ambient} {now : Nat}

/-- The invocation, its handler called. -/
def called (i : Invocation) : Invocation := { i with entered := true }

/-- They are the same, then, in everything else. -/
theorem id_eq_of_called {j : Invocation} (h : j.called = i.called) : j.id = i.id := by
  have hid : j.called.id = i.called.id := congrArg Invocation.id h
  exact hid

theorem ctx_eq_of_called {j : Invocation} (h : j.called = i.called) : j.ctx = i.ctx := by
  have hctx : j.called.ctx = i.called.ctx := congrArg Invocation.ctx h
  exact hctx

/-- Such a context ends with its root, or at its limit. -/
theorem BegunUnder.err_eq (h : i.BegunUnder root now) (hspared : i.ctx.Spared a.tokens) :
    a.err i.ctx =
      if root.isCancelled a.tokens then some .cancelled
      else if (root.limit now i.task.timeout).any (wakeAt · ≤ a.now) then some .deadlineExceeded
      else none := by
  obtain ⟨token, hlineage⟩ := h.lineage
  have hown : a.tokens.cancelled.contains token = false := by
    have hfree := hspared token (by rw [hlineage, List.head?_cons])
    simpa using hfree
  have hcancelled : i.ctx.isCancelled a.tokens = root.isCancelled a.tokens := by
    simp only [Context.isCancelled, hlineage, List.any_cons, hown, Bool.false_or]
  have hoverdue : i.ctx.isOverdue a.now =
      (root.limit now i.task.timeout).any (wakeAt · ≤ a.now) := by
    simp only [Context.isOverdue, h.deadline, wakeAt_le_iff]
  rw [Ambient.err, Context.err, hcancelled, hoverdue]

/-- Without a timeout, it lives as long as its root does, if that has no
deadline. -/
theorem BegunUnder.err_free (h : i.BegunUnder root now) (hspared : i.ctx.Spared a.tokens)
    (hzero : i.task.timeout = 0) (hendless : root.deadline = none)
    (hlive : root.isCancelled a.tokens = false) : a.err i.ctx = none := by
  have hnone : root.limit now i.task.timeout = none := by
    simp [Context.limit, hzero, hendless]
  rw [h.err_eq hspared, hlive, hnone]
  rfl

end Invocation

/-- The ending comes from the context if that has ended, and otherwise from
what the handler says. -/
def Ending.ExplainedBy (ending : Ending) (ended : Option Error) (reply : Bus.Reply) : Prop :=
  match ending with
  | .interrupted e => ended = some e
  | .returned outcome => ended = none ∧ reply = .returned outcome
  | .collapsed => ended = none ∧ reply = .collapsed

/-- The number of the invocation that has called its handler or ended, if one
has. -/
def BusEvent.asked? : BusEvent → Option Nat
  | .entered id | .ended id _ => some id
  | _ => none

namespace Bus

variable {a : Ambient} {b b' : Bus} {events : List BusEvent} {i : Invocation}

/-- What is seen of asking an invocation is its own. -/
theorem pollInvocation_asked (b : Bus) (i : Invocation) (ended : Option Error) (reply : Reply)
    {event : BusEvent} {id : Nat} (hmem : event ∈ (b.pollInvocation i ended reply).2)
    (hasked : event.asked? = some id) : i.id = id := by
  have hending (ending : Ending) (h : event ∈ endingEvents i ending) : i.id = id := by
    obtain ⟨logs, hlogs⟩ := endingEvents_logs i ending
    rw [hlogs, List.mem_cons, List.mem_map] at h
    rcases h with rfl | ⟨log, -, rfl⟩
    · exact Option.some.inj hasked
    · cases hasked
  unfold pollInvocation at hmem
  split at hmem
  · exact hending _ hmem
  · rw [enterHandler, List.mem_singleton] at hmem
    subst hmem
    exact Option.some.inj hasked
  · cases hmem
  · exact hending _ hmem
  · exact hending _ hmem

/-- Only the end of the invocation itself is seen with its end. -/
theorem mem_endingEvents {id : Nat} {ending ending' : Ending} :
    .ended id ending ∈ endingEvents i ending' ↔ id = i.id ∧ ending = ending' := by
  obtain ⟨logs, hlogs⟩ := endingEvents_logs i ending'
  rw [hlogs]
  simp

/-- The context for an invocation. -/
theorem contextFor_limit {root ctx : Context} {task : Task} {tokens : Tokens}
    (h : contextFor root task a = .ok (ctx, tokens)) :
    ctx.lineage = a.tokens.issued :: root.lineage ∧
      ctx.deadline = root.limit a.now task.timeout := by
  unfold contextFor at h
  split at h
  · rename_i hzero
    cases h
    exact ⟨rfl, by simp [Context.limit, hzero]⟩
  · rename_i hspan
    obtain ⟨deadline, hdeadline, hderived⟩ := Context.withTimeout_eq h
    cases hderived
    refine ⟨rfl, ?_⟩
    have hsum : deadline = Span.ofMillis a.now + task.timeout := by
      simp only [Context.deadlineAfter] at hdeadline
      split at hdeadline
      · exact (Except.ok.inj hdeadline).symm
      · cases hdeadline
    subst hsum
    simp only [Context.limit, if_neg hspan]
    cases root.deadline with
    | none => rfl
    | some d =>
        simp only [Context.earlier, Option.merge_some_some, Option.some.injEq]
        split <;> omega

/-- An invocation that is seen to begin has its context from the bus's. -/
theorem Change.begunUnder (hchange : Change a b events b') (hi : i ∈ spawnedIn events) :
    ∃ root, b.root = some root ∧ i.BegunUnder root a.now := by
  cases hchange with
  | started ctx hroot =>
      unfold start at hi
      split at hi <;> cases hi
  | spawned hlend hroot hctx =>
      cases List.mem_singleton.mp hi
      obtain ⟨hlineage, hdeadline⟩ := contextFor_limit hctx
      exact ⟨_, hroot, ⟨_, hlineage⟩, hdeadline⟩
  | joined hw hd => rw [(Silent.join b).spawned] at hi; cases hi
  | finished hj ending hend => rw [(Silent.ending _ ending).spawned] at hi; cases hi
  | _ => cases hi

/-- A handler is called only in a context that lives. -/
theorem Change.err_of_entered (hchange : Change a b events b') {id : Nat}
    (hentered : .entered id ∈ events) : ∃ j ∈ b.running, j.id = id ∧ a.err j.ctx = none := by
  cases hchange with
  | started ctx hroot =>
      unfold start at hentered
      split at hentered <;> simp at hentered
  | joined hw hd =>
      unfold joinEvents at hentered
      split at hentered <;> simp at hentered
  | entered hj herr hfresh =>
      obtain rfl := BusEvent.entered.inj (List.mem_singleton.mp hentered)
      exact ⟨_, hj, rfl, herr⟩
  | finished hj ending hend =>
      obtain ⟨logs, hlogs⟩ := endingEvents_logs _ ending
      rw [hlogs] at hentered
      simp at hentered
  | registered task => simp [register] at hentered
  | unheard hd hq hl => simp [Bus.unheard] at hentered
  | _ => simp at hentered

/-- The bus has begun the invocation, and if one of its number is running,
then it is that one, apart from its handler having been called. -/
structure Knows (b : Bus) (i : Invocation) : Prop where
  begun : i.id < b.nextInvocation
  same : ∀ j ∈ b.running, j.id = i.id → j.called = i.called

/-- The invocation of a number is running. -/
def Runs (b : Bus) (id : Nat) : Prop := ∃ j ∈ b.running, j.id = id

/-- A bus knows its running invocations. -/
theorem Sound.knows (h : b.Sound) {j : Invocation} (hj : j ∈ b.running)
    (hsame : j.called = i.called) : b.Knows i := by
  have hid := Invocation.id_eq_of_called hsame
  refine ⟨hid ▸ h.permits.numbered j hj, fun k hk hkid => ?_⟩
  rw [List.inj_on_of_nodup_map h.permits.distinct hk hj (hkid.trans hid.symm), hsame]

/-- Its context, then, is the same. -/
theorem Knows.ctx_eq (h : b.Knows i) {j : Invocation} (hj : j ∈ b.running) (hid : j.id = i.id) :
    j.ctx = i.ctx :=
  Invocation.ctx_eq_of_called (h.same j hj hid)

/-- Whatever a move does to invocations, the bus knows an invocation that it
knew. -/
theorem Knows.turnover (h : b.Knows i) (hturnover : b.Turnover events b') : b'.Knows i := by
  cases hturnover with
  | quiet hseen hrunning hnext => exact ⟨hnext ▸ h.begun, hrunning ▸ h.same⟩
  | begun hid hfresh hpermit hrunning hnext =>
      refine ⟨by rw [hnext]; exact Nat.lt_succ_of_lt h.begun, ?_⟩
      rw [hrunning, List.forall_mem_append, List.forall_mem_singleton]
      refine ⟨h.same, fun hsame => absurd h.begun ?_⟩
      omega
  | entered hj hfresh hrunning hnext =>
      refine ⟨hnext ▸ h.begun, ?_⟩
      rw [hrunning, List.forall_mem_map]
      intro k hk hid
      split at hid <;> split <;> exact h.same k hk hid
  | ended hj ending hrunning hnext =>
      refine ⟨hnext ▸ h.begun, ?_⟩
      rw [hrunning]
      exact fun k hk => h.same k (List.mem_of_mem_filter hk)

/-- An invocation that has been begun, and is running after a move, was
running before. -/
theorem Knows.runs_before (h : b.Knows i) (hturnover : b.Turnover events b')
    (hruns : b'.Runs i.id) : b.Runs i.id := by
  obtain ⟨j, hj, hid⟩ := hruns
  cases hturnover with
  | quiet hseen hrunning hnext => exact ⟨j, hrunning ▸ hj, hid⟩
  | begun hfresh hentered hpermit hrunning hnext =>
      rw [hrunning, List.mem_append, List.mem_singleton] at hj
      rcases hj with hj | rfl
      · exact ⟨j, hj, hid⟩
      · exact absurd h.begun (by omega)
  | entered hk hfresh hrunning hnext =>
      rw [hrunning, List.mem_map] at hj
      obtain ⟨k, hk, rfl⟩ := hj
      refine ⟨k, hk, ?_⟩
      split at hid <;> exact hid
  | ended hk ending hrunning hnext =>
      rw [hrunning] at hj
      exact ⟨j, List.mem_of_mem_filter hj, hid⟩

/-- An invocation that is seen to end was running, and is not any more. -/
theorem Turnover.of_ended (h : b.Turnover events b') {id : Nat} {ending : Ending}
    (hended : .ended id ending ∈ events) :
    ∃ j ∈ b.running, j.id = id ∧ b'.running = b.running.filter (·.id ≠ id) := by
  cases h with
  | quiet hseen hrunning hnext =>
      have hmem : id ∈ endedIn events := List.mem_filterMap.mpr ⟨_, hended, rfl⟩
      rw [(nothing_of_timeline_nil hseen).2] at hmem
      cases hmem
  | begun hid hfresh hpermit hrunning hnext => simp at hended
  | entered hj hfresh hrunning hnext => simp at hended
  | ended hj ending' hrunning hnext =>
      obtain ⟨rfl, -⟩ := mem_endingEvents.mp hended
      exact ⟨_, hj, rfl, hrunning⟩

/-- A running invocation that is not asked goes on. -/
theorem Turnover.stays (h : b.Turnover events b') {j : Invocation} (hj : j ∈ b.running)
    (hothers : ∀ event ∈ events, event.asked? ≠ some j.id) : j ∈ b'.running := by
  cases h with
  | quiet hseen hrunning hnext => exact hrunning ▸ hj
  | begun hid hfresh hpermit hrunning hnext => exact hrunning ▸ List.mem_append_left _ hj
  | @entered i _ hi hfresh hrunning hnext =>
      have hother : j.id ≠ i.id := fun hid => hothers _ List.mem_cons_self (congrArg some hid.symm)
      rw [hrunning]
      exact List.mem_map.mpr ⟨j, hj, if_neg hother⟩
  | @ended i _ hi ending hrunning hnext =>
      have hother : j.id ≠ i.id := fun hid =>
        hothers _ (mem_endingEvents.mpr ⟨rfl, rfl⟩) (congrArg some hid.symm)
      rw [hrunning]
      exact List.mem_filter.mpr ⟨hj, decide_eq_true hother⟩

/-- The permits that nobody holds are those that no running invocation
holds. -/
theorem Sound.pool_eq (h : b.Sound) : b.pool + b.running.length = b.config.maxInFlight := by
  have hcount := h.permits.counted
  unfold pool
  omega

end Bus

namespace System

variable {s : System} {i j : Invocation} {move : Move} {moves later : List Move}

/-- The bus knows an invocation after a run that it knew before. -/
theorem run_knows (hsound : s.bus.Sound) (h : s.bus.Knows i) (moves : List Move) :
    (s.run moves).1.bus.Knows i := by
  induction moves generalizing s with
  | nil => exact h
  | cons move moves ih =>
      exact ih (apply_sound hsound move).1 (h.turnover (apply_turnover hsound move))

/-- An invocation that is running after a run was running before. -/
theorem runs_before_run (hsound : s.bus.Sound) (h : s.bus.Knows i)
    (hruns : (s.run moves).1.bus.Runs i.id) : s.bus.Runs i.id := by
  induction moves generalizing s with
  | nil => exact hruns
  | cons move moves ih =>
      have hturnover := apply_turnover hsound move
      exact h.runs_before hturnover
        (ih (apply_sound hsound move).1 (h.turnover hturnover) hruns)

/-- A running invocation is the one of its number. -/
theorem invocation?_of_mem (hsound : s.bus.Sound) (hj : j ∈ s.bus.running) :
    s.bus.invocation? j.id = some j :=
  Keyed.find?_of_mem hsound.permits.distinct hj

/-- Asking a running invocation. -/
theorem apply_invocation (hj : s.bus.invocation? i.id = some j) (reply : Bus.Reply) :
    s.apply (.invocation i.id reply) =
      s.ofStep (s.bus.pollInvocation j (s.ambient.err j.ctx) reply) := by
  simp only [apply, hj]

/-- An invocation whose context has ended ends when it is asked, whatever its
handler has to say. -/
theorem interrupted_of_asked (hsound : s.bus.Sound) (h : s.bus.Knows i) (hruns : s.bus.Runs i.id)
    {e : Error} (he : s.ambient.err i.ctx = some e) (reply : Bus.Reply) :
    .ended i.id (.interrupted e) ∈ (s.apply (.invocation i.id reply)).2 := by
  obtain ⟨j, hj, hid⟩ := hruns
  rw [apply_invocation (hid ▸ invocation?_of_mem hsound hj), h.ctx_eq hj hid, he]
  exact Bus.mem_endingEvents.mpr ⟨hid.symm, rfl⟩

/-- While an invocation is running, time passes only when it has nothing to do
if it is asked, and not beyond the reading of the clock at which its context
ends.  Anything else may happen at any time. -/
def Allows (s : System) (i : Invocation) : Move → Prop
  | .advance millis => s.bus.Runs i.id → s.apply (.invocation i.id .pending) = (s, []) ∧
      ∀ time, i.ctx.endsAt? = some time → s.ambient.now + millis ≤ time
  | _ => True

/-- The moves of a runtime that asks an invocation in time. -/
def Prompt (s : System) (i : Invocation) : List Move → Prop
  | [] => True
  | move :: moves => s.Allows i move ∧ (s.apply move).1.Prompt i moves

/-- Only time that passes turns the clock. -/
theorem apply_now (s : System) (move : Move) :
    (∃ millis, move = .advance millis) ∨ (s.apply move).1.ambient.now = s.ambient.now := by
  cases move with
  | advance millis => exact .inl ⟨millis, rfl⟩
  | write ctx messages =>
      right
      simp only [apply]
      split <;> rfl
  | call id =>
      right
      simp only [apply]
      split <;> rfl
  | invocation id reply =>
      right
      simp only [apply]
      split <;> rfl
  | _ => exact .inr rfl

/-- A running invocation keeps the clock from passing its deadline. -/
theorem now_le_limit (hsound : s.bus.Sound) (h : s.bus.Knows i) (hprompt : s.Prompt i moves)
    {limit bound : Nat} (hlimit : i.ctx.endsAt? = some limit) (hstart : s.ambient.now ≤ bound)
    (hle : limit ≤ bound) (hruns : (s.run moves).1.bus.Runs i.id) :
    (s.run moves).1.ambient.now ≤ bound := by
  induction moves generalizing s with
  | nil => exact hstart
  | cons move moves ih =>
      obtain ⟨hallows, hrest⟩ := hprompt
      have hturnover := apply_turnover hsound move
      have hsound' := (apply_sound hsound move).1
      have hknows := h.turnover hturnover
      refine ih hsound' hknows hrest ?_ hruns
      rcases s.apply_now move with ⟨millis, rfl⟩ | hsame
      · -- it is running at the end, so it was when time passed
        have hbefore := h.runs_before hturnover (runs_before_run hsound' hknows hruns)
        exact Nat.le_trans ((hallows hbefore).2 limit hlimit) hle
      · exact Nat.le_trans (Nat.le_of_eq hsame) hstart

/-- Once its context has ended, a running invocation stops the clock. -/
theorem now_eq_of_done (hsound : s.bus.Sound) (h : s.bus.Knows i) (hprompt : s.Prompt i moves)
    (hdone : s.ambient.isDone i.ctx = true) (hruns : (s.run moves).1.bus.Runs i.id) :
    (s.run moves).1.ambient.now = s.ambient.now := by
  induction moves generalizing s with
  | nil => rfl
  | cons move moves ih =>
      obtain ⟨hallows, hrest⟩ := hprompt
      have hturnover := apply_turnover hsound move
      have hsound' := (apply_sound hsound move).1
      have hknows := h.turnover hturnover
      refine (ih hsound' hknows hrest ((s.apply_later move).isDone hdone) hruns).trans ?_
      rcases s.apply_now move with ⟨millis, rfl⟩ | hsame
      · -- asked before time passes, it would end
        have hbefore := h.runs_before hturnover (runs_before_run hsound' hknows hruns)
        obtain ⟨e, he⟩ := Ambient.isDone_iff_err.mp hdone
        have hended := interrupted_of_asked hsound h hbefore he .pending
        rw [(hallows hbefore).1] at hended
        cases hended
      · exact hsame

/-- Nothing is seen of asking an invocation in a step of a call. -/
theorem stepCall_asked (b : Bus) (a : Ambient) (c : Call) :
    ∀ event ∈ (b.stepCall a c).2, event.asked? = none := by
  unfold Bus.stepCall
  split
  · simp [Bus.answer, BusEvent.asked?]
  · simp [Bus.forfeit, Bus.answer, BusEvent.asked?]
  · simp [Bus.answer, BusEvent.asked?]
  · split
    · simp [Bus.answer, BusEvent.asked?]
    · split
      · simp [Bus.push, BusEvent.asked?]
      · split <;> simp [Bus.push, Bus.queueUp, BusEvent.asked?]
      · simp

/-- Nor in one of the dispatcher. -/
theorem stepDispatcher_asked (b : Bus) (a : Ambient) :
    ∀ event ∈ (b.stepDispatcher a).2.2, event.asked? = none := by
  have hspawn (b : Bus) (m : Message) (task : Task) (rest : List Task) :
      ∀ event ∈ (b.spawn a m task rest).2.2, event.asked? = none := by
    unfold Bus.spawn
    split
    · simp
    · split <;> simp [BusEvent.asked?]
  unfold Bus.stepDispatcher
  split
  · split
    · simp only [Bus.take]
      split <;> simp [Bus.unheard, BusEvent.asked?]
    · split <;> simp
  · split
    · exact hspawn _ _ _ _
    · simp
  · exact hspawn _ _ _ _
  · simp

/-- Nor in one of the watcher. -/
theorem stepWatcher_asked (b : Bus) (a : Ambient) :
    ∀ event ∈ (b.stepWatcher a).2, event.asked? = none := by
  unfold Bus.stepWatcher
  split
  · simp
  · split
    · simp [BusEvent.asked?]
    · simp only [Bus.joinEvents]
      split <;> simp [BusEvent.asked?]
    · simp [BusEvent.asked?]
    · simp

/-- Only an invocation that is asked calls its handler or ends. -/
theorem move_of_asked {event : BusEvent} {id : Nat} (hmem : event ∈ (s.apply move).2)
    (hasked : event.asked? = some id) : ∃ reply, move = .invocation id reply := by
  cases move with
  | invocation other reply =>
      refine ⟨reply, ?_⟩
      cases hj : s.bus.invocation? other with
      | none => simp [apply, hj] at hmem
      | some j =>
          have hid : j.id = other := by simpa using List.find?_some hj
          simp only [apply, hj, ofStep] at hmem
          rw [← hid, Bus.pollInvocation_asked _ _ _ _ hmem hasked]
  | start ctx =>
      simp only [apply, ofStep, Bus.start] at hmem
      split at hmem <;> simp at hmem
      subst hmem
      cases hasked
  | register task =>
      simp only [apply, ofStep, Bus.register, List.mem_singleton] at hmem
      subst hmem
      cases hasked
  | write ctx messages =>
      simp only [apply] at hmem
      split at hmem <;> cases hmem
  | call other =>
      simp only [apply] at hmem
      split at hmem
      · rw [stepCall_asked _ _ _ event hmem] at hasked
        cases hasked
      · cases hmem
  | dispatcher =>
      rw [stepDispatcher_asked _ _ event hmem] at hasked
      cases hasked
  | watcher =>
      rw [stepWatcher_asked _ _ event hmem] at hasked
      cases hasked
  | issue => cases hmem
  | cancel ctx => cases hmem
  | advance millis => cases hmem

/-- Asking an invocation turns no clock and hands out no token. -/
theorem ambient_of_asked (s : System) (id : Nat) (reply : Bus.Reply) :
    (s.apply (.invocation id reply)).1.ambient = s.ambient := by
  simp only [apply]
  split <;> rfl

/-- A running invocation goes on as long as it is not asked. -/
theorem apply_others (hsound : s.bus.Sound) (hj : j ∈ s.bus.running)
    (hothers : ∀ reply, move ≠ .invocation j.id reply) :
    j ∈ (s.apply move).1.bus.running := by
  refine (apply_turnover hsound move).stays hj fun event hmem hasked => ?_
  obtain ⟨reply, hmove⟩ := move_of_asked hmem hasked
  exact hothers reply hmove

/-- The same through a run. -/
theorem run_others (hsound : s.bus.Sound) (hj : j ∈ s.bus.running)
    (hothers : ∀ reply, .invocation j.id reply ∉ moves) :
    j ∈ (s.run moves).1.bus.running := by
  induction moves generalizing s with
  | nil => exact hj
  | cons move moves ih =>
      have hmove (reply : Bus.Reply) : move ≠ .invocation j.id reply :=
        fun hsame => hothers reply (hsame ▸ List.mem_cons_self)
      exact ih (apply_sound hsound move).1 (apply_others hsound hj hmove)
        fun reply hmem => hothers reply (List.mem_cons_of_mem _ hmem)

/-- Asked for the first time, it calls its handler, as long as its context
lives. -/
theorem called_of_asked (hsound : s.bus.Sound) (hj : j ∈ s.bus.running)
    (hlive : s.ambient.err j.ctx = none) :
    j.called ∈ (s.apply (.invocation j.id .pending)).1.bus.running := by
  rw [apply_invocation (invocation?_of_mem hsound hj), hlive]
  cases hentered : j.entered with
  | false =>
      simp only [ofStep, Bus.pollInvocation, hentered, Bus.enterHandler]
      exact List.mem_map.mpr ⟨j, hj, if_pos rfl⟩
  | true =>
      have hsame : j.called = j := by
        rw [Invocation.called, ← hentered]
      simp only [ofStep, Bus.pollInvocation, hentered, hsame]
      exact hj

/-- An invocation that ends when it is asked has a reason, gives its permit
back, and is not running any more. -/
theorem ended_of_apply (hsound : s.bus.Sound) (h : s.bus.Knows i) {ending : Ending}
    (hended : .ended i.id ending ∈ (s.apply move).2) :
    (∃ reply, move = .invocation i.id reply ∧ ending.ExplainedBy (s.ambient.err i.ctx) reply) ∧
      ¬ (s.apply move).1.bus.Runs i.id ∧
      (s.apply move).1.bus.pool = s.bus.pool + 1 := by
  obtain ⟨reply, rfl⟩ := move_of_asked hended rfl
  obtain ⟨j, hj, hid, hrunning⟩ := (apply_turnover hsound _).of_ended hended
  refine ⟨⟨reply, rfl, ?_⟩, ?_, ?_⟩
  · rw [apply_invocation (hid ▸ invocation?_of_mem hsound hj), h.ctx_eq hj hid] at hended
    simp only [ofStep, Bus.pollInvocation] at hended
    split at hended <;>
      simp only [Bus.finish, Bus.enterHandler, Bus.mem_endingEvents, List.mem_singleton,
        List.not_mem_nil, reduceCtorEq] at hended <;>
      rw [hended.2]
    · assumption
    · exact ⟨by assumption, rfl⟩
    · exact ⟨by assumption, rfl⟩
  · rintro ⟨k, hk, hsame⟩
    rw [hrunning] at hk
    simpa [hsame] using List.of_mem_filter hk
  · -- permits and running invocations add up to the same number before and after
    have hpool := hsound.pool_eq
    have hpool' := (apply_sound hsound (.invocation i.id reply)).1.pool_eq
    have hconfig : (s.apply (.invocation i.id reply)).1.bus.config = s.bus.config :=
      run_config hsound [.invocation i.id reply]
    have hlength := (Keyed.perm_cons_others hsound.permits.distinct hj).length_eq
    rw [hid, ← hrunning, List.length_cons] at hlength
    rw [hconfig] at hpool'
    omega

/-- An invocation whose handler has been called ends with what that returns,
as long as its context lives. -/
theorem ended_of_returned (hsound : s.bus.Sound) (hi : i.called ∈ s.bus.running)
    (hlive : s.ambient.err i.ctx = none) (outcome : Except Error Unit) {ending : Ending} :
    .ended i.id ending ∈ (s.apply (.invocation i.id (.returned outcome))).2 ↔
      ending = .returned outcome := by
  have hfound : s.bus.invocation? i.id = some i.called := invocation?_of_mem hsound hi
  have hcalled : s.ambient.err i.called.ctx = none := hlive
  rw [apply_invocation hfound, hcalled]
  exact Bus.mem_endingEvents.trans (and_iff_right rfl)

/-- A running invocation goes on unless it is seen to end. -/
theorem goesOn_or_ended (hsound : s.bus.Sound) (hruns : s.bus.Runs i.id) (move : Move) :
    (s.apply move).1.bus.Runs i.id ∨ ∃ ending, .ended i.id ending ∈ (s.apply move).2 := by
  obtain ⟨j, hj, hid⟩ := hruns
  rcases (apply_sound hsound move).2 with ⟨hsame, -⟩ | hchange
  · exact .inl ⟨j, hsame ▸ hj, hid⟩
  · exact hid ▸ hchange.running_or_ended hj

/-- In a context that lives, no invocation is cut off. -/
theorem not_interrupted (hsound : s.bus.Sound) (h : s.bus.Knows i)
    (hlive : s.ambient.err i.ctx = none) (e : Error) :
    .ended i.id (.interrupted e) ∉ (s.apply move).2 := by
  intro hended
  obtain ⟨⟨reply, -, hreason⟩, -⟩ := ended_of_apply hsound h hended
  cases hlive.symm.trans hreason

/-- An invocation does not return unless its handler does. -/
theorem not_returned (hsound : s.bus.Sound) (h : s.bus.Knows i) {reply : Bus.Reply}
    (hreply : ∀ outcome, reply ≠ .returned outcome) (outcome : Except Error Unit) :
    .ended i.id (.returned outcome) ∉ (s.apply (.invocation i.id reply)).2 := by
  intro hended
  obtain ⟨⟨reply', hmove, -, hreturned⟩, -⟩ := ended_of_apply hsound h hended
  exact hreply outcome ((Move.invocation.inj hmove).2.trans hreturned)

/-- The handler of an invocation is called only while its context lives. -/
theorem err_of_entered (hsound : s.bus.Sound) (h : s.bus.Knows i)
    (hentered : .entered i.id ∈ (s.apply move).2) : s.ambient.err i.ctx = none := by
  rcases (apply_sound hsound move).2 with ⟨-, hnone⟩ | hchange
  · rw [hnone] at hentered
    cases hentered
  · obtain ⟨j, hj, hid, hlive⟩ := hchange.err_of_entered hentered
    rwa [h.ctx_eq hj hid] at hlive

end System

/-- What its limit means for an invocation that was begun under `root` when
the clock read `begun`, in a later state. -/
structure Invocation.Limited (i : Invocation) (root : Context) (begun : Nat) (s : System) :
    Prop where
  /-- It runs no longer than until its limit, or than at its beginning if the
  limit had come before. -/
  bound : s.bus.Runs i.id → ∀ limit, root.limit begun i.task.timeout = some limit →
    s.ambient.now ≤ max begun (wakeAt limit)
  /-- Once its context has ended, the clock stands still as long as it runs. -/
  stands : s.ambient.isDone i.ctx = true → ∀ later, s.Prompt i later →
    (s.run later).1.bus.Runs i.id → (s.run later).1.ambient.now = s.ambient.now
  /-- Its context ends when the root is cancelled, or at the limit. -/
  reason : s.ambient.err i.ctx =
    if root.isCancelled s.ambient.tokens then some .cancelled
    else if (root.limit begun i.task.timeout).any (wakeAt · ≤ s.ambient.now) then
      some .deadlineExceeded
    else none
  /-- When its context has ended, it ends as soon as it is asked, whatever
  its handler has to say. -/
  interrupted : s.bus.Runs i.id → ∀ e, s.ambient.err i.ctx = some e → ∀ reply,
    .ended i.id (.interrupted e) ∈ (s.apply (.invocation i.id reply)).2
  /-- While its context lives, it ends with what its handler returns, once
  that has been called. -/
  returned : s.ambient.err i.ctx = none → i.called ∈ s.bus.running → ∀ outcome,
    .ended i.id (.returned outcome) ∈ (s.apply (.invocation i.id (.returned outcome))).2
  /-- Its handler is called only while its context lives. -/
  entered : ∀ move, .entered i.id ∈ (s.apply move).2 → s.ambient.err i.ctx = none
  /-- It goes on unless it is seen to end. -/
  goesOn : s.bus.Runs i.id → ∀ move,
    (s.apply move).1.bus.Runs i.id ∨ ∃ ending, .ended i.id ending ∈ (s.apply move).2
  /-- Whenever it ends, it has been asked and there is no other reason, it is
  not running any more, and its permit comes back. -/
  ended : ∀ move ending, .ended i.id ending ∈ (s.apply move).2 →
    (∃ reply, move = .invocation i.id reply ∧
      ending.ExplainedBy (s.ambient.err i.ctx) reply) ∧
    ¬ (s.apply move).1.bus.Runs i.id ∧ (s.apply move).1.bus.pool = s.bus.pool + 1
  /-- Without a timeout, and under a root without a deadline that is not
  cancelled, nothing cuts it off. -/
  free : i.task.timeout = 0 → root.deadline = none → root.isCancelled s.ambient.tokens = false →
    s.ambient.err i.ctx = none ∧ ∀ move e, .ended i.id (.interrupted e) ∉ (s.apply move).2

namespace System

variable {born : System} {i : Invocation} {move : Move} {after : List Move}

/-- An invocation that is seen to begin is known from then on, and its
context comes from the bus's. -/
theorem begun_of_apply (hsound : born.bus.Sound) (hbegun : .spawned i ∈ (born.apply move).2) :
    (born.apply move).1.ambient.now = born.ambient.now ∧ (born.apply move).1.bus.Knows i ∧
      ∃ root, born.bus.root = some root ∧ i.BegunUnder root born.ambient.now := by
  obtain ⟨hsound', hmove⟩ := apply_sound hsound move
  refine ⟨?_, ?_⟩
  · rcases born.apply_now move with ⟨millis, rfl⟩ | hsame
    · simp [apply] at hbegun
    · exact hsame
  · rcases hmove with ⟨-, hnone⟩ | hchange
    · rw [hnone] at hbegun
      cases hbegun
    · have hspawned : i ∈ Bus.spawnedIn (born.apply move).2 :=
        List.mem_filterMap.mpr ⟨_, hbegun, rfl⟩
      exact ⟨hsound'.knows (hchange.running_of_spawned hspawned) rfl,
        hchange.begunUnder hspawned⟩

/-- An invocation is limited in every state after its beginning, unless
somebody has cancelled its own token. -/
theorem limited_run (hsound : born.bus.Sound) (hbegun : .spawned i ∈ (born.apply move).2)
    (hprompt : (born.apply move).1.Prompt i after)
    (hspared : i.ctx.Spared ((born.apply move).1.run after).1.ambient.tokens) :
    ∃ root, born.bus.root = some root ∧
      ((born.apply move).1.run after).1.bus.root = some root ∧
      i.Limited root born.ambient.now ((born.apply move).1.run after).1 := by
  obtain ⟨hnow, hknows, root, hroot, hunder⟩ := begun_of_apply hsound hbegun
  have hsound' := (apply_sound hsound move).1
  have hlater := run_sound hsound' after
  have hknown := run_knows hsound' hknows after
  refine ⟨root, hroot, ?_, ?_⟩
  · have hkept := run_root hsound (move :: after)
    rwa [hroot, Option.some_or] at hkept
  · exact
      { bound := fun hruns limit hlimit => by
          have hends : i.ctx.endsAt? = some (wakeAt limit) := by
            rw [Context.endsAt?, hunder.deadline, hlimit, Option.map_some]
          exact now_le_limit hsound' hknows hprompt hends
            (Nat.le_trans (Nat.le_of_eq hnow) (Nat.le_max_left _ _)) (Nat.le_max_right _ _) hruns
        stands := fun hdone later hnext hruns => now_eq_of_done hlater hknown hnext hdone hruns
        reason := hunder.err_eq hspared
        interrupted := fun hruns e he reply => interrupted_of_asked hlater hknown hruns he reply
        returned := fun hlive hi outcome => (ended_of_returned hlater hi hlive outcome).mpr rfl
        entered := fun next hentered => err_of_entered hlater hknown hentered
        goesOn := fun hruns next => goesOn_or_ended hlater hruns next
        ended := fun next ending hended => ended_of_apply hlater hknown hended
        free := fun hzero hendless huncancelled => by
          have hlive := hunder.err_free hspared hzero hendless huncancelled
          exact ⟨hlive, fun next e => not_interrupted hlater hknown hlive e⟩ }

end System
end PubSub
