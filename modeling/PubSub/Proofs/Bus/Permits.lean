import PubSub.Proofs.Bus.Phases
import PubSub.Proofs.Keyed

/-!
# Permits

A permit is free, held by an invocation, set aside for the dispatcher, or
collected by the watcher.  The dispatcher stands in line only while no
permit is free, and a watcher that has begun to collect gets every permit
that comes back.  So when the watcher has them all, no invocation is left.

* `Dispatcher.held`, `Watcher.held` — the permits of both;
* `Bus.Permits` — the invariant, for a bus with some permits to spare;
* `Permits.change` — every change keeps it.
-/

namespace PubSub

/-- The permits that are set aside for the dispatcher. -/
def Dispatcher.held : Dispatcher → Nat
  | .placing _ _ _ .holding => 1
  | _ => 0

/-- The permits that the watcher has collected. -/
def Watcher.held : Watcher → Nat
  | .draining held => held
  | _ => 0

/-- Is the dispatcher in line for a permit? -/
def Dispatcher.isWaiting : Dispatcher → Bool
  | .placing _ _ _ .waiting => true
  | _ => false

/-- A dispatcher that does nothing any more has no permit, and waits for
none. -/
theorem Dispatcher.held_of_isOver {d : Dispatcher} (h : d.isOver = true) :
    d.held = 0 ∧ d.isWaiting = false := by
  cases d <;> simp [isOver, held, isWaiting] at h ⊢

namespace Bus

/-- Invocations have distinct numbers, and permits are accounted for;
`spare` of them have been given back and not yet handed on. -/
structure Permits (b : Bus) (spare : Nat) : Prop where
  distinct : (b.running.map (·.id)).Nodup
  numbered : ∀ i ∈ b.running, i.id < b.nextInvocation
  counted : b.permits + b.running.length + b.dispatcher.held + b.watcher.held + spare =
    b.config.maxInFlight
  inLine : b.dispatcher.isWaiting = true → b.permits = 0
  collecting : ∀ held, b.watcher = .draining held → b.permits = 0
  quiet : b.watcher = .stopped → b.running = []

variable {a : Ambient} {b b' : Bus} {spare : Nat} {events : List BusEvent}

/-- A bus that has not been started has all its permits. -/
theorem Permits.ofConfig (config : BusConfig) : (Bus.ofConfig config).Permits 0 where
  distinct := List.nodup_nil
  numbered := by simp [Bus.ofConfig]
  counted := by simp [Bus.ofConfig, Dispatcher.held, Watcher.held]
  inLine := by simp [Bus.ofConfig, Dispatcher.isWaiting]
  collecting := by simp [Bus.ofConfig]
  quiet := by simp [Bus.ofConfig]

namespace Permits

/-- The invariant looks at the permits and their holders only. -/
theorem of_same (h : b.Permits spare) (hrunning : b'.running = b.running)
    (hnext : b'.nextInvocation = b.nextInvocation) (hpermits : b'.permits = b.permits)
    (hd : b'.dispatcher = b.dispatcher) (hw : b'.watcher = b.watcher)
    (hconfig : b'.config = b.config) : b'.Permits spare where
  distinct := by rw [hrunning]; exact h.distinct
  numbered := by rw [hrunning, hnext]; exact h.numbered
  counted := by rw [hrunning, hpermits, hd, hw, hconfig]; exact h.counted
  inLine := by rw [hd, hpermits]; exact h.inLine
  collecting := by rw [hw, hpermits]; exact h.collecting
  quiet := by rw [hw, hrunning]; exact h.quiet

/-- The dispatcher goes on, and other permits are free. -/
theorem dispatch (h : b.Permits spare) (dispatcher : Dispatcher) (permits : Nat) {spare' : Nat}
    (hcount : permits + dispatcher.held + spare' = b.permits + b.dispatcher.held + spare)
    (hle : b.permits = 0 → permits = 0)
    (hline : dispatcher.isWaiting = true → permits = 0) :
    ({ b with dispatcher, permits } : Bus).Permits spare' where
  distinct := h.distinct
  numbered := h.numbered
  counted := by
    have := h.counted
    change permits + b.running.length + dispatcher.held + b.watcher.held + spare' =
      b.config.maxInFlight
    omega
  inLine := hline
  collecting held hw := hle (h.collecting held hw)
  quiet := h.quiet

/-- The spare permit goes to the dispatcher, to the watcher, or to
nobody. -/
theorem releasePermit (h : b.Permits 1) : b.releasePermit.Permits 0 := by
  have hcount := h.counted
  rcases b.releasePermit_cases with ⟨m, task, rest, hd, hframe⟩ | ⟨held, hw, hlt, hframe⟩ |
    ⟨hnot, hall, hframe⟩ <;> rw [hframe]
  · have hzero := h.inLine (by rw [hd]; rfl)
    rw [hd] at hcount
    simp only [Dispatcher.held] at hcount
    refine h.dispatch _ b.permits ?_ id ?_
    · simp [hd, Dispatcher.held]
    · simp [Dispatcher.isWaiting]
  · rw [hw] at hcount
    simp only [Watcher.held] at hcount
    exact {
      distinct := h.distinct
      numbered := h.numbered
      counted := by simp only [Watcher.held]; omega
      inLine := h.inLine
      collecting := fun _ _ => h.collecting held hw
      quiet := nofun }
  · have hfree : ∀ held, b.watcher ≠ .draining held := by
      intro held hw
      have hge := hall held hw
      rw [hw] at hcount
      simp only [Watcher.held] at hcount
      omega
    exact {
      distinct := h.distinct
      numbered := h.numbered
      counted := by simp only; omega
      inLine := fun hwait => absurd hwait (by
        cases hd : b.dispatcher with
        | placing m task rest turn => cases turn <;> simp_all [Dispatcher.isWaiting]
        | _ => simp [Dispatcher.isWaiting])
      collecting := fun held hw => absurd hw (hfree held)
      quiet := h.quiet }

/-- The dispatcher has its permit at hand. -/
theorem lend (h : b.Permits 0) {m : Message} {task : Task} {rest : List Task} {permits : Nat}
    (hlend : b.Lends m task rest permits) (dispatcher : Dispatcher)
    (hheld : dispatcher.held = 0) (hwait : dispatcher.isWaiting = false) :
    ({ b with dispatcher, permits } : Bus).Permits 1 := by
  rcases hlend with ⟨hd, hpermits⟩ | ⟨hd, hpermits⟩
  · refine h.dispatch _ _ ?_ (by omega) (by simp [hwait])
    rw [hd, hheld, hpermits]
    rfl
  · refine h.dispatch _ _ ?_ (by omega) (by simp [hwait])
    rw [hd, hheld, hpermits]
    rfl

/-- The spare permit goes to a new invocation. -/
theorem grant (h : b.Permits 1) (task : Task) (m : Message) (ctx : Context)
    (hlive : b.watcher ≠ .stopped) :
    ({ b with
        running := b.running ++ [⟨b.nextInvocation, task, m, ctx, false⟩]
        nextInvocation := b.nextInvocation + 1 } : Bus).Permits 0 where
  distinct := Keyed.nodup_concat h.distinct h.numbered rfl
  numbered := Keyed.lt_concat h.numbered rfl
  counted := by
    have := h.counted
    simp only [List.length_append, List.length_singleton]
    omega
  inLine := h.inLine
  collecting := h.collecting
  quiet hw := absurd hw hlive

/-- An invocation that has ended leaves its permit to spare. -/
theorem release (h : b.Permits 0) {i : Invocation} (hi : i ∈ b.running) :
    ({ b with running := b.running.filter (·.id ≠ i.id) } : Bus).Permits 1 where
  distinct := h.distinct.sublist (List.filter_sublist.map _)
  numbered j hj := h.numbered j (List.mem_of_mem_filter hj)
  counted := by
    have hcount := h.counted
    have hlength := (Keyed.perm_cons_others h.distinct hi).length_eq
    rw [List.length_cons] at hlength
    simp only
    omega
  inLine := h.inLine
  collecting := h.collecting
  quiet hw := by simp [h.quiet hw]

/-- An invocation changes, but not its number. -/
theorem update (h : b.Permits spare) {f : Invocation → Invocation}
    (hid : ∀ i, (f i).id = i.id) :
    ({ b with running := b.running.map f } : Bus).Permits spare where
  distinct := by
    have hids : (b.running.map f).map (·.id) = b.running.map (·.id) := by
      rw [List.map_map]
      exact List.map_congr_left fun i _ => hid i
    rw [hids]
    exact h.distinct
  numbered i hi := by
    obtain ⟨j, hj, rfl⟩ := List.mem_map.mp hi
    rw [hid]
    exact h.numbered j hj
  counted := by simpa using h.counted
  inLine := h.inLine
  collecting := h.collecting
  quiet hw := by simp [h.quiet hw]

/-- Every change keeps the permits accounted for. -/
theorem change (h : b.Permits 0) (hphases : b.Phases) (hchange : Change a b events b') :
    b'.Permits 0 := by
  cases hchange with
  | started ctx hroot =>
      obtain ⟨hd, hw⟩ := hphases.unstarted hroot
      have hcount := h.counted
      rw [hd, hw] at hcount
      exact ⟨h.distinct, h.numbered, hcount, by simp [Dispatcher.isWaiting], by simp, by simp⟩
  | forfeited hc hp hplace herr =>
      split <;> exact h.of_same (by simp [dismiss]) (by simp [dismiss]) (by simp [dismiss])
        (by simp [dismiss]) (by simp [dismiss]) (by simp [dismiss])
  | unheard hd hq hl =>
      exact h.of_same (by simp) (by simp) (by simp) (by simp) (by simp) (by simp)
  | @taken m queue task rest hd hq hl =>
      have hsame : ({ b with queue } : Bus).releaseSlot.Permits 0 :=
        h.of_same (by simp) (by simp) (by simp) (by simp) (by simp) (by simp)
      refine hsame.dispatch _ ({ b with queue } : Bus).releaseSlot.permits ?_ id
        (by simp [Dispatcher.isWaiting])
      simp [hd, Dispatcher.held]
  | returned hd hq hclosed =>
      have hnew : ({ b with dispatcher := .returned, permits := b.permits } : Bus).Permits 0 :=
        h.dispatch _ _ (by simp [hd, Dispatcher.held]) id (by simp [Dispatcher.isWaiting])
      exact hnew.of_same rfl rfl rfl rfl rfl rfl
  | lined hd hpermits =>
      exact h.dispatch _ b.permits (by simp [hd, Dispatcher.held]) id fun _ => hpermits
  | @spawned m task rest permits root ctx tokens hlend hroot hctx =>
      have hlive : b.watcher ≠ .stopped := by
        intro hw
        have hover := hphases.joined (by rw [hw]; rfl)
        rcases hlend with ⟨hd, -⟩ | ⟨hd, -⟩ <;> simp [hd, Dispatcher.isOver] at hover
      have hone := h.lend hlend (nextPlacing m rest)
        (by cases rest <;> rfl) (by cases rest <;> rfl)
      exact hone.grant task m ctx hlive
  | @aborted m task rest permits root why hlend hroot hctx =>
      have hone := h.lend hlend (.aborted why) rfl rfl
      let dropped : Bus :=
        { b with permits, dispatcher := .aborted why, receiverOpen := false, queue := [] }
      have hsame : dropped.Permits 1 := hone.of_same rfl rfl rfl rfl rfl rfl
      exact hsame.releasePermit
  | closing hw hroot hdone =>
      have hcount := h.counted
      rw [hw] at hcount
      exact ⟨h.distinct, h.numbered, hcount, h.inLine, by simp, by simp⟩
  | joined hw hd =>
      have hcount := h.counted
      rw [hw] at hcount
      refine ⟨h.distinct, h.numbered, ?_, fun _ => rfl, fun _ _ => rfl, by simp⟩
      simp only [Watcher.held] at hcount ⊢
      omega
  | stopped hw =>
      have hcount := h.counted
      obtain ⟨hheld, hwait⟩ := Dispatcher.held_of_isOver (hphases.joined (by rw [hw]; rfl))
      rw [hw] at hcount
      simp only [Watcher.held] at hcount
      refine ⟨h.distinct, h.numbered, ?_, by simp [hwait], by simp, ?_⟩
      · simp only [Watcher.held]
        omega
      · intro _
        have hnone : b.running.length = 0 := by omega
        exact List.eq_nil_of_length_eq_zero hnone
  | entered hi herr hfresh =>
      refine h.update ?_
      intro j
      split <;> rfl
  | finished hi ending hend => exact (h.release hi).releasePermit
  | _ => exact h.of_same rfl rfl rfl rfl rfl rfl

end Permits
end Bus
end PubSub
