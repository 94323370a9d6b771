import PubSub.Proofs.Bus.Listeners

/-!
# Breakdowns of the dispatcher

The dispatcher breaks down only over a timeout that cannot be added to
the clock, so it never does when the timeouts of all its listeners can
be.

* `Bus.Overflows`, `Bus.Change.alive` — what breaks the dispatcher down;
* `Bus.Unbroken`, `Unbroken.change` — no breakdown up to some time;
* `System.Addable`, `System.unbroken_run` — no breakdown in a run.
-/

namespace PubSub

/-- A task whose timeout, if it has one, can be added to a clock reading. -/
def Task.FitsAt (task : Task) (now : Nat) : Prop :=
  task.timeout = 0 ∨ Context.Fits now task.timeout

namespace Bus

/-- The dispatcher has not broken down, and will not before the clock has
passed the reading `now`. -/
structure Unbroken (now : Nat) (b : Bus) : Prop where
  tasks : b.Tasks (·.FitsAt now)
  alive : ∀ why, b.dispatcher ≠ .aborted why

variable {a : Ambient} {b b' : Bus} {events : List BusEvent} {now : Nat}

/-- A context can be made for a task whose timeout can be added to the
clock. -/
theorem contextFor_ok (root : Context) {task : Task} (h : task.FitsAt a.now) :
    ∃ made, contextFor root task a = .ok made := by
  unfold contextFor
  rcases h with hzero | ⟨deadline, hfits⟩
  · exact ⟨_, if_pos hzero⟩
  · by_cases hzero : task.timeout = 0
    · exact ⟨_, if_pos hzero⟩
    · refine ⟨root.withDeadline deadline a.tokens, ?_⟩
      rw [if_neg hzero, Context.withTimeout, hfits]
      rfl

/-- A permit that comes back breaks nothing. -/
theorem releasePermit_alive (h : ∀ why, b.dispatcher ≠ .aborted why) (why : Abort) :
    b.releasePermit.dispatcher ≠ .aborted why := by
  rcases b.releasePermit_cases with ⟨m, task, rest, -, hframe⟩ | ⟨held, -, -, hframe⟩ |
    ⟨-, -, hframe⟩ <;> rw [hframe]
  · nofun
  · exact h why
  · exact h why

/-- The dispatcher has a permit to begin an invocation whose timeout cannot
be added to the clock. -/
def Overflows (a : Ambient) (b : Bus) : Prop :=
  ∃ m task rest permits, b.Lends m task rest permits ∧ ¬ task.FitsAt a.now

/-- Nothing else breaks the dispatcher. -/
theorem Change.alive (hchange : Change a b events b') (h : ∀ why, b.dispatcher ≠ .aborted why)
    (hfits : ¬ b.Overflows a) (why : Abort) : b'.dispatcher ≠ .aborted why := by
  cases hchange with
  | started ctx hroot => simp
  | forfeited hc hp hplace herr =>
      split
      · simpa [dismiss] using h why
      · exact h why
  | unheard hd hq hl => simp [hd]
  | taken hd hq hl => simp
  | returned hd hq hclosed => simp
  | lined hd hpermits => simp
  | @spawned m task rest permits root ctx tokens hlend hroot hctx =>
      cases rest <;> simp [nextPlacing]
  | @aborted m task rest permits root why hlend hroot hctx =>
      refine absurd ⟨m, task, rest, permits, hlend, ?_⟩ hfits
      intro hfits
      obtain ⟨made, hmade⟩ := contextFor_ok root hfits
      rw [hmade] at hctx
      cases hctx
  | finished hi ending hend =>
      refine releasePermit_alive ?_ why
      exact h
  | _ => exact h why

/-- As long as the clock has not passed the reading, no change breaks the
dispatcher. -/
theorem Unbroken.change (h : b.Unbroken now) (hnow : a.now ≤ now)
    (hchange : Change a b events b') (hlisteners : ∀ task ∈ b'.listeners, task.FitsAt now) :
    b'.Unbroken now := by
  refine ⟨h.tasks.change hchange hlisteners, hchange.alive h.alive ?_⟩
  rintro ⟨m, task, rest, permits, hlend, hnot⟩
  have hfits : task.FitsAt now := by
    refine h.tasks.pending task ?_
    rcases hlend with ⟨hd, -⟩ | ⟨hd, -⟩ <;> rw [hd] <;> exact List.mem_cons_self
  exact hnot (hfits.imp_right fun hfits => hfits.of_le hnow)

/-- A bus that has stopped without a breakdown has a dispatcher that has
returned. -/
theorem Unbroken.returned_of_stopped (h : b.Unbroken now) (hphases : b.Phases)
    (hw : b.watcher = .stopped) : b.dispatcher = .returned := by
  have hover := hphases.joined (by rw [hw]; rfl)
  cases hd : b.dispatcher with
  | aborted why => exact absurd hd (h.alive why)
  | returned => rfl
  | _ => simp [hd, Dispatcher.isOver] at hover

end Bus

namespace System

variable {s : System}

/-- Every timeout that is registered in a run can be added to the clock. -/
def Addable (s : System) (moves : List Move) : Prop :=
  ∀ task, .register task ∈ moves → task.FitsAt (s.run moves).1.ambient.now

/-- What can be added to the clock in the end could be added before. -/
theorem Addable.of_append {moves later : List Move} (h : s.Addable (moves ++ later)) :
    s.Addable moves := by
  intro task hmem
  have hnow := ((s.run moves).1.run_later later).now
  have hfits := h task (List.mem_append_left _ hmem)
  rw [run_append] at hfits
  exact hfits.imp_right fun hfits => hfits.of_le hnow

/-- A dispatcher stays unbroken through a run of such registrations. -/
theorem run_unbroken {now : Nat} {moves : List Move} (hsound : s.bus.Sound)
    (h : s.bus.Unbroken now) (hfits : ∀ task, .register task ∈ moves → task.FitsAt now)
    (hnow : (s.run moves).1.ambient.now ≤ now) : (s.run moves).1.bus.Unbroken now := by
  induction moves generalizing s with
  | nil => exact h
  | cons move moves ih =>
      obtain ⟨hsound', hmove⟩ := apply_sound hsound move
      have hpast : s.ambient.now ≤ now := Nat.le_trans (s.run_later (move :: moves)).now hnow
      have hnext : (s.apply move).1.bus.Unbroken now := by
        rcases hmove with ⟨hsame, -⟩ | hchange
        · rw [hsame]
          exact h
        · refine h.change hpast hchange (apply_forall_listeners h.tasks.listeners ?_)
          intro task htask
          refine hfits task ?_
          cases move <;> simp_all [Move.registered]
      exact ih hsound' hnext (fun task hmem => hfits task (List.mem_cons_of_mem _ hmem)) hnow

/-- When all timeouts can be added to the clock, the dispatcher does not
break down. -/
theorem unbroken_run {config : BusConfig} {tokens : Tokens} {moves : List Move}
    (h : (initial config tokens).Addable moves) :
    ((initial config tokens).run moves).1.bus.Unbroken
      ((initial config tokens).run moves).1.ambient.now := by
  refine run_unbroken (.ofConfig config) ?_ h (Nat.le_refl _)
  exact ⟨.initial config tokens, by simp [initial, Bus.ofConfig]⟩

end System
end PubSub
