import Mathlib.Data.List.Induction
import PubSub.Proofs.Bus.Permits
import PubSub.Proofs.Bus.Slots
import PubSub.Proofs.Context

/-!
# Runs of a bus

What one move keeps, a run keeps.  Slots, permits and phases are in order
at any time, the clock only goes forward, and what has ended stays ended.

* `System.run_cons`, `System.run_concat`, `System.run_append` — runs, move by move;
* `Bus.Sound`, `System.sound_run` — slots, permits and phases at any time;
* `System.run_keeps` — what changes keep, runs keep;
* `System.run_later` — the passing of time.
-/

namespace PubSub

namespace System

/-- A first move. -/
theorem run_cons (s : System) (move : Move) (moves : List Move) :
    s.run (move :: moves) =
      (((s.apply move).1.run moves).1, (s.apply move).2 ++ ((s.apply move).1.run moves).2) :=
  rfl

/-- One more move. -/
theorem run_concat (s : System) (moves : List Move) (move : Move) :
    s.run (moves ++ [move]) =
      (((s.run moves).1.apply move).1, (s.run moves).2 ++ ((s.run moves).1.apply move).2) := by
  induction moves generalizing s with
  | nil => simp [run]
  | cons first moves ih => simp [run, ih, List.append_assoc]

/-- Some more moves. -/
theorem run_append (s : System) (moves later : List Move) :
    s.run (moves ++ later) =
      (((s.run moves).1.run later).1, (s.run moves).2 ++ ((s.run moves).1.run later).2) := by
  induction moves generalizing s with
  | nil => simp [run]
  | cons first moves ih => simp [run, ih, List.append_assoc]

/-- The dispatcher leaves tokens as they are, but for new ones. -/
theorem stepDispatcher_cancelled (b : Bus) (a : Ambient) :
    (b.stepDispatcher a).2.1.cancelled = a.tokens.cancelled := by
  have hspawn : ∀ (b : Bus) (m : Message) (task : Task) (rest : List Task),
      (b.spawn a m task rest).2.1.cancelled = a.tokens.cancelled := by
    intro b m task rest
    unfold Bus.spawn
    split
    · rfl
    · rename_i root hroot
      unfold Bus.contextFor
      split
      · rfl
      · rename_i ctx tokens hctx
        split at hctx
        · cases hctx
          rfl
        · obtain ⟨deadline, -, hderived⟩ := Context.withTimeout_eq hctx
          cases hderived
          rfl
  unfold Bus.stepDispatcher
  split
  · split
    · rfl
    · split <;> rfl
  · split
    · exact hspawn _ _ _ _
    · rfl
  · exact hspawn _ _ _ _
  · rfl

/-- No move turns back the clock or restores a token. -/
theorem apply_later (s : System) (move : Move) : s.ambient.Later (s.apply move).1.ambient := by
  have hsame : ∀ bus : Bus, s.ambient.Later ({ s with bus } : System).ambient :=
    fun _ => .refl _
  cases move with
  | start ctx => exact hsame _
  | register task => exact hsame _
  | write ctx messages =>
      simp only [apply]
      split <;> exact .refl _
  | call id =>
      simp only [apply]
      split <;> exact .refl _
  | dispatcher =>
      exact ⟨Nat.le_refl _, (stepDispatcher_cancelled s.bus s.ambient).symm ▸ List.Subset.refl _⟩
  | watcher => exact hsame _
  | invocation id reply =>
      simp only [apply]
      split <;> exact .refl _
  | issue => exact ⟨Nat.le_refl _, List.Subset.refl _⟩
  | cancel ctx => exact ⟨Nat.le_refl _, List.subset_append_right _ _⟩
  | advance millis => exact ⟨Nat.le_add_right _ _, List.Subset.refl _⟩

/-- No run turns back the clock or restores a token. -/
theorem run_later (s : System) (moves : List Move) :
    s.ambient.Later (s.run moves).1.ambient := by
  induction moves generalizing s with
  | nil => exact .refl _
  | cons move moves ih => exact (s.apply_later move).trans (ih _)

end System

namespace Bus

/-- Every invocation ends when the bus's context does. -/
def Tethered (b : Bus) : Prop :=
  ∀ i ∈ b.running, ∃ root, b.root = some root ∧ i.ctx.Under root

/-- What holds of a bus between any two moves. -/
structure Sound (b : Bus) : Prop where
  phases : b.Phases
  slots : b.Slots 0
  permits : b.Permits 0
  tethered : b.Tethered
  queueCapacity_pos : 0 < b.config.queueCapacity
  maxInFlight_pos : 0 < b.config.maxInFlight

variable {a : Ambient} {b b' : Bus} {events : List BusEvent}

/-- The bounds of a bus never change. -/
theorem Change.config_eq (h : Change a b events b') : b'.config = b.config := by
  cases h with
  | forfeited hc hp hplace herr => split <;> simp [dismiss]
  | unheard hd hq hl => simp
  | taken hd hq hl => simp
  | aborted hlend hroot hctx =>
      obtain ⟨_, _, _, hframe⟩ := releasePermit_frame _
      rw [abort, hframe]
  | finished hi ending hend =>
      obtain ⟨_, _, _, hframe⟩ := releasePermit_frame _
      rw [hframe]
  | _ => rfl

/-- The context of an invocation depends on that of the bus. -/
theorem contextFor_under {root ctx : Context} {task : Task} {tokens : Tokens}
    (h : contextFor root task a = .ok (ctx, tokens)) : ctx.Under root := by
  unfold contextFor at h
  split at h
  · cases h
    exact Context.child_under root a.tokens
  · exact Context.withTimeout_under h

/-- Invocations stay tethered. -/
theorem Tethered.change (h : b.Tethered) (hchange : Change a b events b') : b'.Tethered := by
  cases hchange with
  | started ctx hroot =>
      intro i hi
      obtain ⟨root, hroot', -⟩ := h i hi
      rw [hroot] at hroot'
      cases hroot'
  | forfeited hc hp hplace herr => split <;> simpa [Tethered, dismiss] using h
  | unheard hd hq hl => simpa [Tethered] using h
  | taken hd hq hl => simpa [Tethered] using h
  | spawned hlend hroot hctx =>
      intro i hi
      rcases List.mem_append.mp hi with hi | hi
      · exact h i hi
      · rw [List.mem_singleton.mp hi]
        exact ⟨_, hroot, contextFor_under hctx⟩
  | aborted hlend hroot hctx =>
      obtain ⟨_, _, _, hframe⟩ := releasePermit_frame _
      rw [abort, hframe]
      exact h
  | entered hi herr hfresh =>
      intro i hi
      obtain ⟨j, hj, rfl⟩ := List.mem_map.mp hi
      split <;> exact h j hj
  | finished hi ending hend =>
      obtain ⟨_, _, _, hframe⟩ := releasePermit_frame _
      rw [hframe]
      exact fun i hi => h i (List.mem_of_mem_filter hi)
  | _ => exact h

namespace Sound

/-- A bus that has not been started. -/
theorem ofConfig (config : BusConfig) : (Bus.ofConfig config.effective).Sound where
  phases := .ofConfig _
  slots := ⟨List.nodup_nil, by simp [Bus.ofConfig], by simp [Bus.ofConfig], List.nodup_nil,
    by simp [Bus.ofConfig], by simp [Bus.ofConfig, granted], by simp [Bus.ofConfig]⟩
  permits := .ofConfig _
  tethered := by simp [Tethered, Bus.ofConfig]
  queueCapacity_pos := Nat.lt_of_lt_of_le Nat.one_pos (Nat.le_max_right _ _)
  maxInFlight_pos := Nat.lt_of_lt_of_le Nat.one_pos (Nat.le_max_right _ _)

/-- Every change keeps a bus sound. -/
theorem change (h : b.Sound) (hchange : Change a b events b') : b'.Sound where
  phases := h.phases.change hchange
  slots := h.slots.change hchange
  permits := h.permits.change h.phases hchange
  tethered := h.tethered.change hchange
  queueCapacity_pos := hchange.config_eq ▸ h.queueCapacity_pos
  maxInFlight_pos := hchange.config_eq ▸ h.maxInFlight_pos

end Sound
end Bus

namespace System

variable {s : System}

/-- A move changes the bus in one of the listed ways, or leaves it alone. -/
theorem apply_sound (h : s.bus.Sound) (move : Move) :
    (s.apply move).1.bus.Sound ∧
      ((s.apply move).1.bus = s.bus ∧ (s.apply move).2 = [] ∨
        Bus.Change s.ambient s.bus (s.apply move).2 (s.apply move).1.bus) := by
  have hmove := s.apply_change move fun hroot => (h.phases.unstarted hroot).1
  refine ⟨?_, hmove⟩
  rcases hmove with ⟨hsame, -⟩ | hchange
  · exact hsame ▸ h
  · exact h.change hchange

/-- A sound bus stays sound. -/
theorem run_sound (h : s.bus.Sound) (moves : List Move) : (s.run moves).1.bus.Sound := by
  induction moves generalizing s with
  | nil => exact h
  | cons move moves ih => exact ih (apply_sound h move).1

/-- The bus of every run is sound. -/
theorem sound_run (config : BusConfig) (tokens : Tokens) (moves : List Move) :
    ((initial config tokens).run moves).1.bus.Sound :=
  run_sound (.ofConfig config) moves

/-- **What changes keep, runs keep.**  The property may speak of the bus and of
all that has been seen. -/
theorem run_keeps {P : List BusEvent → Bus → Prop} (h : s.bus.Sound) (hfirst : P [] s.bus)
    (hchange : ∀ {a : Ambient} {b b' : Bus} {events new : List BusEvent},
      b.Sound → P events b → Bus.Change a b new b' → P (events ++ new) b')
    (moves : List Move) : P (s.run moves).2 (s.run moves).1.bus := by
  induction moves using List.reverseRecOn with
  | nil => exact hfirst
  | append_singleton moves move ih =>
      have hsound := run_sound h moves
      rw [run_concat]
      rcases (apply_sound hsound move).2 with ⟨hsame, hnone⟩ | hmove
      · rw [hsame, hnone, List.append_nil]
        exact ih
      · exact hchange hsound ih hmove

/-- The bounds of a bus are the same after every run. -/
theorem run_config (h : s.bus.Sound) (moves : List Move) :
    (s.run moves).1.bus.config = s.bus.config :=
  run_keeps (P := fun _ b => b.config = s.bus.config) h rfl
    (fun _ hsame hchange => hchange.config_eq.trans hsame) moves

end System

end PubSub
