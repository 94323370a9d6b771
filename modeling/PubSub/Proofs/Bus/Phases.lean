import PubSub.Proofs.Bus.Change

/-!
# The phases of a bus

Dispatcher and watcher begin together, when the bus is started, and end
one after the other: the watcher closes the queue to new calls, and
waits; the dispatcher returns when the queue is empty and no call is left
that could fill it; then the watcher collects the permits.

* `Dispatcher.isOver`, `Watcher.hasClosed`, `Watcher.hasJoined` — how far
  both have come;
* `Bus.Phases` — how this agrees with the rest of the bus;
* `Phases.change` — every change keeps it so;
* `Change.over_stays` — a dispatcher that has ended.
-/

namespace PubSub

/-- Will the dispatcher do nothing any more? -/
def Dispatcher.isOver : Dispatcher → Bool
  | .returned | .aborted _ => true
  | _ => false

/-- Has the watcher closed the queue to new calls? -/
def Watcher.hasClosed : Watcher → Bool
  | .joining | .draining _ | .stopped => true
  | _ => false

/-- Has the watcher seen the end of the dispatcher? -/
def Watcher.hasJoined : Watcher → Bool
  | .draining _ | .stopped => true
  | _ => false

namespace Bus

/-- How far the dispatcher and the watcher have come, and what this means
for the bus. -/
structure Phases (b : Bus) : Prop where
  unstarted : b.root = none → b.dispatcher = .unstarted ∧ b.watcher = .unstarted
  started : b.root ≠ none → b.dispatcher ≠ .unstarted ∧ b.watcher ≠ .unstarted
  sender : b.senderOpen = !b.watcher.hasClosed
  receiver : b.receiverOpen = !b.dispatcher.isOver
  joined : b.watcher.hasJoined = true → b.dispatcher.isOver = true
  drained : b.dispatcher = .returned → b.senderOpen = false ∧ b.queue = [] ∧ b.calls = []

variable {a : Ambient} {b b' : Bus} {events : List BusEvent}

namespace Phases

/-- A bus that has not been started. -/
theorem ofConfig (config : BusConfig) : (Bus.ofConfig config).Phases where
  unstarted _ := ⟨rfl, rfl⟩
  started h := absurd rfl h
  sender := rfl
  receiver := rfl
  joined h := nomatch h
  drained h := nomatch h

/-- What does not touch dispatcher, watcher and the two ends of the queue
has nothing to do with phases, unless the dispatcher has returned. -/
theorem of_same (h : b.Phases) (hroot : b'.root = b.root)
    (hd : b'.dispatcher = b.dispatcher) (hw : b'.watcher = b.watcher)
    (hsender : b'.senderOpen = b.senderOpen) (hrecv : b'.receiverOpen = b.receiverOpen)
    (hdrained : b.dispatcher = .returned → b'.queue = [] ∧ b'.calls = []) : b'.Phases where
  unstarted := by rw [hroot, hd, hw]; exact h.unstarted
  started := by rw [hroot, hd, hw]; exact h.started
  sender := by rw [hsender, hw]; exact h.sender
  receiver := by rw [hrecv, hd]; exact h.receiver
  joined := by rw [hd, hw]; exact h.joined
  drained := by
    rw [hd, hsender]
    exact fun hr => ⟨(h.drained hr).1, hdrained hr⟩

/-- The dispatcher goes on, at the expense of nothing but the queue. -/
theorem dispatch (h : b.Phases) (hroot : b'.root = b.root)
    (hw : b'.watcher = b.watcher) (hsender : b'.senderOpen = b.senderOpen)
    (hrecv : b'.receiverOpen = b.receiverOpen) (hover : b.dispatcher.isOver = false)
    (hover' : b'.dispatcher.isOver = false) (hd : b.dispatcher ≠ .unstarted)
    (hd' : b'.dispatcher ≠ .unstarted) : b'.Phases where
  unstarted := by
    rw [hroot]
    exact fun hr => absurd (h.unstarted hr).1 hd
  started := by
    rw [hroot, hw]
    exact fun hr => ⟨hd', (h.started hr).2⟩
  sender := by rw [hsender, hw]; exact h.sender
  receiver := by rw [hrecv, h.receiver, hover, hover']
  joined := by
    rw [hw, hover', ← hover]
    exact h.joined
  drained hr := by simp [hr, Dispatcher.isOver] at hover'

/-- The dispatcher ends, and with it the receiving end of the queue. -/
theorem finish (h : b.Phases) (hroot : b'.root = b.root) (hstarted : b.root ≠ none)
    (hw : b'.watcher = b.watcher) (hsender : b'.senderOpen = b.senderOpen)
    (hrecv : b'.receiverOpen = false) (hover : b'.dispatcher.isOver = true)
    (hdrained : b'.dispatcher = .returned →
      b.senderOpen = false ∧ b'.queue = [] ∧ b'.calls = []) : b'.Phases where
  unstarted := by
    rw [hroot]
    exact fun hr => absurd hr hstarted
  started := by
    intro _
    refine ⟨?_, hw ▸ (h.started hstarted).2⟩
    intro hd
    rw [hd] at hover
    cases hover
  sender := by rw [hsender, hw]; exact h.sender
  receiver := by rw [hrecv, hover]; rfl
  joined _ := hover
  drained := by rw [hsender]; exact hdrained

/-- The watcher goes on, and closes the queue to new calls if it is to. -/
theorem watch (h : b.Phases) (hroot : b'.root = b.root) (hd : b'.dispatcher = b.dispatcher)
    (hrecv : b'.receiverOpen = b.receiverOpen) (hqueue : b'.queue = b.queue)
    (hcalls : b'.calls = b.calls) (hw : b.watcher ≠ .unstarted) (hw' : b'.watcher ≠ .unstarted)
    (hsender : b'.senderOpen = !b'.watcher.hasClosed)
    (hclosed : b.senderOpen = false → b'.senderOpen = false)
    (hjoined : b'.watcher.hasJoined = true → b.dispatcher.isOver = true) : b'.Phases where
  unstarted := by
    rw [hroot]
    exact fun hr => absurd (h.unstarted hr).2 hw
  started := by
    rw [hroot, hd]
    exact fun hr => ⟨(h.started hr).1, hw'⟩
  sender := hsender
  receiver := by rw [hrecv, hd]; exact h.receiver
  joined := by rw [hd]; exact hjoined
  drained := by
    rw [hd, hqueue, hcalls]
    intro hr
    obtain ⟨hopen, hrest⟩ := h.drained hr
    exact ⟨hclosed hopen, hrest⟩

/-- A permit that comes back. -/
theorem releasePermit (h : b.Phases) : b.releasePermit.Phases := by
  rcases b.releasePermit_cases with ⟨m, task, rest, hd, hframe⟩ | ⟨held, hw, -, hframe⟩ |
    ⟨-, -, hframe⟩ <;> rw [hframe]
  · exact h.dispatch rfl rfl rfl rfl (by rw [hd]; rfl) rfl (by simp [hd]) (by simp)
  · have hsender : b.senderOpen = false := by rw [h.sender, hw]; rfl
    exact h.watch rfl rfl rfl rfl rfl (by simp [hw]) (by simp) hsender id
      fun _ => h.joined (by rw [hw]; rfl)
  · exact h.of_same rfl rfl rfl rfl rfl fun hr => (h.drained hr).2

/-- As long as a call is not over, the dispatcher has not returned. -/
theorem busy (h : b.Phases) {c : Call} (hc : c ∈ b.calls) : b.dispatcher ≠ .returned := by
  intro hr
  rw [(h.drained hr).2.2] at hc
  cases hc

/-- Once the bus has been started, its parties are at work. -/
theorem root_ne_none (h : b.Phases) (hd : b.dispatcher ≠ .unstarted) : b.root ≠ none :=
  fun hr => hd (h.unstarted hr).1

/-- Every change keeps the phases in order. -/
theorem change (h : b.Phases) (hchange : Change a b events b') : b'.Phases := by
  cases hchange with
  | started ctx hroot =>
      obtain ⟨hd, hw⟩ := h.unstarted hroot
      have hsender := h.sender
      have hrecv := h.receiver
      rw [hw] at hsender
      rw [hd] at hrecv
      exact {
        unstarted := nofun
        started := fun _ => ⟨nofun, nofun⟩
        sender := hsender
        receiver := hrecv
        joined := nofun
        drained := nofun }
  | registered task => exact h.of_same rfl rfl rfl rfl rfl fun hr => (h.drained hr).2
  | called ctx messages hstart hopen =>
      refine h.of_same rfl rfl rfl rfl rfl ?_
      intro hr
      rw [(h.drained hr).1] at hopen
      cases hopen
  | completed hc hp =>
      exact h.of_same rfl rfl rfl rfl rfl fun hr => absurd hr (h.busy hc)
  | gaveUp hc hp hplace herr =>
      exact h.of_same rfl rfl rfl rfl rfl fun hr => absurd hr (h.busy hc)
  | forfeited hc hp hplace herr =>
      split
      · exact h.of_same (by simp [dismiss]) (by simp [dismiss]) (by simp [dismiss])
          (by simp [dismiss]) (by simp [dismiss]) fun hr => absurd hr (h.busy hc)
      · exact h.of_same rfl rfl rfl rfl rfl fun hr => absurd hr (h.busy hc)
  | refused hc hp herr hrecv =>
      exact h.of_same rfl rfl rfl rfl rfl fun hr => absurd hr (h.busy hc)
  | pushed hc hp herr hrecv hslot =>
      exact h.of_same rfl rfl rfl rfl rfl fun hr => absurd hr (h.busy hc)
  | queued hc hp herr hrecv hplace hslot =>
      exact h.of_same rfl rfl rfl rfl rfl fun hr => absurd hr (h.busy hc)
  | unheard hd hq hl =>
      exact h.of_same (by simp) (by simp) (by simp) (by simp) (by simp) (by simp [hd])
  | taken hd hq hl =>
      exact h.dispatch (by simp) (by simp) (by simp) (by simp) (by rw [hd]; rfl) rfl
        (by simp [hd]) (by simp)
  | returned hd hq hclosed =>
      simp only [isClosed, Bool.and_eq_true, Bool.not_eq_true', List.isEmpty_iff] at hclosed
      have hstarted := h.root_ne_none (by simp [hd])
      exact h.finish rfl hstarted rfl rfl rfl rfl fun _ => ⟨hclosed.1, hq, hclosed.2⟩
  | lined hd hpermits =>
      exact h.dispatch rfl rfl rfl rfl (by rw [hd]; rfl) rfl (by simp [hd]) (by simp)
  | @spawned m task rest permits root ctx tokens hlend hroot hctx =>
      have hd := hlend.imp And.left And.left
      refine h.dispatch rfl rfl rfl rfl ?_ ?_ ?_ ?_
      · rcases hd with hd | hd <;> rw [hd] <;> rfl
      · cases rest <;> rfl
      · rcases hd with hd | hd <;> simp [hd]
      · cases rest <;> simp [nextPlacing]
  | aborted hlend hroot hctx =>
      have hstarted : b.root ≠ none := by simp [hroot]
      refine Phases.releasePermit ?_
      exact h.finish rfl hstarted rfl rfl rfl rfl (by simp)
  | closing hw hroot hdone =>
      exact h.watch rfl rfl rfl rfl rfl (by simp [hw]) (by simp) rfl (fun _ => rfl)
        (by simp [Watcher.hasJoined])
  | joined hw hd =>
      have hsender : b.senderOpen = false := by rw [h.sender, hw]; rfl
      refine h.watch rfl rfl rfl rfl rfl (by simp [hw]) (by simp) hsender id ?_
      intro _
      rcases hd with hd | ⟨why, hd⟩ <;> rw [hd] <;> rfl
  | stopped hw =>
      have hsender : b.senderOpen = false := by rw [h.sender, hw]; rfl
      exact h.watch rfl rfl rfl rfl rfl (by simp [hw]) (by simp) hsender id
        fun _ => h.joined (by rw [hw]; rfl)
  | entered hi herr hfresh => exact h.of_same rfl rfl rfl rfl rfl fun hr => (h.drained hr).2
  | finished hi ending hend =>
      refine Phases.releasePermit ?_
      exact h.of_same rfl rfl rfl rfl rfl fun hr => (h.drained hr).2

end Phases

/-- A dispatcher that has ended does not come back. -/
theorem Change.over_stays (h : b.Phases) (hchange : Change a b events b')
    (hover : b.dispatcher.isOver = true) : b'.dispatcher = b.dispatcher := by
  have hnot : ∀ m task rest turn, b.dispatcher ≠ .placing m task rest turn := by
    intro m task rest turn hd
    rw [hd] at hover
    cases hover
  cases hchange with
  | started ctx hroot => rw [(h.unstarted hroot).1] at hover; cases hover
  | forfeited hc hp hplace herr => split <;> simp [dismiss]
  | unheard hd hq hl => simp
  | taken hd hq hl => rw [hd] at hover; cases hover
  | returned hd hq hclosed => rw [hd] at hover; cases hover
  | lined hd hpermits => exact absurd hd (hnot _ _ _ _)
  | spawned hlend hroot hctx =>
      rcases hlend with ⟨hd, -⟩ | ⟨hd, -⟩ <;> exact absurd hd (hnot _ _ _ _)
  | aborted hlend hroot hctx =>
      rcases hlend with ⟨hd, -⟩ | ⟨hd, -⟩ <;> exact absurd hd (hnot _ _ _ _)
  | finished hi ending hend =>
      rcases releasePermit_cases ({ b with running := b.running.filter _ })
        with ⟨_, _, _, hd, -⟩ | ⟨_, -, -, hframe⟩ | ⟨-, -, hframe⟩
      · exact absurd hd (hnot _ _ _ _)
      · rw [hframe]
      · rw [hframe]
  | _ => rfl

end Bus
end PubSub
