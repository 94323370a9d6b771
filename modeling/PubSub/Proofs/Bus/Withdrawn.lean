import PubSub.Proofs.Bus.Recast
import PubSub.Proofs.Bus.Writes

/-!
# A call that leaves no trace

A call that has put nothing on the queue might as well not have been made:
another run, without that call, leads to the same state and shows the same
events.  The calls after it have numbers less by one there.  Since the call
may have stood in line, or have had a slot set aside, others may have had
to stand in line that can go on at once in the other run.  That run leaves
out the steps with which they took their places, so places are not
compared, but everything else is.

* `Bus.without`, `Bus.seenWithout` — state and events, without a call;
* `System.apply_without` — a move is left out, or made in the other run as
  well;
* `System.run_without` — the other run;
* `System.lifecycle_run` — the life of a bus, and of single writes.
-/

namespace PubSub

/-- The number that a call would have without another one. -/
def renumber (id n : Nat) : Nat := if id < n then n - 1 else n

/-- Different calls still have different numbers. -/
theorem renumber_inj {id m n : Nat} (hm : m ≠ id) (hn : n ≠ id) :
    renumber id m = renumber id n ↔ m = n := by
  unfold renumber
  split <;> split <;> omega

/-- The next number, when it is not that of the call. -/
theorem renumber_succ {id n : Nat} (hn : n ≠ id) : renumber id (n + 1) = renumber id n + 1 := by
  unfold renumber
  split <;> split <;> omega

/-- A call as it would be without another one, about to try. -/
def Call.apart (id : Nat) (c : Call) : Call := { c with id := renumber id c.id, place := .calling }

/-- A move as it would be without a call. -/
def Move.apart (id : Nat) : Move → Move
  | .call n => .call (renumber id n)
  | move => move

/-- What would be seen without a call. -/
def BusEvent.apart? (id : Nat) : BusEvent → Option BusEvent
  | .accepted n m => if n = id then none else some (.accepted (renumber id n) m)
  | .answered n result => if n = id then none else some (.answered (renumber id n) result)
  | event => some event

namespace Bus

/-- A bus as it would be without a call, with all others about to try. -/
def without (id : Nat) (b : Bus) : Bus :=
  { b with
    calls := (b.calls.filter (·.id ≠ id)).map (Call.apart id)
    line := []
    nextCall := renumber id b.nextCall }

/-- What would be seen without a call. -/
def seenWithout (id : Nat) (events : List BusEvent) : List BusEvent :=
  events.filterMap (BusEvent.apart? id)

section Seen

variable (id : Nat) (events new : List BusEvent)

@[simp] theorem seenWithout_append :
    seenWithout id (events ++ new) = seenWithout id events ++ seenWithout id new :=
  List.filterMap_append

@[simp] theorem seenWithout_self (result : Except Error Nat) :
    seenWithout id [.answered id result] = [] := by
  simp [seenWithout, BusEvent.apart?]

theorem seenWithout_answered {call : Nat} (hne : call ≠ id) (result : Except Error Nat) :
    seenWithout id [.answered call result] = [.answered (renumber id call) result] := by
  simp [seenWithout, BusEvent.apart?, hne]

theorem seenWithout_accepted {call : Nat} (hne : call ≠ id) (m : Message) :
    seenWithout id [.accepted call m] = [.accepted (renumber id call) m] := by
  simp [seenWithout, BusEvent.apart?, hne]

/-- What says nothing of calls is seen in any case. -/
theorem seenWithout_eq_self {events : List BusEvent}
    (h : ∀ event ∈ events, event.apart? id = some event) : seenWithout id events = events :=
  (List.filterMap_congr h).trans List.filterMap_some

/-- The end of an invocation is. -/
theorem seenWithout_ending (i : Invocation) (ending : Ending) :
    seenWithout id (endingEvents i ending) = endingEvents i ending := by
  refine seenWithout_eq_self id fun event hmem => ?_
  obtain ⟨logs, hlogs⟩ := endingEvents_logs i ending
  rw [hlogs] at hmem
  rcases List.mem_cons.mp hmem with rfl | hmem
  · rfl
  · obtain ⟨log, -, rfl⟩ := List.mem_map.mp hmem
    rfl

end Seen

variable {a : Ambient} {b : Bus} {id : Nat}

/-- A step that does not look at the calls is made without the call as well. -/
theorem without_blind {β : Type} {step : Bus → Bus × β} (h : Blind step) (id : Nat) (b : Bus) :
    step (b.without id) = ((step b).1.without id, (step b).2) := by
  have hsame : (step b).1.without id = (step b).1.recast
      ((b.calls.filter (·.id ≠ id)).map (Call.apart id)) [] (renumber id b.nextCall) := by
    rw [← h.calls_eq b, ← h.nextCall_eq b]
    rfl
  rw [hsame]
  exact h b _ _ _

theorem without_start (id : Nat) (b : Bus) (ctx : Context) :
    (b.without id).start ctx = ((b.start ctx).1.without id, (b.start ctx).2) :=
  without_blind (blind_start ctx) id b

theorem without_spawn (id : Nat) (b : Bus) (a : Ambient) (m : Message) (task : Task)
    (rest : List Task) :
    (b.without id).spawn a m task rest =
      ((b.spawn a m task rest).1.without id, (b.spawn a m task rest).2.1,
        (b.spawn a m task rest).2.2) :=
  without_blind (blind_spawn a m task rest) id b

theorem without_stepWatcher :
    (b.without id).stepWatcher a = ((b.stepWatcher a).1.without id, (b.stepWatcher a).2) :=
  without_blind (blind_stepWatcher a) id b

theorem without_pollInvocation (i : Invocation) (ended : Option Error) (reply : Reply) :
    (b.without id).pollInvocation i ended reply =
      ((b.pollInvocation i ended reply).1.without id, (b.pollInvocation i ended reply).2) :=
  without_blind (blind_pollInvocation i ended reply) id b

/-- What is seen of an invocation that is asked. -/
theorem seenWithout_pollInvocation (id : Nat) (b : Bus) (i : Invocation) (ended : Option Error)
    (reply : Reply) :
    seenWithout id (b.pollInvocation i ended reply).2 = (b.pollInvocation i ended reply).2 := by
  unfold pollInvocation
  split
  · exact seenWithout_ending _ _ _
  · rfl
  · rfl
  · exact seenWithout_ending _ _ _
  · exact seenWithout_ending _ _ _

/-- What is seen of an invocation that is begun. -/
theorem seenWithout_spawn (id : Nat) (b : Bus) (a : Ambient) (m : Message) (task : Task)
    (rest : List Task) :
    seenWithout id (b.spawn a m task rest).2.2 = (b.spawn a m task rest).2.2 := by
  unfold spawn
  split
  · rfl
  · split <;> rfl

/-- What is seen of a message that is taken off. -/
theorem seenWithout_take (id : Nat) (b : Bus) (m : Message) (queue : List Message) :
    seenWithout id (b.take m queue).2 = (b.take m queue).2 := by
  unfold take
  dsimp only
  split <;> rfl

/-- What is seen of a start. -/
theorem seenWithout_start (id : Nat) (b : Bus) (ctx : Context) :
    seenWithout id (b.start ctx).2 = (b.start ctx).2 := by
  unfold start
  split <;> rfl

/-- What is seen of the watcher. -/
theorem seenWithout_stepWatcher (id : Nat) (b : Bus) (a : Ambient) :
    seenWithout id (b.stepWatcher a).2 = (b.stepWatcher a).2 := by
  unfold stepWatcher
  split
  · rfl
  · split
    · rfl
    · unfold joinEvents
      split <;> rfl
    · rfl
    · rfl

/-- The call itself begins in one run only. -/
theorem without_begun_self (b : Bus) (ctx : Context) (messages : List Message) :
    (b.begun ctx messages).without b.nextCall = b.without b.nextCall := by
  simp [begun, without, List.filter_append, renumber]

/-- Another call begins in both runs. -/
theorem without_begun (hne : b.nextCall ≠ id) (ctx : Context) (messages : List Message) :
    (b.begun ctx messages).without id = (b.without id).begun ctx messages := by
  simp [begun, without, List.filter_append, hne, Call.apart, renumber_succ hne]

/-- The other calls, after a change to one. -/
theorem updateCall_others (b : Bus) (changed id : Nat) {f : Call → Call}
    (hid : ∀ c, (f c).id = c.id) :
    (b.updateCall changed f).calls.filter (·.id ≠ id) =
      (b.calls.filter (·.id ≠ id)).map fun c => if c.id = changed then f c else c := by
  rw [updateCall, List.filter_map]
  congr 2
  funext c
  simp only [Function.comp_apply]
  split <;> simp [hid]

/-- Places are not compared. -/
theorem without_place (b : Bus) (changed id : Nat) (place : Place) :
    (b.updateCall changed fun c => { c with place }).without id = b.without id := by
  have hcalls : ((b.updateCall changed fun c => { c with place }).calls.filter
      (·.id ≠ id)).map (Call.apart id) = (b.calls.filter (·.id ≠ id)).map (Call.apart id) := by
    rw [updateCall_others b changed id (f := fun c => { c with place }) fun _ => rfl,
      List.map_map]
    refine List.map_congr_left fun c _ => ?_
    simp only [Function.comp_apply]
    split <;> rfl
  unfold without
  rw [hcalls]
  rfl

/-- A change to another call is made in both runs. -/
theorem without_updateCall (b : Bus) {changed : Nat} (hne : changed ≠ id) {f : Call → Call}
    (hid : ∀ c, (f c).id = c.id) (hf : ∀ c, (f c).apart id = f (c.apart id)) :
    (b.updateCall changed f).without id = (b.without id).updateCall (renumber id changed) f := by
  have hcalls : ((b.updateCall changed f).calls.filter (·.id ≠ id)).map (Call.apart id) =
      ((b.without id).updateCall (renumber id changed) f).calls := by
    rw [updateCall_others b changed id hid, updateCall, without, List.map_map, List.map_map]
    refine List.map_congr_left fun c hc => ?_
    have hcid : c.id ≠ id := by simpa using (List.mem_filter.mp hc).2
    have hsame : (c.apart id).id = renumber id changed ↔ c.id = changed := renumber_inj hcid hne
    simp only [Function.comp_apply, hsame]
    split
    · exact hf c
    · rfl
  unfold without at hcalls ⊢
  rw [hcalls]
  rfl

/-- A slot that is handed out is not missed. -/
theorem without_releaseSlot (id : Nat) (b : Bus) : b.releaseSlot.without id = b.without id := by
  unfold releaseSlot
  split
  · rfl
  · exact without_place _ _ _ _

/-- The call itself is not missed when it is over. -/
theorem without_dismiss_self (b : Bus) (c : Call) :
    (b.dismiss c).without c.id = b.without c.id := by
  simp [without, dismiss, List.filter_filter]

/-- Another call is over in both runs. -/
theorem without_dismiss {c : Call} (hne : c.id ≠ id) :
    (b.dismiss c).without id = (b.without id).dismiss (c.apart id) := by
  have hcalls : ((b.calls.filter (·.id ≠ c.id)).filter (·.id ≠ id)).map (Call.apart id) =
      ((b.calls.filter (·.id ≠ id)).map (Call.apart id)).filter (·.id ≠ (c.apart id).id) := by
    rw [List.filter_map, List.filter_filter, List.filter_filter]
    congr 1
    refine List.filter_congr fun d _ => ?_
    by_cases hd : d.id = id
    · simp [hd]
    · simp [hd, Call.apart, renumber_inj hd hne]
  simp only [without, dismiss, hcalls, List.filter_nil]

/-- A call is found in both runs. -/
theorem call?_without {call : Nat} (hne : call ≠ id) (b : Bus) :
    (b.without id).call? (renumber id call) = (b.call? call).map (Call.apart id) := by
  simp only [call?, without, List.find?_map, List.find?_filter]
  congr 2
  funext c
  by_cases hc : c.id = id
  · simp [hc, Ne.symm hne]
  · simp [hc, Call.apart, renumber_inj hc hne, beq_eq_decide]

/-- No slots are set aside. -/
theorem freeSlots_without (id : Nat) (b : Bus) :
    (b.without id).freeSlots = b.config.queueCapacity - b.queue.length := by
  have hnone : (b.without id).calls.filter (·.place == .granted) = [] := by
    refine List.filter_eq_nil_iff.mpr fun c hc => ?_
    obtain ⟨d, -, rfl⟩ := List.mem_map.mp hc
    simp [Call.apart]
  simp [freeSlots, hnone]
  rfl

/-- A slot that is given back is not missed. -/
theorem without_forfeit (id : Nat) (b : Bus) (c : Call) (result : Except Error Nat) :
    (b.forfeit c result).1.without id = (b.answer c result).1.without id := by
  unfold forfeit
  dsimp only
  split
  · exact without_releaseSlot _ _
  · rfl

/-- What the call itself returns is not missed. -/
theorem without_answer_self (b : Bus) (c : Call) (result : Except Error Nat) :
    (b.answer c result).1.without c.id = b.without c.id ∧
      seenWithout c.id (b.answer c result).2 = [] :=
  ⟨without_dismiss_self b c, seenWithout_self c.id result⟩

/-- Another call returns the same in both runs. -/
theorem without_answer {c : Call} (hne : c.id ≠ id) (result : Except Error Nat) :
    (b.without id).answer (c.apart id) result =
      ((b.answer c result).1.without id, seenWithout id (b.answer c result).2) := by
  have hseen : seenWithout id [.answered c.id result] = [.answered (renumber id c.id) result] :=
    seenWithout_answered id hne result
  change ((b.without id).dismiss (c.apart id), _) = ((b.dismiss c).without id, _)
  rw [without_dismiss hne]
  exact Prod.ext rfl hseen.symm

/-- Another call writes the same in both runs. -/
theorem without_push {c : Call} (hne : c.id ≠ id) (m : Message) (pending : List Message) :
    (b.without id).push (c.apart id) m pending =
      ((b.push c m pending).1.without id, seenWithout id (b.push c m pending).2) := by
  let write : Call → Call := fun c =>
    { c with pending, written := c.written + 1, place := .calling }
  refine Prod.ext ?_ (seenWithout_accepted id hne m).symm
  exact (without_updateCall { b with queue := b.queue ++ [m] } hne (f := write)
    (fun _ => rfl) fun _ => rfl).symm

/-- The queue is not full when a call has a slot. -/
theorem Slots.room (h : b.Slots 0) {c : Call} (hc : c ∈ b.calls)
    (hslot : c.place = .granted ∨ 0 < b.freeSlots) : b.queue.length < b.config.queueCapacity := by
  have hbound := h.bounded
  rcases hslot with hplace | hfree
  · have hone := granted_dismiss h hc
    rw [Call.slots, if_pos hplace] at hone
    omega
  · unfold freeSlots at hfree
    omega

/-- A step of the call itself is not missed, unless it writes. -/
theorem stepCall_self {c : Call} (hpush : pushesOf c.id (b.stepCall a c).2 = []) :
    (b.stepCall a c).1.without c.id = b.without c.id ∧
      seenWithout c.id (b.stepCall a c).2 = [] := by
  unfold stepCall at hpush ⊢
  split at hpush
  · exact without_answer_self b c _
  · exact ⟨(without_forfeit _ b c _).trans (without_answer_self b c _).1, seenWithout_self c.id _⟩
  · exact without_answer_self b c _
  · split at hpush
    · rename_i hclosed
      rw [if_pos hclosed]
      exact without_answer_self b c _
    · rename_i hopen
      rw [if_neg hopen]
      split at hpush
      · cases (pushesOf_accepted c.id _).symm.trans hpush
      · split at hpush
        · cases (pushesOf_accepted c.id _).symm.trans hpush
        · rename_i hfull
          rw [if_neg hfull]
          exact ⟨without_place _ _ _ _, rfl⟩
      · exact ⟨rfl, rfl⟩

/-- A call that is about to try gives up, without another call as with it,
when its context has ended. -/
theorem stepCall_other_ended {c : Call} (hne : c.id ≠ id) (hp : c.pending ≠ []) {e : Error}
    (herr : a.err c.ctx = some e) :
    (b.without id).stepCall a (c.apart id) =
      ((b.stepCall a c).1.without id, seenWithout id (b.stepCall a c).2) := by
  obtain ⟨m, pending, hp⟩ := List.exists_cons_of_ne_nil hp
  have hp' : (c.apart id).pending = m :: pending := hp
  have hother : (b.without id).stepCall a (c.apart id) =
      (b.without id).answer (c.apart id) (.error e) := by
    have hctx : (c.apart id).ctx = c.ctx := rfl
    have hplace : (c.apart id).place = .calling := rfl
    simp only [stepCall, hp', hctx, hplace, herr]
  rw [hother, without_answer hne]
  cases hplace : c.place with
  | granted =>
      have hstep : b.stepCall a c = b.forfeit c (.error e) := by
        simp only [stepCall, hp, herr, hplace]
      rw [hstep, without_forfeit]
      rfl
  | calling => simp only [stepCall, hp, herr, hplace]
  | waiting => simp only [stepCall, hp, herr, hplace]

/-- A step of another call is not seen without the call, or is made there as
well.  Where the call had no slot, it had to stand in line. -/
theorem stepCall_other (h : b.Slots 0) {c : Call} (hc : c ∈ b.calls) (hne : c.id ≠ id) :
    (b.stepCall a c).1.without id = b.without id ∧ (b.stepCall a c).2 = [] ∨
      (b.without id).stepCall a (c.apart id) =
        ((b.stepCall a c).1.without id, seenWithout id (b.stepCall a c).2) := by
  have hctx : (c.apart id).ctx = c.ctx := rfl
  have hplace' : (c.apart id).place = .calling := rfl
  have hrecv' : (b.without id).receiverOpen = b.receiverOpen := rfl
  cases hp : c.pending with
  | nil =>
      right
      have hp' : (c.apart id).pending = [] := hp
      simp only [stepCall, hp, hp']
      exact without_answer hne _
  | cons m pending =>
      have hp' : (c.apart id).pending = m :: pending := hp
      cases herr : a.err c.ctx with
      | some e => exact .inr (stepCall_other_ended hne (by simp [hp]) herr)
      | none =>
          cases hrecv : b.receiverOpen with
          | false =>
              right
              have hother : (b.without id).stepCall a (c.apart id) =
                  (b.without id).answer (c.apart id) (.error .busClosed) := by
                simp [stepCall, hp', hctx, hplace', herr, hrecv', hrecv]
              have hstep : b.stepCall a c = b.answer c (.error .busClosed) := by
                cases hpl : c.place <;> simp [stepCall, hp, herr, hpl, hrecv]
              rw [hother, without_answer hne, hstep]
          | true =>
              -- a call with a slot has one without the other call, too
              have hpush : b.stepCall a c = b.push c m pending →
                  b.queue.length < b.config.queueCapacity →
                  (b.without id).stepCall a (c.apart id) =
                    ((b.stepCall a c).1.without id, seenWithout id (b.stepCall a c).2) := by
                intro hstep hroom
                have hfree : 0 < (b.without id).freeSlots := by
                  rw [freeSlots_without]
                  omega
                have hother : (b.without id).stepCall a (c.apart id) =
                    (b.without id).push (c.apart id) m pending := by
                  simp [stepCall, hp', hctx, hplace', herr, hrecv', hrecv, hfree]
                rw [hother, hstep, without_push hne]
              cases hplace : c.place with
              | granted =>
                  have hstep : b.stepCall a c = b.push c m pending := by
                    simp [stepCall, hp, herr, hplace, hrecv]
                  exact .inr (hpush hstep (h.room hc (.inl hplace)))
              | calling =>
                  by_cases hslot : 0 < b.freeSlots
                  · have hstep : b.stepCall a c = b.push c m pending := by
                      simp [stepCall, hp, herr, hplace, hrecv, hslot]
                    exact .inr (hpush hstep (h.room hc (.inr hslot)))
                  · have hstep : b.stepCall a c = b.queueUp c := by
                      simp [stepCall, hp, herr, hplace, hrecv, hslot]
                    rw [hstep]
                    exact .inl ⟨without_place _ _ _ _, rfl⟩
              | waiting => left; simp [stepCall, hp, herr, hplace, hrecv]

/-- A message is taken off in both runs. -/
theorem without_take (m : Message) (queue : List Message) :
    (b.without id).take m queue = ((b.take m queue).1.without id, (b.take m queue).2) := by
  have hslot : ({ b.without id with queue } : Bus).releaseSlot =
      ({ b with queue } : Bus).releaseSlot.without id := by
    rw [without_releaseSlot]
    rfl
  have hlisteners : (({ b with queue } : Bus).releaseSlot.without id).listeners =
      ({ b with queue } : Bus).releaseSlot.listeners := rfl
  unfold take
  dsimp only
  rw [hslot, hlisteners]
  split <;> rfl

/-- A step of the dispatcher does nothing, or is made without the call as
well.  Where only the call kept the bus open, the dispatcher has still to
wait. -/
theorem stepDispatcher_without (id : Nat) (b : Bus) (a : Ambient) :
    b.stepDispatcher a = (b, a.tokens, []) ∨
      (b.without id).stepDispatcher a =
        ((b.stepDispatcher a).1.without id, (b.stepDispatcher a).2.1,
          seenWithout id (b.stepDispatcher a).2.2) := by
  cases hd : b.dispatcher with
  | unstarted => left; simp [stepDispatcher, hd]
  | returned => left; simp [stepDispatcher, hd]
  | aborted why => left; simp [stepDispatcher, hd]
  | receiving =>
      have hd' : (b.without id).dispatcher = .receiving := hd
      cases hq : b.queue with
      | nil =>
          have hq' : (b.without id).queue = [] := hq
          cases hclosed : b.isClosed with
          | false => left; simp [stepDispatcher, hd, hq, hclosed]
          | true =>
              right
              have hclosed' : (b.without id).isClosed = true := by
                simp only [isClosed, Bool.and_eq_true, List.isEmpty_iff] at hclosed ⊢
                exact ⟨hclosed.1, by simp [without, hclosed.2]⟩
              simp only [stepDispatcher, hd, hq, hclosed, hd', hq', hclosed', if_true]
              rfl
      | cons m queue =>
          right
          have hq' : (b.without id).queue = m :: queue := hq
          simp only [stepDispatcher, hd, hq, hd', hq', without_take, seenWithout_take]
  | placing m task rest turn =>
      have hd' : (b.without id).dispatcher = .placing m task rest turn := hd
      cases turn with
      | waiting => left; simp [stepDispatcher, hd]
      | holding =>
          right
          simp only [stepDispatcher, hd, hd', without_spawn, seenWithout_spawn]
      | asking =>
          right
          have hpermits : (b.without id).permits = b.permits := rfl
          by_cases hfree : 0 < b.permits
          · have hstep : b.stepDispatcher a =
                { b with permits := b.permits - 1 }.spawn a m task rest := by
              simp [stepDispatcher, hd, hfree]
            have hother : (b.without id).stepDispatcher a =
                { b.without id with permits := b.permits - 1 }.spawn a m task rest := by
              simp [stepDispatcher, hd', hpermits, hfree]
            rw [hstep, hother, seenWithout_spawn]
            exact without_spawn id { b with permits := b.permits - 1 } a m task rest
          · simp only [stepDispatcher, hd, hd', hpermits, hfree, if_false]
            rfl

end Bus

namespace System

/-- A system as it would be without a call. -/
def without (id : Nat) (s : System) : System := { s with bus := s.bus.without id }

variable {s : System} {id : Nat}

/-- A move is not missed without the call, or is made there as well, unless
it begins the call or writes one of its messages. -/
theorem apply_without (h : s.bus.Sound) (move : Move)
    (hapart : (s.apply move).1.bus.nextCall ≤ id ∨
      id < s.bus.nextCall ∧ Bus.pushesOf id (s.apply move).2 = []) :
    (s.apply move).1.without id = s.without id ∧ Bus.seenWithout id (s.apply move).2 = [] ∨
      move ≠ .call id ∧ (s.without id).apply (move.apart id) =
        ((s.apply move).1.without id, Bus.seenWithout id (s.apply move).2) := by
  cases move with
  | start ctx =>
      refine .inr ⟨by simp, ?_⟩
      simp only [Move.apart, apply, ofStep, without, Bus.without_start, Bus.seenWithout_start]
  | register task => exact .inr ⟨by simp, rfl⟩
  | write ctx messages =>
      refine .inr ⟨by simp, ?_⟩
      by_cases hopen : s.bus.isStarted = true ∧ s.bus.senderOpen = true
      · obtain ⟨hstarted, hopen⟩ := hopen
        have hwrite := apply_write_eq hstarted hopen ctx messages
        have hne : s.bus.nextCall ≠ id := by
          rw [hwrite] at hapart
          rcases hapart with hle | ⟨hlt, -⟩
          · exact Nat.ne_of_lt hle
          · exact Nat.ne_of_gt hlt
        have hother := apply_write_eq (s := s.without id) hstarted hopen ctx messages
        have hbus : (s.without id).bus.begun ctx messages = (s.bus.begun ctx messages).without id :=
          (Bus.without_begun hne ctx messages).symm
        change (s.without id).apply (.write ctx messages) = _
        rw [hwrite, hother, hbus]
        rfl
      · have hother := apply_write_of_not_open (s := s.without id) hopen ctx messages
        change (s.without id).apply (.write ctx messages) = _
        rw [hother, apply_write_of_not_open hopen ctx messages]
        rfl
  | call call =>
      have hnumber := apply_nextCall_le h (.call call)
      cases hc : s.bus.call? call with
      | none =>
          left
          have hnone : s.apply (.call call) = (s, []) := by simp [apply, hc]
          rw [hnone]
          exact ⟨rfl, rfl⟩
      | some c =>
          obtain ⟨hmem, rfl⟩ := Bus.call?_some hc
          have hlt := h.slots.numbered c hmem
          simp only [apply, hc] at hapart hnumber ⊢
          by_cases heq : c.id = id
          · subst heq
            have hpushes := (hapart.resolve_left (by omega)).2
            obtain ⟨hbus, hseen⟩ := Bus.stepCall_self hpushes
            exact .inl ⟨congrArg (fun bus => ({ s with bus } : System)) hbus, hseen⟩
          · rcases Bus.stepCall_other h.slots hmem heq with ⟨hbus, hseen⟩ | hstep
            · refine .inl ⟨congrArg (fun bus => ({ s with bus } : System)) hbus, ?_⟩
              simp only [ofStep, hseen]
              rfl
            · refine .inr ⟨by simpa using heq, ?_⟩
              have hc' : (s.without id).bus.call? (renumber id c.id) = some (c.apart id) := by
                rw [without, Bus.call?_without heq, hc]
                rfl
              simp only [Move.apart, hc', ofStep]
              rw [without, hstep]
              rfl
  | dispatcher =>
      rcases Bus.stepDispatcher_without id s.bus s.ambient with hidle | hstep
      · left
        have hnone : s.apply .dispatcher = (s, []) := by simp [apply, hidle]
        rw [hnone]
        exact ⟨rfl, rfl⟩
      · right
        refine ⟨by simp, ?_⟩
        simp only [Move.apart, apply, without, hstep]
  | watcher =>
      refine .inr ⟨by simp, ?_⟩
      simp only [Move.apart, apply, ofStep, without, Bus.without_stepWatcher,
        Bus.seenWithout_stepWatcher]
  | invocation call reply =>
      refine .inr ⟨by simp, ?_⟩
      have hsame : (s.without id).bus.invocation? call = s.bus.invocation? call := rfl
      simp only [Move.apart, apply, hsame]
      cases s.bus.invocation? call with
      | none => rfl
      | some i =>
          simp only [ofStep, without, Bus.without_pollInvocation, Bus.seenWithout_pollInvocation]
  | issue => exact .inr ⟨by simp, rfl⟩
  | cancel ctx => exact .inr ⟨by simp, rfl⟩
  | advance millis => exact .inr ⟨by simp, rfl⟩

/-- Without a call that begins before or after some moves, and writes nothing
with them, some of these moves are made, and lead to the same state. -/
theorem run_without (id : Nat) (h : s.bus.Sound) (moves : List Move)
    (hapart : (s.run moves).1.bus.nextCall ≤ id ∨
      id < s.bus.nextCall ∧ Bus.pushesOf id (s.run moves).2 = []) :
    ∃ kept : List Move, kept.Sublist moves ∧ .call id ∉ kept ∧
      (s.without id).run (kept.map (Move.apart id)) =
        ((s.run moves).1.without id, Bus.seenWithout id (s.run moves).2) := by
  induction moves generalizing s with
  | nil => exact ⟨[], .refl _, List.not_mem_nil, rfl⟩
  | cons move moves ih =>
      have hsound := (apply_sound h move).1
      have hfirst := apply_nextCall_le h move
      have hrest := run_nextCall_le hsound moves
      rw [run_cons] at hapart ⊢
      rw [Bus.pushesOf_append, List.append_eq_nil_iff] at hapart
      have hthen : ((s.apply move).1.run moves).1.bus.nextCall ≤ id ∨
          id < (s.apply move).1.bus.nextCall ∧
            Bus.pushesOf id ((s.apply move).1.run moves).2 = [] :=
        hapart.imp_right fun ⟨hlt, _, hnone⟩ => ⟨Nat.lt_of_lt_of_le hlt hfirst, hnone⟩
      have hnow : (s.apply move).1.bus.nextCall ≤ id ∨
          id < s.bus.nextCall ∧ Bus.pushesOf id (s.apply move).2 = [] :=
        hapart.imp (Nat.le_trans hrest) fun ⟨hlt, hnone, _⟩ => ⟨hlt, hnone⟩
      obtain ⟨kept, hsub, hnot, hrun⟩ := ih hsound hthen
      rcases apply_without h move hnow with ⟨hsame, hnone⟩ | ⟨hne, hstep⟩
      · refine ⟨kept, hsub.cons _, hnot, ?_⟩
        rw [← hsame, hrun, Bus.seenWithout_append, hnone, List.nil_append]
      · refine ⟨move :: kept, hsub.cons_cons _, ?_, ?_⟩
        · rw [List.mem_cons, not_or]
          exact ⟨hne.symm, hnot⟩
        · rw [List.map_cons, run_cons, hstep, hrun, Bus.seenWithout_append]

/-- Nothing is missed of a call that begins, and writes nothing with the moves
that follow. -/
theorem run_write_without (h : s.bus.Sound) (hstarted : s.bus.isStarted = true)
    (hopen : s.bus.senderOpen = true) {ctx : Context} {messages : List Message}
    {later : List Move} (hpushes : s.pushes ctx messages later = []) :
    let final := s.run (.write ctx messages :: later)
    ∃ kept : List Move, kept.Sublist later ∧ .call s.bus.nextCall ∉ kept ∧
      (s.without s.bus.nextCall).run (kept.map (Move.apart s.bus.nextCall)) =
        (final.1.without s.bus.nextCall, Bus.seenWithout s.bus.nextCall final.2) := by
  intro final
  let begun : System := { s with bus := s.bus.begun ctx messages }
  have hwrite : s.apply (.write ctx messages) = (begun, []) :=
    apply_write_eq hstarted hopen ctx messages
  have hbegun : begun.without s.bus.nextCall = s.without s.bus.nextCall :=
    congrArg (fun bus => ({ s with bus } : System)) (Bus.without_begun_self s.bus ctx messages)
  have hsound : begun.bus.Sound := by
    have hsound := (apply_sound h (.write ctx messages)).1
    rwa [hwrite] at hsound
  have hfinal : final = begun.run later := by
    simp only [final, run_cons, hwrite, List.nil_append]
  rw [(results_of_open hstarted hopen ctx messages later).2] at hpushes
  change Bus.pushesOf s.bus.nextCall final.2 = [] at hpushes
  rw [hfinal] at hpushes ⊢
  rw [← hbegun]
  exact run_without s.bus.nextCall hsound later (.inr ⟨Nat.lt_succ_self _, hpushes⟩)

/-- A call that has written nothing might as well not have been made: other
moves of the same run lead to the same state, and show the same events. -/
theorem run_unwritten {config : BusConfig} {tokens : Tokens} {before later : List Move}
    {ctx : Context} {messages : List Message}
    (hstarted : ((initial config tokens).run before).1.bus.isStarted = true)
    (hopen : ((initial config tokens).run before).1.bus.senderOpen = true)
    (hpushes : ((initial config tokens).run before).1.pushes ctx messages later = []) :
    let id := ((initial config tokens).run before).1.bus.nextCall
    let final := (initial config tokens).run (before ++ .write ctx messages :: later)
    ∃ kept : List Move, kept.Sublist (before ++ later) ∧ .call id ∉ kept ∧
      (initial config tokens).run (kept.map (Move.apart id)) =
        (final.1.without id, Bus.seenWithout id final.2) := by
  intro id final
  have hstart : (initial config tokens).without id = initial config tokens := by
    simp [without, initial, Bus.ofConfig, Bus.without, renumber]
  obtain ⟨kept, hsub, hnot, hrun⟩ :=
    run_without id (s := initial config tokens) (.ofConfig config) before (.inl (Nat.le_refl _))
  obtain ⟨kept', hsub', hnot', hrun'⟩ :=
    run_write_without (sound_run config tokens before) hstarted hopen hpushes
  refine ⟨kept ++ kept', hsub.append hsub', by simp [hnot, hnot', id], ?_⟩
  rw [hstart] at hrun
  have hfinal := run_append (initial config tokens) before (.write ctx messages :: later)
  change final = _ at hfinal
  rw [List.map_append, run_append, hrun, hrun', hfinal, Bus.seenWithout_append]

/-- Nobody waits for a slot that is free. -/
theorem freeSlots_of_line (h : s.bus.Sound) (hrecv : s.bus.receiverOpen = true)
    (hline : s.bus.line ≠ []) : s.bus.freeSlots = 0 := by
  have hfull := h.slots.full hrecv hline
  unfold Bus.granted at hfull
  unfold Bus.freeSlots
  omega

/-- **The life of a bus, and of a write.**  A bus goes from not started to
open, from open to closed, and from closed to stopped, and nothing else
happens to its life.  It has been started when there was a start; later
starts leave no trace in a run, and only the end of the context of the
first one closes the bus.  A write of a single message obeys `WriteLaw`, in
every run in which the dispatcher does not break down.  A write that has
put nothing on the queue is not missed: other moves of the same run lead to
the same state but for the call, and show the same events; and what it
leaves behind is not kept from the calls that wait. -/
theorem lifecycle_run (config : BusConfig) (tokens : Tokens) (before : List Move) :
    let start := initial config tokens
    let s := (start.run before).1
    (∀ move, (s.apply move).1.bus.lifecycle = s.bus.lifecycle ∨
      (s.apply move).1.bus.lifecycle.rank = s.bus.lifecycle.rank + 1) ∧
    (s.bus.isStarted = true ↔ ∃ root, .start root ∈ before) ∧
    (s.bus.isStarted = true → ∀ ctx later,
      start.run (before ++ .start ctx :: later) = start.run (before ++ later)) ∧
    (s.bus.senderOpen = false →
      ∃ root, before.findSome? Move.started? = some root ∧ s.ambient.isDone root = true) ∧
    ∀ ctx m later,
      let final := start.run (before ++ .write ctx [m] :: later)
      ((∀ why, final.1.bus.dispatcher ≠ .aborted why) → s.WriteLaw ctx m later) ∧
      (s.bus.isStarted = true → s.bus.senderOpen = true → s.pushes ctx [m] later = [] →
        (∃ kept : List Move, kept.Sublist (before ++ later) ∧ .call s.bus.nextCall ∉ kept ∧
          start.run (kept.map (Move.apart s.bus.nextCall)) =
            (final.1.without s.bus.nextCall, Bus.seenWithout s.bus.nextCall final.2)) ∧
        (final.1.bus.receiverOpen = true → final.1.bus.line ≠ [] →
          final.1.bus.freeSlots = 0)) := by
  intro start s
  have hsound : s.bus.Sound := sound_run config tokens before
  refine ⟨apply_lifecycle hsound, isStarted_run config tokens before, ?_, ?_, ?_⟩
  · intro hstarted ctx later
    obtain ⟨first, hfirst⟩ := (isStarted_run config tokens before).mp hstarted
    exact run_later_start hfirst ctx later
  · intro hclosed
    obtain ⟨root, hroot, hdone⟩ := rootDone_of_closed config tokens before hclosed
    have hfirst := run_root (s := start) (.ofConfig config) before
    exact ⟨root, hfirst.symm.trans hroot, hdone⟩
  · intro ctx m later final
    refine ⟨fun halive => ?_, fun hstarted hopen hpushes => ⟨?_, ?_⟩⟩
    · have hfinal := run_append start before (.write ctx [m] :: later)
      change final = _ at hfinal
      rw [hfinal] at halive
      exact writeLaw_of_alive hsound ctx m later halive
    · exact run_unwritten hstarted hopen hpushes
    · exact freeSlots_of_line (sound_run config tokens _)

/-- An order fills the only slot of the queue. -/
def filledMoves : List Move :=
  [.start ⟨[0], none, none, none⟩, .write ⟨[1], none, none, none⟩ [sampleOrder "o-1"],
    .call 0, .call 0]

/-- Two calls wait for the slot.  The first of them gets it, and its context
is cancelled before it can write. -/
def contestedMoves : List Move :=
  [.call 1, .write ⟨[3], none, none, none⟩ [sampleOrder "o-3"], .call 2, .dispatcher,
    .cancel ⟨[2], none, none, none⟩, .call 1, .call 2]

/-- The first call returns that it was cancelled and has left no trace, and
the second one has the slot. -/
theorem lifecycle_run_contested :
    let start := initial ⟨0, 0⟩ ⟨4, []⟩
    let s := (start.run filledMoves).1
    let ctx : Context := ⟨[2], none, none, none⟩
    let final := start.run (filledMoves ++ .write ctx [sampleOrder "o-2"] :: contestedMoves)
    s.WriteLaw ctx (sampleOrder "o-2") contestedMoves ∧
      s.results ctx [sampleOrder "o-2"] contestedMoves = [.error .cancelled] ∧
      s.pushes ctx [sampleOrder "o-2"] contestedMoves = [] ∧
      final.1.bus.queue.map (·.id) = ["o-3"] ∧
      ∃ kept : List Move, kept.Sublist (filledMoves ++ contestedMoves) ∧ .call 1 ∉ kept ∧
        start.run (kept.map (Move.apart 1)) = (final.1.without 1, Bus.seenWithout 1 final.2) := by
  obtain ⟨-, -, -, -, hwrite⟩ := lifecycle_run ⟨0, 0⟩ ⟨4, []⟩ filledMoves
  obtain ⟨hlaw, hgone⟩ := hwrite ⟨[2], none, none, none⟩ (sampleOrder "o-2") contestedMoves
  have hid : ((initial ⟨0, 0⟩ ⟨4, []⟩).run filledMoves).1.bus.nextCall = 1 := by decide +kernel
  rw [hid] at hgone
  refine ⟨hlaw ?_, rfl, rfl, rfl, (hgone rfl rfl rfl).1⟩
  intro why hd
  have hover := congrArg Dispatcher.isOver hd
  cases hover

end System
end PubSub
