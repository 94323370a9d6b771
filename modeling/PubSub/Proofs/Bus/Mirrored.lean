import PubSub.Proofs.Bus.Recast
import PubSub.Proofs.Bus.Writes

/-!
# The same bus with other calls

Two buses are in the same state but for their calls.  Each call of the
first has its like in the second, under a number of its own, in the same
place and with the same to write; only one call, with a list of messages,
is represented by a call for one of them.  Then a step of the first bus and
the like step of the second lead to such buses again, and nobody can tell
them apart.

* `Call.mirrored` — how a call looks in the second bus;
* `Bus.Mirrors` — two buses with such calls;
* `Mirrors.blind`, `Mirrors.stepDispatcher`, `Mirrors.begun`,
  `Mirrors.stepCall_other` — steps of other parties;
* `Bus.Paired`, `Mirrors.stepCall_paired` — a step of the same call in both;
* `Mirrors.dismiss`, `Mirrors.renew` — the end of a call, and the call for the
  next message.
-/

namespace PubSub

/-- The part of a call that concerns one message: the next one, or, when that is
written, the last one. -/
def Call.portion (sent : Bool) (c : Call) : Call :=
  { c with pending := if sent then [] else c.pending.take 1, written := if sent then 1 else 0 }

/-- How a call looks in the other bus, where calls have the numbers `name`, and that
of number `own` is there with one message. -/
def Call.mirrored (own : Nat) (sent : Bool) (name : Nat → Nat) (c : Call) : Call :=
  { if c.id = own then c.portion sent else c with id := name c.id }

namespace Call

variable (own : Nat) (sent : Bool) (name : Nat → Nat) (c : Call)

@[simp] theorem mirrored_id : (c.mirrored own sent name).id = name c.id := rfl

@[simp] theorem mirrored_ctx : (c.mirrored own sent name).ctx = c.ctx := by
  unfold mirrored
  split <;> rfl

@[simp] theorem mirrored_place : (c.mirrored own sent name).place = c.place := by
  unfold mirrored
  split <;> rfl

variable {own c}

theorem mirrored_own (h : c.id = own) :
    c.mirrored own sent name = { c.portion sent with id := name c.id } := by
  rw [mirrored, if_pos h]

theorem mirrored_other (h : c.id ≠ own) :
    c.mirrored own sent name = { c with id := name c.id } := by
  rw [mirrored, if_neg h]

/-- Only the numbers of the calls matter. -/
theorem mirrored_congr {name name' : Nat → Nat} (h : name' c.id = name c.id) :
    c.mirrored own sent name' = c.mirrored own sent name := by
  rw [mirrored, mirrored, h]

end Call

namespace Bus

/-- Two buses that are the same but for their calls, and have the same calls under
other numbers, except that the call of number `own` has one message in the
second. -/
structure Mirrors (own : Nat) (sent : Bool) (name : Nat → Nat) (b b' : Bus) : Prop where
  same : b' = b.recast b'.calls b'.line b'.nextCall
  calls : b'.calls.Perm (b.calls.map (Call.mirrored own sent name))
  line : b'.line = b.line.map name
  distinct : ∀ m n, m < b.nextCall → n < b.nextCall → name m = name n → m = n
  numbered : ∀ n, n < b.nextCall → name n < b'.nextCall

variable {own : Nat} {sent : Bool} {name : Nat → Nat} {a : Ambient} {b b' : Bus} {spare : Nat}
  {c : Call}

/-- The calls that stand in line have numbers that were given out. -/
theorem Slots.line_numbered (h : b.Slots spare) : ∀ n ∈ b.line, n < b.nextCall := by
  intro n hn
  obtain ⟨c, hc, rfl, -⟩ := (h.mem_line n).mp hn
  exact h.numbered c hc

namespace Mirrors

section Same

variable (h : Mirrors own sent name b b')

include h

theorem config_eq : b'.config = b.config := by rw [h.same]; rfl

theorem root_eq : b'.root = b.root := by rw [h.same]; rfl

theorem isStarted_eq : b'.isStarted = b.isStarted := by rw [isStarted, h.root_eq]; rfl

theorem senderOpen_eq : b'.senderOpen = b.senderOpen := by rw [h.same]; rfl

theorem receiverOpen_eq : b'.receiverOpen = b.receiverOpen := by rw [h.same]; rfl

theorem queue_eq : b'.queue = b.queue := by rw [h.same]; rfl

theorem dispatcher_eq : b'.dispatcher = b.dispatcher := by rw [h.same]; rfl

theorem permits_eq : b'.permits = b.permits := by rw [h.same]; rfl

theorem running_eq : b'.running = b.running := by rw [h.same]; rfl

/-- A call has its like in the other bus. -/
theorem mem (hc : c ∈ b.calls) : c.mirrored own sent name ∈ b'.calls :=
  h.calls.mem_iff.mpr (List.mem_map_of_mem hc)

/-- As many slots are set aside. -/
theorem granted_eq : b'.granted = b.granted := by
  unfold granted
  rw [(h.calls.filter _).length_eq, List.filter_map, List.length_map]
  congr 2
  funext c
  simp

/-- As many slots are free. -/
theorem freeSlots_eq : b'.freeSlots = b.freeSlots := by
  have hgranted := h.granted_eq
  unfold granted at hgranted
  rw [freeSlots, freeSlots, h.config_eq, h.queue_eq, hgranted]

/-- Messages can still come to both, or to neither. -/
theorem isClosed_eq : b'.isClosed = b.isClosed := by
  have hempty : b'.calls.isEmpty = b.calls.isEmpty := by
    rw [h.calls.isEmpty_eq, List.isEmpty_map]
  rw [isClosed, isClosed, h.senderOpen_eq, hempty]

/-- A call is found in both under its numbers. -/
theorem call?_eq (hslots' : b'.Slots spare) (hlt : ∀ c ∈ b.calls, c.id < b.nextCall) {n : Nat}
    (hn : n < b.nextCall) :
    b'.call? (name n) = (b.call? n).map (Call.mirrored own sent name) := by
  cases hc : b.call? n with
  | some c =>
      obtain ⟨hmem, rfl⟩ := call?_some hc
      exact hslots'.call?_eq (h.mem hmem)
  | none =>
      refine List.find?_eq_none.mpr fun d hd hid => ?_
      obtain ⟨c, hc', rfl⟩ := List.mem_map.mp (h.calls.mem_iff.mp hd)
      have heq : c.id = n := h.distinct c.id n (hlt c hc') hn (by simpa using hid)
      exact List.find?_eq_none.mp hc c hc' (by simpa using heq)

end Same

/-- A step that does not look at the calls is made in both. -/
theorem blind {β : Type} {step : Bus → Bus × β} (h : Mirrors own sent name b b')
    (hstep : Blind step) :
    Mirrors own sent name (step b).1 (step b').1 ∧ (step b').2 = (step b).2 := by
  have hboth := hstep b b'.calls b'.line b'.nextCall
  rw [← h.same] at hboth
  rw [hboth]
  refine ⟨⟨rfl, ?_, ?_, ?_, ?_⟩, rfl⟩
  · rw [hstep.calls_eq]
    exact h.calls
  · rw [hstep.line_eq]
    exact h.line
  · rw [hstep.nextCall_eq]
    exact h.distinct
  · rw [hstep.nextCall_eq]
    exact h.numbered

/-- So is one of which nothing is seen. -/
theorem unseen {f : Bus → Bus} (h : Mirrors own sent name b b')
    (hf : Blind fun b => (f b, ())) : Mirrors own sent name (f b) (f b') :=
  (h.blind hf).1

/-- The queue of both is another one. -/
theorem setQueue (h : Mirrors own sent name b b') (queue : List Message) :
    Mirrors own sent name { b with queue } { b' with queue } :=
  h.unseen (f := fun b => { b with queue }) fun _ _ _ _ => rfl

/-- The dispatchers of both are somewhere else. -/
theorem setDispatcher (h : Mirrors own sent name b b') (dispatcher : Dispatcher) :
    Mirrors own sent name { b with dispatcher } { b' with dispatcher } :=
  h.unseen (f := fun b => { b with dispatcher }) fun _ _ _ _ => rfl

/-- The line of both is another one. -/
theorem setLine (h : Mirrors own sent name b b') (line : List Nat) :
    Mirrors own sent name { b with line } { b' with line := line.map name } where
  same := by
    conv_lhs => rw [h.same]
    rfl
  calls := h.calls
  line := rfl
  distinct := h.distinct
  numbered := h.numbered

/-- A call changes in both. -/
theorem updateCall {sent' : Bool} (h : Mirrors own sent name b b')
    (hlt : ∀ c ∈ b.calls, c.id < b.nextCall) {n : Nat} (hn : n < b.nextCall) {f f' : Call → Call}
    (hself : ∀ c ∈ b.calls, c.id = n →
      (f c).mirrored own sent' name = f' (c.mirrored own sent name))
    (hother : ∀ c ∈ b.calls, c.id ≠ n → c.mirrored own sent' name = c.mirrored own sent name) :
    Mirrors own sent' name (b.updateCall n f) (b'.updateCall (name n) f') where
  same := by
    conv_lhs => rw [h.same]
    rfl
  calls := by
    refine (h.calls.map _).trans (List.Perm.of_eq ?_)
    change _ = (b.calls.map _).map _
    rw [List.map_map, List.map_map]
    refine List.map_congr_left fun c hc => ?_
    have hid : name c.id = name n ↔ c.id = n :=
      ⟨h.distinct _ _ (hlt c hc) hn, fun heq => congrArg name heq⟩
    simp only [Function.comp_apply, Call.mirrored_id, hid]
    split
    · exact (hself c hc ‹_›).symm
    · exact (hother c hc ‹_›).symm
  line := h.line
  distinct := h.distinct
  numbered := h.numbered

/-- A call is in another place in both. -/
theorem setPlace (h : Mirrors own sent name b b') (hlt : ∀ c ∈ b.calls, c.id < b.nextCall)
    {n : Nat} (hn : n < b.nextCall) (place : Place) :
    Mirrors own sent name (b.updateCall n fun c => { c with place })
      (b'.updateCall (name n) fun c => { c with place }) := by
  refine h.updateCall hlt hn (fun c _ _ => ?_) fun _ _ _ => rfl
  unfold Call.mirrored Call.portion
  dsimp only
  split <;> rfl

/-- A call is over in both. -/
theorem dismiss (h : Mirrors own sent name b b') (hslots : b.Slots spare) (hc : c ∈ b.calls) :
    Mirrors own sent name (b.dismiss c) (b'.dismiss (c.mirrored own sent name)) where
  same := by
    conv_lhs => rw [h.same]
    rfl
  calls := by
    refine (h.calls.filter _).trans (List.Perm.of_eq ?_)
    change _ = (b.calls.filter _).map _
    rw [List.filter_map]
    congr 1
    refine List.filter_congr fun d hd => ?_
    have hid : name d.id = name c.id ↔ d.id = c.id :=
      ⟨h.distinct _ _ (hslots.numbered d hd) (hslots.numbered c hc), fun heq => congrArg name heq⟩
    simp [hid]
  line := by
    change b'.line.filter _ = (b.line.filter _).map _
    rw [h.line, List.filter_map]
    congr 1
    refine List.filter_congr fun n hn => ?_
    obtain ⟨d, hd, rfl, -⟩ := (hslots.mem_line n).mp hn
    have hid : name d.id = name c.id ↔ d.id = c.id :=
      ⟨h.distinct _ _ (hslots.numbered d hd) (hslots.numbered c hc), fun heq => congrArg name heq⟩
    simp [hid]
  distinct := h.distinct
  numbered := h.numbered

/-- A slot goes to the first in line in both. -/
theorem releaseSlot (h : Mirrors own sent name b b') (hlt : ∀ c ∈ b.calls, c.id < b.nextCall)
    (hline : ∀ n ∈ b.line, n < b.nextCall) :
    Mirrors own sent name b.releaseSlot b'.releaseSlot := by
  have hline' := h.line
  cases hcase : b.line with
  | nil =>
      rw [hcase] at hline'
      simp only [Bus.releaseSlot, hcase, hline', List.map_nil]
      exact h
  | cons n line =>
      rw [hcase] at hline'
      simp only [Bus.releaseSlot, hcase, hline', List.map_cons]
      exact (h.setLine line).setPlace hlt (hline n (hcase ▸ List.mem_cons_self)) .granted

section Rename

variable {name' : Nat → Nat} {bound fresh : Nat} (h : Mirrors own sent name b b')
  (hold : ∀ n, n < bound → n ≠ fresh → n < b.nextCall ∧ name' n = name n)
  (hnew : name' fresh = b'.nextCall)

include h hold hnew

/-- A call that gets the next number is told from all that keep theirs. -/
theorem distinct_rename : ∀ m n, m < bound → n < bound → name' m = name' n → m = n := by
  intro m n hm hn heq
  by_cases hmf : m = fresh <;> by_cases hnf : n = fresh
  · rw [hmf, hnf]
  · obtain ⟨hlt, hname⟩ := hold n hn hnf
    rw [hmf, hnew, hname] at heq
    exact absurd heq.symm (Nat.ne_of_lt (h.numbered n hlt))
  · obtain ⟨hlt, hname⟩ := hold m hm hmf
    rw [hnf, hnew, hname] at heq
    exact absurd heq (Nat.ne_of_lt (h.numbered m hlt))
  · obtain ⟨hltm, hnamem⟩ := hold m hm hmf
    obtain ⟨hltn, hnamen⟩ := hold n hn hnf
    rw [hnamem, hnamen] at heq
    exact h.distinct m n hltm hltn heq

/-- Its number and theirs have been given out then. -/
theorem numbered_rename : ∀ n, n < bound → name' n < b'.nextCall + 1 := by
  intro n hn
  by_cases hnf : n = fresh
  · rw [hnf, hnew]
    exact Nat.lt_succ_self _
  · obtain ⟨hlt, hname⟩ := hold n hn hnf
    rw [hname]
    exact Nat.lt_succ_of_lt (h.numbered n hlt)

end Rename

/-- Another call begins in both. -/
theorem begun (h : Mirrors own sent name b b') (hlt : ∀ c ∈ b.calls, c.id < b.nextCall)
    (hline : ∀ n ∈ b.line, n < b.nextCall) (hown : own < b.nextCall) {name' : Nat → Nat}
    (hold : ∀ n, n < b.nextCall → name' n = name n) (hnew : name' b.nextCall = b'.nextCall)
    (ctx : Context) (messages : List Message) :
    Mirrors own sent name' (b.begun ctx messages) (b'.begun ctx messages) := by
  have hkeeps : ∀ n, n < b.nextCall + 1 → n ≠ b.nextCall → n < b.nextCall ∧ name' n = name n := by
    intro n hn hne
    have hlt : n < b.nextCall := by omega
    exact ⟨hlt, hold n hlt⟩
  refine ⟨?_, ?_, ?_, h.distinct_rename hkeeps hnew, h.numbered_rename hkeeps hnew⟩
  · conv_lhs => rw [h.same]
    rfl
  · change (b'.calls ++ [_]).Perm ((b.calls ++ [_]).map _)
    rw [List.map_append, List.map_singleton, Call.mirrored_other _ _ (Nat.ne_of_gt hown), hnew]
    refine (h.calls.trans (List.Perm.of_eq ?_)).append_right _
    exact List.map_congr_left fun c hc => (Call.mirrored_congr sent (hold c.id (hlt c hc))).symm
  · change b'.line = b.line.map name'
    rw [h.line]
    exact List.map_congr_left fun n hn => (hold n (hline n hn)).symm

/-- A call begins, in the other bus with the first of its messages alone. -/
theorem of_begun (h : b.Slots spare) (ctx : Context) (m : Message) (left : List Message) :
    Mirrors b.nextCall false id (b.begun ctx (m :: left)) (b.begun ctx [m]) where
  same := rfl
  calls := by
    have hself : Call.mirrored b.nextCall false id ⟨b.nextCall, ctx, m :: left, 0, .calling⟩ =
        ⟨b.nextCall, ctx, [m], 0, .calling⟩ := Call.mirrored_own _ _ rfl
    change (b.calls ++ [_]).Perm ((b.calls ++ [_]).map _)
    rw [List.map_append, List.map_singleton, hself]
    refine (List.Perm.of_eq ?_).append_right _
    conv_lhs => rw [← List.map_id b.calls]
    refine List.map_congr_left fun c hc => ?_
    rw [Call.mirrored_other _ _ (Nat.ne_of_lt (h.numbered c hc))]
    rfl
  line := (List.map_id _).symm
  distinct _ _ _ _ heq := heq
  numbered _ hn := hn

/-- A call for the next message begins in the place of one that is over.  In the first
bus there is only one call for them both. -/
theorem renew {m : Message} {left : List Message} (h : Mirrors own true name b b')
    (hslots : b.Slots spare) (hc : c ∈ b.calls) (hid : c.id = own) (hp : c.pending = m :: left)
    (hplace : c.place = .calling) {name' : Nat → Nat}
    (hold : ∀ n, n < b.nextCall → n ≠ own → name' n = name n) (hnew : name' own = b'.nextCall) :
    Mirrors own false name' b
      ((b'.dismiss (c.mirrored own true name)).begun c.ctx [m]) where
  same := by
    conv_lhs => rw [h.same]
    rfl
  calls := by
    subst hid
    have hself : c.mirrored c.id false name' = ⟨b'.nextCall, c.ctx, [m], 0, .calling⟩ := by
      rw [Call.mirrored_own _ _ rfl, hnew, Call.portion, hp, hplace]
      rfl
    have hothers : (b.calls.filter (·.id ≠ c.id)).map (Call.mirrored c.id true name) =
        (b.calls.filter (·.id ≠ c.id)).map (Call.mirrored c.id false name') := by
      refine List.map_congr_left fun d hd => ?_
      have hne : d.id ≠ c.id := by simpa using (List.mem_filter.mp hd).2
      have hlt := hslots.numbered d (List.mem_of_mem_filter hd)
      rw [Call.mirrored_other _ _ hne, Call.mirrored_other _ _ hne, hold d.id hlt hne]
    have hgone := (h.dismiss hslots hc).calls
    change List.Perm _ ((b.calls.filter (·.id ≠ c.id)).map (Call.mirrored c.id true name)) at hgone
    rw [hothers] at hgone
    have hall := (Keyed.perm_cons_others hslots.distinct hc).map (Call.mirrored c.id false name')
    rw [List.map_cons, hself] at hall
    exact ((hgone.append_right _).trans List.perm_append_comm).trans hall.symm
  line := by
    have hnot : own ∉ b.line := by
      intro hmem
      obtain ⟨d, hd, hdid, hwait⟩ := (hslots.mem_line own).mp hmem
      rw [hslots.eq_of_id hd hc (hdid.trans hid.symm), hplace] at hwait
      cases hwait
    have hline : b.line.filter (· ≠ c.id) = b.line :=
      List.filter_eq_self.mpr fun n hn => by
        simp only [hid, decide_eq_true_eq]
        exact fun heq => hnot (heq ▸ hn)
    have hgone := (h.dismiss hslots hc).line
    change _ = (b.line.filter _).map name at hgone
    rw [hline] at hgone
    refine hgone.trans (List.map_congr_left fun n hn => ?_)
    obtain ⟨d, hd, rfl, -⟩ := (hslots.mem_line n).mp hn
    exact (hold d.id (hslots.numbered d hd) fun heq => hnot (heq ▸ hn)).symm
  distinct := h.distinct_rename (fun n hn hne => ⟨hn, hold n hn hne⟩) hnew
  numbered := h.numbered_rename (fun n hn hne => ⟨hn, hold n hn hne⟩) hnew

/-- A message is taken off in both. -/
theorem take (h : Mirrors own sent name b b') (hslots : b.Slots spare) (m : Message)
    (queue : List Message) : Mirrors own sent name (b.take m queue).1 (b'.take m queue).1 := by
  have hslot : Mirrors own sent name ({ b with queue } : Bus).releaseSlot
      ({ b' with queue } : Bus).releaseSlot :=
    (h.setQueue queue).releaseSlot hslots.numbered hslots.line_numbered
  have hlisteners : ({ b' with queue } : Bus).releaseSlot.listeners =
      ({ b with queue } : Bus).releaseSlot.listeners := by
    rw [releaseSlot_listeners, releaseSlot_listeners]
    exact congrArg (·.listeners) h.same
  cases hl : ({ b with queue } : Bus).releaseSlot.listeners.filter (·.stream == m.stream) with
  | nil =>
      simp only [Bus.take, hlisteners, hl]
      exact hslot
  | cons task rest =>
      have htaken := hslot.setDispatcher (.placing m task rest .asking)
      simpa only [Bus.take, hlisteners, hl] using htaken

/-- The dispatcher takes its step in both. -/
theorem stepDispatcher (h : Mirrors own sent name b b') (hslots : b.Slots spare) (a : Ambient) :
    Mirrors own sent name (b.stepDispatcher a).1 (b'.stepDispatcher a).1 ∧
      (b'.stepDispatcher a).2.1 = (b.stepDispatcher a).2.1 := by
  have hd' := h.dispatcher_eq
  cases hd : b.dispatcher with
  | receiving =>
      rw [hd] at hd'
      have hq' := h.queue_eq
      cases hq : b.queue with
      | nil =>
          rw [hq] at hq'
          have hclosed' := h.isClosed_eq
          cases hclosed : b.isClosed with
          | false =>
              rw [hclosed] at hclosed'
              have hstep : b.stepDispatcher a = (b, a.tokens, []) := by
                simp [Bus.stepDispatcher, hd, hq, hclosed]
              have hstep' : b'.stepDispatcher a = (b', a.tokens, []) := by
                simp [Bus.stepDispatcher, hd', hq', hclosed']
              rw [hstep, hstep']
              exact ⟨h, rfl⟩
          | true =>
              rw [hclosed] at hclosed'
              have hreturned := h.unseen
                (f := fun b => { b with dispatcher := .returned, receiverOpen := false })
                fun _ _ _ _ => rfl
              simpa [Bus.stepDispatcher, hd, hd', hq, hq', hclosed, hclosed'] using hreturned
      | cons m queue =>
          rw [hq] at hq'
          simpa [Bus.stepDispatcher, hd, hd', hq, hq'] using h.take hslots m queue
  | placing m task rest turn =>
      rw [hd] at hd'
      cases turn with
      | waiting => simpa [Bus.stepDispatcher, hd, hd'] using h
      | holding =>
          obtain ⟨hspawn, hseen⟩ := h.blind (blind_spawn a m task rest)
          simpa [Bus.stepDispatcher, hd, hd', hseen] using hspawn
      | asking =>
          have hpermits := h.permits_eq
          by_cases hfree : 0 < b.permits
          · have hlent := h.unseen (f := fun b => { b with permits := b.permits - 1 })
              fun _ _ _ _ => rfl
            obtain ⟨hspawn, hseen⟩ := hlent.blind (blind_spawn a m task rest)
            have hstep : b.stepDispatcher a =
                { b with permits := b.permits - 1 }.spawn a m task rest := by
              simp [Bus.stepDispatcher, hd, hfree]
            have hstep' : b'.stepDispatcher a =
                { b' with permits := b'.permits - 1 }.spawn a m task rest := by
              simp [Bus.stepDispatcher, hd', hpermits, hfree]
            rw [hstep, hstep']
            exact ⟨hspawn, congrArg Prod.fst hseen⟩
          · have hstep : b.stepDispatcher a =
                ({ b with dispatcher := .placing m task rest .waiting }, a.tokens, []) := by
              simp [Bus.stepDispatcher, hd, hfree]
            have hstep' : b'.stepDispatcher a =
                ({ b' with dispatcher := .placing m task rest .waiting }, a.tokens, []) := by
              simp [Bus.stepDispatcher, hd', hpermits, hfree]
            rw [hstep, hstep']
            exact ⟨h.setDispatcher _, rfl⟩
  | _ =>
      rw [hd] at hd'
      simpa [Bus.stepDispatcher, hd, hd'] using h

/-- Another call puts its message on the queue in both. -/
theorem push_other (h : Mirrors own sent name b b') (hslots : b.Slots spare) (hc : c ∈ b.calls)
    (hne : c.id ≠ own) (m : Message) (pending : List Message) :
    Mirrors own sent name (b.push c m pending).1
      (b'.push (c.mirrored own sent name) m pending).1 := by
  have hqueue := h.unseen (f := fun b => { b with queue := b.queue ++ [m] }) fun _ _ _ _ => rfl
  refine hqueue.updateCall hslots.numbered (hslots.numbered c hc) (fun d _ hd => ?_)
    fun _ _ _ => rfl
  have hother : d.id ≠ own := hd ▸ hne
  simp only [Call.mirrored, if_neg hother]

/-- The call that has one message in the other bus puts that on the queue. -/
theorem push_own (h : Mirrors own false name b b') (hslots : b.Slots spare) (hc : c ∈ b.calls)
    (hid : c.id = own) (m : Message) (pending : List Message) :
    Mirrors own true name (b.push c m pending).1
      (b'.push (c.mirrored own false name) m []).1 := by
  have hqueue := h.unseen (f := fun b => { b with queue := b.queue ++ [m] }) fun _ _ _ _ => rfl
  refine hqueue.updateCall hslots.numbered (hslots.numbered c hc) (fun d _ hd => ?_)
    fun d _ hd => ?_
  · have hown : d.id = own := hd.trans hid
    simp only [Call.mirrored, if_pos hown]
    rfl
  · have hother : d.id ≠ own := fun hown => hd (hown.trans hid.symm)
    rw [Call.mirrored_other _ _ hother, Call.mirrored_other _ _ hother]

end Mirrors

/-- What a step of the same call is in both, `c` in the first and `d` in the second:
it puts nothing on the queue and goes on, or it gives up for the same reason,
or it puts the same message on the queue. -/
inductive Paired (own : Nat) (sent : Bool) (name : Nat → Nat) (b b' : Bus) (c d : Call) :
    Bus × List BusEvent → Bus × List BusEvent → Prop
  | waits {next next' : Bus} (h : Mirrors own sent name next next') :
      Paired own sent name b b' c d (next, []) (next', [])
  | fails {next next' : Bus} {e : Error} (h : Mirrors own sent name next next') :
      Paired own sent name b b' c d (next, [.answered c.id (.error e)])
        (next', [.answered d.id (.error e)])
  | pushes {m : Message} {pending pending' : List Message} (hp : c.pending = m :: pending)
      (hp' : d.pending = m :: pending') :
      Paired own sent name b b' c d (b.push c m pending) (b'.push d m pending')

namespace Mirrors

/-- A call that gives up does so in both. -/
theorem answer_paired (h : Mirrors own sent name b b') (hslots : b.Slots spare) (hc : c ∈ b.calls)
    (e : Error) :
    Paired own sent name b b' c (c.mirrored own sent name) (b.answer c (.error e))
      (b'.answer (c.mirrored own sent name) (.error e)) :=
  .fails (h.dismiss hslots hc)

/-- So does one for which a slot is set aside. -/
theorem forfeit_paired (h : Mirrors own sent name b b') (hslots : b.Slots 0) (hc : c ∈ b.calls)
    (e : Error) :
    Paired own sent name b b' c (c.mirrored own sent name) (b.forfeit c (.error e))
      (b'.forfeit (c.mirrored own sent name) (.error e)) := by
  have hgone := h.dismiss hslots hc
  have hslots := hslots.dismiss hc
  have hrecv : (b'.dismiss (c.mirrored own sent name)).receiverOpen = b.receiverOpen :=
    h.receiverOpen_eq
  refine .fails ?_
  change Mirrors own sent name
    (if b.receiverOpen = true then (b.dismiss c).releaseSlot else b.dismiss c)
    (if (b'.dismiss (c.mirrored own sent name)).receiverOpen = true then
      (b'.dismiss (c.mirrored own sent name)).releaseSlot
      else b'.dismiss (c.mirrored own sent name))
  rw [hrecv]
  split
  · exact hgone.releaseSlot hslots.numbered hslots.line_numbered
  · exact hgone

/-- A call that finds no free slot takes its place in line in both. -/
theorem queueUp (h : Mirrors own sent name b b') (hslots : b.Slots spare) (hc : c ∈ b.calls) :
    Mirrors own sent name (b.queueUp c).1 (b'.queueUp (c.mirrored own sent name)).1 := by
  have hline := h.setLine (b.line ++ [c.id])
  rw [List.map_append, List.map_singleton, ← h.line] at hline
  exact hline.setPlace hslots.numbered (hslots.numbered c hc) .waiting

/-- A call that has something left to write takes the same step in both. -/
theorem stepCall_paired (h : Mirrors own sent name b b') (hslots : b.Slots 0) (hc : c ∈ b.calls)
    {m : Message} {pending pending' : List Message} (hp : c.pending = m :: pending)
    (hp' : (c.mirrored own sent name).pending = m :: pending') (a : Ambient) :
    Paired own sent name b b' c (c.mirrored own sent name) (b.stepCall a c)
      (b'.stepCall a (c.mirrored own sent name)) := by
  have hctx : (c.mirrored own sent name).ctx = c.ctx := Call.mirrored_ctx own sent name c
  have hplace' : (c.mirrored own sent name).place = c.place := Call.mirrored_place own sent name c
  have hrecv' := h.receiverOpen_eq
  generalize hd : c.mirrored own sent name = d at hp' hctx hplace' ⊢
  cases herr : a.err c.ctx with
  | some e =>
      cases hplace : c.place with
      | granted =>
          have hforfeit := h.forfeit_paired hslots hc e
          rw [hd] at hforfeit
          simpa only [stepCall, hp, hp', hctx, hplace', hplace, herr] using hforfeit
      | _ =>
          have hanswer := h.answer_paired hslots hc e
          rw [hd] at hanswer
          simpa only [stepCall, hp, hp', hctx, hplace', hplace, herr] using hanswer
  | none =>
      cases hrecv : b.receiverOpen with
      | false =>
          rw [hrecv] at hrecv'
          have hanswer := h.answer_paired hslots hc .busClosed
          rw [hd] at hanswer
          cases hplace : c.place <;>
            simpa [stepCall, hp, hp', hctx, hplace', hplace, herr, hrecv, hrecv'] using hanswer
      | true =>
          rw [hrecv] at hrecv'
          cases hplace : c.place with
          | granted =>
              have hpush : Paired own sent name b b' c d _ _ := .pushes hp hp'
              simpa [stepCall, hp, hp', hctx, hplace', hplace, herr, hrecv, hrecv'] using hpush
          | calling =>
              by_cases hslot : 0 < b.freeSlots
              · have hpush : Paired own sent name b b' c d _ _ := .pushes hp hp'
                simpa [stepCall, hp, hp', hctx, hplace', hplace, herr, hrecv, hrecv',
                  h.freeSlots_eq, hslot] using hpush
              · have hqueue := h.queueUp hslots hc
                rw [hd] at hqueue
                have hwait : Paired own sent name b b' c d (b.queueUp c) (b'.queueUp d) :=
                  .waits hqueue
                simpa [stepCall, hp, hp', hctx, hplace', hplace, herr, hrecv, hrecv',
                  h.freeSlots_eq, hslot] using hwait
          | waiting =>
              have hwait : Paired own sent name b b' c d (b, []) (b', []) := .waits h
              simpa [stepCall, hp, hp', hctx, hplace', hplace, herr, hrecv, hrecv'] using hwait

/-- Another call takes its step in both. -/
theorem stepCall_other (h : Mirrors own sent name b b') (hslots : b.Slots 0) (hc : c ∈ b.calls)
    (hne : c.id ≠ own) (a : Ambient) :
    Mirrors own sent name (b.stepCall a c).1
      (b'.stepCall a (c.mirrored own sent name)).1 := by
  have hpending : (c.mirrored own sent name).pending = c.pending := by
    rw [Call.mirrored_other _ _ hne]
  cases hp : c.pending with
  | nil =>
      rw [hp] at hpending
      simp only [stepCall, hp, hpending]
      exact h.dismiss hslots hc
  | cons m pending =>
      rw [hp] at hpending
      have hpaired := h.stepCall_paired hslots hc hp hpending a
      generalize b.stepCall a c = step, b'.stepCall a (c.mirrored own sent name) = step' at hpaired
      cases hpaired with
      | waits hnext => exact hnext
      | fails hnext => exact hnext
      | pushes hp₁ hp₂ =>
          rw [hp₁] at hp
          rw [hp₂] at hpending
          cases hp
          cases hpending
          exact h.push_other hslots hc hne _ _

end Mirrors
end Bus
end PubSub
