import PubSub.Proofs.Bus.Change
import PubSub.Proofs.Keyed

/-!
# Slots of the queue

A slot of the queue is filled, set aside for a call, or free.  A call
stands in line only while no slot is free, and whoever empties a slot or
gives one back hands it to the first in line, so a slot is never idle
while a call waits for it.

* `Bus.Slots` — the invariant, for a bus with some slots to spare;
* `Slots.releaseSlot` — handing out the spare slot;
* `Slots.change` — every change keeps the invariant.
-/

namespace PubSub.Bus

/-- The number of calls for which a slot is set aside. -/
def granted (b : Bus) : Nat := (b.calls.filter (·.place == .granted)).length

/-- Calls have distinct numbers, the line holds just the waiting ones, and
slots are accounted for.  `spare` slots have been given back and not yet
handed on; as long as somebody takes messages off, a line means that all
the others are filled or set aside. -/
structure Slots (b : Bus) (spare : Nat) : Prop where
  distinct : (b.calls.map (·.id)).Nodup
  numbered : ∀ c ∈ b.calls, c.id < b.nextCall
  idle : ∀ c ∈ b.calls, c.pending = [] → c.place = .calling
  line_nodup : b.line.Nodup
  mem_line : ∀ id, id ∈ b.line ↔ ∃ c ∈ b.calls, c.id = id ∧ c.place = .waiting
  bounded : b.queue.length + b.granted + spare ≤ b.config.queueCapacity
  full : b.receiverOpen = true → b.line ≠ [] →
    b.queue.length + b.granted + spare = b.config.queueCapacity

/-- One for a call with a slot of its own. -/
def Call.slots (c : Call) : Nat := if c.place = .granted then 1 else 0

/-- The granted calls of a list that is one call and the others. -/
theorem granted_of_perm {calls others : List Call} {c : Call}
    (hperm : calls.Perm (c :: others)) :
    (calls.filter (·.place == .granted)).length =
      Call.slots c + (others.filter (·.place == .granted)).length := by
  rw [(hperm.filter _).length_eq, List.filter_cons, Call.slots]
  by_cases hplace : c.place = .granted
  · simp [hplace, Nat.add_comm]
  · simp [hplace]

variable {a : Ambient} {b b' : Bus} {spare : Nat} {events : List BusEvent}

/-- A call that is over gives up what it has. -/
theorem granted_dismiss (h : b.Slots spare) {c : Call} (hc : c ∈ b.calls) :
    b.granted = Call.slots c + (b.dismiss c).granted :=
  granted_of_perm (Keyed.perm_cons_others h.distinct hc)

/-- A change to a call matters for that call's own slot only. -/
theorem granted_updateCall (h : b.Slots spare) {c : Call} (hc : c ∈ b.calls)
    (f : Call → Call) :
    (b.updateCall c.id f).granted + Call.slots c = b.granted + Call.slots (f c) := by
  have hnew := granted_of_perm (Keyed.map_update_perm f h.distinct hc)
  have hold := granted_of_perm (Keyed.perm_cons_others h.distinct hc)
  unfold granted
  change (List.filter _ (b.calls.map _)).length + _ = _
  omega

namespace Slots

/-- Calls of the same number are the same. -/
theorem eq_of_id (h : b.Slots spare) {c d : Call} (hc : c ∈ b.calls) (hd : d ∈ b.calls)
    (hid : c.id = d.id) : c = d :=
  List.inj_on_of_nodup_map h.distinct hc hd hid

/-- The invariant looks at the calls and the queue only. -/
theorem of_same (h : b.Slots spare) (hcalls : b'.calls = b.calls) (hline : b'.line = b.line)
    (hnext : b'.nextCall = b.nextCall) (hqueue : b'.queue = b.queue)
    (hconfig : b'.config = b.config) (hrecv : b'.receiverOpen = b.receiverOpen) :
    b'.Slots spare := by
  obtain ⟨h1, h2, h3, h4, h5, h6, h7⟩ := h
  unfold granted at h6 h7
  rw [← hcalls] at h1 h2 h3 h5 h6 h7
  rw [← hline] at h4 h5 h7
  rw [← hnext] at h2
  rw [← hqueue, ← hconfig] at h6 h7
  rw [← hrecv] at h7
  exact ⟨h1, h2, h3, h4, h5, h6, h7⟩

/-- A call that is over leaves its slot to spare. -/
theorem dismiss (h : b.Slots 0) {c : Call} (hc : c ∈ b.calls) :
    (b.dismiss c).Slots (Call.slots c) := by
  have hslots := granted_dismiss h hc
  refine ⟨?_, ?_, ?_, ?_, ?_, ?_, ?_⟩
  · exact h.distinct.sublist (List.filter_sublist.map _)
  · exact fun d hd => h.numbered d (List.mem_of_mem_filter hd)
  · exact fun d hd => h.idle d (List.mem_of_mem_filter hd)
  · exact h.line_nodup.filter _
  · intro id
    simp only [Bus.dismiss, List.mem_filter, h.mem_line]
    grind
  · have := h.bounded
    simp only [Bus.dismiss] at hslots ⊢
    omega
  · intro hrecv hline
    have hne : b.line ≠ [] := by
      intro hnil
      simp [Bus.dismiss, hnil] at hline
    have := h.full hrecv hne
    simp only [Bus.dismiss] at hslots ⊢
    omega

/-- Taking a message off leaves its slot to spare. -/
theorem pop (h : b.Slots 0) {m : Message} {queue : List Message} (hq : b.queue = m :: queue) :
    ({ b with queue } : Bus).Slots 1 := by
  obtain ⟨h1, h2, h3, h4, h5, h6, h7⟩ := h
  simp only [hq, List.length_cons] at h6 h7
  refine ⟨h1, h2, h3, h4, h5, ?_, ?_⟩
  · change queue.length + b.granted + 1 ≤ b.config.queueCapacity
    omega
  · intro hrecv hne
    have := h7 hrecv hne
    change queue.length + b.granted + 1 = b.config.queueCapacity
    omega

/-- Once nobody takes messages off, spare slots do not matter. -/
theorem forget (h : b.Slots spare) (hrecv : b.receiverOpen = false) : b.Slots 0 := by
  obtain ⟨h1, h2, h3, h4, h5, h6, h7⟩ := h
  exact ⟨h1, h2, h3, h4, h5, by omega, by simp [hrecv]⟩

/-- One call changes, and the line and the queue with it. -/
theorem update (h : b.Slots spare) {c : Call} (hc : c ∈ b.calls) {f : Call → Call}
    (line : List Nat) (queue : List Message) {spare' : Nat} (hid : (f c).id = c.id)
    (hidle : (f c).pending = [] → (f c).place = .calling) (hnd : line.Nodup)
    (hline : ∀ id, id ∈ line ↔
      id ≠ c.id ∧ id ∈ b.line ∨ id = c.id ∧ (f c).place = .waiting)
    (hbound : queue.length + b.granted + Call.slots (f c) + spare' ≤
      b.config.queueCapacity + Call.slots c)
    (hfull : b.receiverOpen = true → line ≠ [] →
      queue.length + b.granted + Call.slots (f c) + spare' =
        b.config.queueCapacity + Call.slots c) :
    ({ b with line, queue }.updateCall c.id f).Slots spare' := by
  have hslots := granted_updateCall h hc f
  have hcalls : ∀ d, d ∈ ({ b with line, queue }.updateCall c.id f).calls ↔
      d ∈ b.calls ∧ d.id ≠ c.id ∨ d = f c := by
    intro d
    refine (Keyed.map_update_perm f h.distinct hc).mem_iff.trans ?_
    simp [or_comm]
  refine ⟨?_, ?_, ?_, hnd, ?_, ?_, ?_⟩
  · exact Keyed.map_update_nodup h.distinct hc hid
  · intro d hd
    rcases (hcalls d).mp hd with ⟨hd, -⟩ | rfl
    · exact h.numbered d hd
    · exact hid ▸ h.numbered c hc
  · intro d hd hp
    rcases (hcalls d).mp hd with ⟨hd, -⟩ | rfl
    · exact h.idle d hd hp
    · exact hidle hp
  · intro id
    change id ∈ line ↔ _
    rw [hline id]
    constructor
    · rintro (⟨hne, hmem⟩ | ⟨rfl, hwait⟩)
      · obtain ⟨d, hd, rfl, hplace⟩ := (h.mem_line id).mp hmem
        exact ⟨d, (hcalls d).mpr (.inl ⟨hd, hne⟩), rfl, hplace⟩
      · exact ⟨f c, (hcalls _).mpr (.inr rfl), hid, hwait⟩
    · rintro ⟨d, hd, rfl, hplace⟩
      rcases (hcalls d).mp hd with ⟨hd, hne⟩ | rfl
      · exact .inl ⟨hne, (h.mem_line d.id).mpr ⟨d, hd, rfl, hplace⟩⟩
      · exact .inr ⟨hid, hplace⟩
  · change queue.length + (b.updateCall c.id f).granted + spare' ≤ b.config.queueCapacity
    omega
  · intro hrecv hne
    have := hfull hrecv hne
    change queue.length + (b.updateCall c.id f).granted + spare' = b.config.queueCapacity
    omega

/-- The spare slot goes to the first in line. -/
theorem releaseSlot (h : b.Slots 1) : b.releaseSlot.Slots 0 := by
  cases hline : b.line with
  | nil =>
      have hsame : b.releaseSlot = b := by simp [Bus.releaseSlot, hline]
      rw [hsame]
      have hbound := h.bounded
      exact ⟨h.distinct, h.numbered, h.idle, h.line_nodup, h.mem_line, by omega,
        fun _ hne => absurd hline hne⟩
  | cons id rest =>
      obtain ⟨c, hc, rfl, hplace⟩ := (h.mem_line id).mp (hline ▸ List.mem_cons_self)
      have hnd := List.nodup_cons.mp (hline ▸ h.line_nodup)
      have hstep : b.releaseSlot =
          { b with line := rest }.updateCall c.id fun d => { d with place := .granted } := by
        simp [Bus.releaseSlot, hline]
      have hbound := h.bounded
      have hpending : c.pending ≠ [] := by
        intro hnil
        simp [h.idle c hc hnil] at hplace
      rw [hstep]
      refine h.update hc rest b.queue rfl (fun hnil => absurd hnil hpending) hnd.2 ?_ ?_ ?_
      · grind
      · simp only [Call.slots, hplace]
        simpa using hbound
      · intro hrecv _
        have := h.full hrecv (by simp [hline])
        simp only [Call.slots, hplace]
        simpa using this

/-- A call puts a message on the queue, in its own slot or in a free one. -/
theorem push (h : b.Slots 0) {c : Call} {m : Message} {pending : List Message}
    (hc : c ∈ b.calls) (hslot : c.place = .granted ∨ c.place = .calling ∧ 0 < b.freeSlots) :
    ({ b with queue := b.queue ++ [m] }.updateCall c.id fun c =>
      { c with pending, written := c.written + 1, place := .calling }).Slots 0 := by
  have hbound := h.bounded
  have hfull := h.full
  have hnot : c.id ∉ b.line := by
    intro hmem
    obtain ⟨d, hd, hid, hplace⟩ := (h.mem_line c.id).mp hmem
    rw [h.eq_of_id hd hc hid] at hplace
    rcases hslot with hg | ⟨hg, -⟩ <;> simp [hg] at hplace
  refine h.update hc b.line _ rfl (fun _ => rfl) h.line_nodup ?_ ?_ ?_
  · grind
  · rcases hslot with hg | ⟨hg, hfree⟩
    · simp only [Call.slots, hg]
      simp
      omega
    · unfold freeSlots at hfree
      unfold granted at hbound ⊢
      simp only [Call.slots, hg]
      simp
      omega
  · intro hrecv hne
    have hfull := hfull hrecv hne
    rcases hslot with hg | ⟨hg, hfree⟩
    · simp only [Call.slots, hg]
      simp
      omega
    · unfold freeSlots at hfree
      unfold granted at hfull
      omega

/-- A call that finds no free slot takes its place in line. -/
theorem queueUp (h : b.Slots 0) {c : Call} (hc : c ∈ b.calls) (hp : c.pending ≠ [])
    (hplace : c.place = .calling) (hslot : b.freeSlots = 0) :
    ({ b with line := b.line ++ [c.id] }.updateCall c.id fun c =>
      { c with place := .waiting }).Slots 0 := by
  have hbound := h.bounded
  have hnot : c.id ∉ b.line := by
    intro hmem
    obtain ⟨d, hd, hid, hwait⟩ := (h.mem_line c.id).mp hmem
    rw [h.eq_of_id hd hc hid, hplace] at hwait
    cases hwait
  refine h.update hc _ b.queue rfl (fun hnil => absurd hnil hp) ?_ ?_ ?_ ?_
  · exact List.nodup_append.mpr ⟨h.line_nodup, by simp, by grind⟩
  · grind
  · simp only [Call.slots, hplace]
    simpa using hbound
  · intro _ _
    unfold freeSlots at hslot
    unfold granted at hbound ⊢
    simp only [Call.slots, hplace]
    simp
    omega

/-- Every change keeps the slots accounted for. -/
theorem change (h : b.Slots 0) (hchange : Change a b events b') : b'.Slots 0 := by
  cases hchange with
  | called ctx messages hstart hopen =>
      refine ⟨?_, ?_, ?_, h.line_nodup, ?_, ?_, ?_⟩
      · exact Keyed.nodup_concat h.distinct h.numbered rfl
      · exact Keyed.lt_concat h.numbered rfl
      · intro c hc hp
        rcases List.mem_append.mp hc with hc | hc
        · exact h.idle c hc hp
        · rw [List.mem_singleton.mp hc]
      · intro id
        simp [h.mem_line]
      · simpa [granted] using h.bounded
      · simpa [granted] using h.full
  | completed hc hp =>
      have := h.dismiss hc
      rwa [Call.slots, h.idle _ hc hp] at this
  | gaveUp hc hp hplace herr =>
      have := h.dismiss hc
      rwa [Call.slots, if_neg hplace] at this
  | forfeited hc hp hplace herr =>
      have hone := h.dismiss hc
      rw [Call.slots, if_pos hplace] at hone
      cases hrecv : b.receiverOpen with
      | true => exact hone.releaseSlot
      | false => exact hone.forget hrecv
  | refused hc hp herr hrecv => exact (h.dismiss hc).forget hrecv
  | pushed hc hp herr hrecv hslot => exact h.push hc hslot
  | queued hc hp herr hrecv hplace hslot => exact h.queueUp hc hp hplace hslot
  | unheard hd hq hl => exact (h.pop hq).releaseSlot
  | taken hd hq hl => exact (h.pop hq).releaseSlot.of_same rfl rfl rfl rfl rfl rfl
  | returned hd hq hclosed =>
      exact ⟨h.distinct, h.numbered, h.idle, h.line_nodup, h.mem_line, h.bounded, by simp⟩
  | aborted hlend hroot hctx =>
      obtain ⟨_, _, _, hframe⟩ := releasePermit_frame _
      rw [abort, hframe]
      have hbound := h.bounded
      refine ⟨h.distinct, h.numbered, h.idle, h.line_nodup, h.mem_line, ?_, by simp⟩
      change 0 + b.granted + 0 ≤ b.config.queueCapacity
      omega
  | finished hi ending hend =>
      obtain ⟨_, _, _, hframe⟩ := releasePermit_frame _
      rw [hframe]
      exact h.of_same rfl rfl rfl rfl rfl rfl
  | _ => exact h.of_same rfl rfl rfl rfl rfl rfl

end Slots

end PubSub.Bus
