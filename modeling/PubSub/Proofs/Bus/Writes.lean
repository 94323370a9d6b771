import PubSub.Proofs.Bus.Survival

/-!
# What becomes of a write call

A call puts its messages on the queue one after the other, and then returns
their number, or it gives up before that and returns why.  It gives up
when its own context has ended, whatever place it has then, and for no
other reason as long as the dispatcher does not break down.

* `Bus.answersOf`, `Bus.pushesOf` — what is seen of a call;
* `Bus.Handling`, `Bus.Change.handling` — what a change does to a call;
* `Bus.Fate`, `System.run_fate` — how far a call has come;
* `System.apply_call_ended`, `System.apply_call_done` — its next step when
  its context has ended, or its messages are all on the queue;
* `System.WriteLaw` — what is known of a write of a single message.
-/

namespace PubSub

namespace BusEvent

/-- What a call returns, if it does. -/
def answerOf? (id : Nat) : BusEvent → Option (Except Error Nat)
  | .answered call result => if call = id then some result else none
  | _ => none

/-- The message that a call puts on the queue, if it does. -/
def pushOf? (id : Nat) : BusEvent → Option Message
  | .accepted call m => if call = id then some m else none
  | _ => none

end BusEvent

/-- What a call is about, whatever its place. -/
structure Account where
  ctx : Context
  pending : List Message
  written : Nat

/-- What a call is about. -/
def Call.account (c : Call) : Account := ⟨c.ctx, c.pending, c.written⟩

namespace Bus

/-- What a call returns: nothing yet, or one result. -/
def answersOf (id : Nat) (events : List BusEvent) : List (Except Error Nat) :=
  events.filterMap (BusEvent.answerOf? id)

/-- The messages that a call puts on the queue, in order. -/
def pushesOf (id : Nat) (events : List BusEvent) : List Message :=
  events.filterMap (BusEvent.pushOf? id)

/-- What the call of a number is about, if it is not over. -/
def account? (b : Bus) (id : Nat) : Option Account := (b.call? id).map Call.account

/-- The bus without a call that gives up; a slot that was set aside for it
goes to the next in line. -/
def withdraw (b : Bus) (c : Call) : Bus :=
  if c.place = .granted ∧ b.receiverOpen = true then (b.dismiss c).releaseSlot else b.dismiss c

section Seen

variable (id : Nat) (events new : List BusEvent)

@[simp] theorem answersOf_append :
    answersOf id (events ++ new) = answersOf id events ++ answersOf id new :=
  List.filterMap_append

@[simp] theorem pushesOf_append :
    pushesOf id (events ++ new) = pushesOf id events ++ pushesOf id new :=
  List.filterMap_append

@[simp] theorem answersOf_answered (result : Except Error Nat) :
    answersOf id [.answered id result] = [result] := by
  simp [answersOf, BusEvent.answerOf?]

@[simp] theorem answersOf_accepted (call : Nat) (m : Message) :
    answersOf id [.accepted call m] = [] := rfl

@[simp] theorem pushesOf_accepted (m : Message) : pushesOf id [.accepted id m] = [m] := by
  simp [pushesOf, BusEvent.pushOf?]

@[simp] theorem pushesOf_answered (call : Nat) (result : Except Error Nat) :
    pushesOf id [.answered call result] = [] := rfl

/-- What a call is seen to return. -/
theorem mem_answersOf {result : Except Error Nat} :
    result ∈ answersOf id events ↔ .answered id result ∈ events := by
  rw [answersOf, List.mem_filterMap]
  constructor
  · rintro ⟨event, hmem, hevent⟩
    cases event with
    | answered call result' =>
        obtain ⟨rfl, heq⟩ := Option.ite_none_right_eq_some.mp hevent
        cases heq
        exact hmem
    | _ => cases hevent
  · exact fun hmem => ⟨_, hmem, if_pos rfl⟩

/-- What is returned by one call is not returned by another. -/
theorem answersOf_other {call : Nat} (hne : call ≠ id) (result : Except Error Nat) :
    answersOf id [.answered call result] = [] := by
  simp [answersOf, BusEvent.answerOf?, hne]

/-- What is written by one call is not written by another. -/
theorem pushesOf_other {call : Nat} (hne : call ≠ id) (m : Message) :
    pushesOf id [.accepted call m] = [] := by
  simp [pushesOf, BusEvent.pushOf?, hne]

/-- The end of an invocation says nothing of calls. -/
theorem ending_apart (i : Invocation) (ending : Ending) :
    answersOf id (endingEvents i ending) = [] ∧ pushesOf id (endingEvents i ending) = [] := by
  obtain ⟨logs, hlogs⟩ := endingEvents_logs i ending
  rw [hlogs]
  simp [answersOf, pushesOf, BusEvent.answerOf?, BusEvent.pushOf?]

/-- Neither does the end of the dispatcher. -/
theorem join_apart (b : Bus) :
    answersOf id b.joinEvents = [] ∧ pushesOf id b.joinEvents = [] := by
  unfold joinEvents
  split <;> exact ⟨rfl, rfl⟩

end Seen

section Lookup

variable {a : Ambient} {b b' : Bus} {id : Nat}

/-- A call is found under its number. -/
theorem Slots.call?_eq {spare : Nat} (h : b.Slots spare) {c : Call} (hc : c ∈ b.calls) :
    b.call? c.id = some c :=
  Keyed.find?_of_mem h.distinct hc

/-- A call that is found is one of the bus. -/
theorem call?_some {c : Call} (h : b.call? id = some c) : c ∈ b.calls ∧ c.id = id :=
  ⟨List.mem_of_find?_eq_some h, by simpa using List.find?_some h⟩

/-- Looking a call up after a change to one. -/
theorem call?_updateCall (b : Bus) (changed id : Nat) {f : Call → Call}
    (hid : ∀ c, (f c).id = c.id) :
    (b.updateCall changed f).call? id =
      (b.call? id).map fun c => if c.id = changed then f c else c := by
  simp only [call?, updateCall, List.find?_map]
  congr 2
  funext c
  simp only [Function.comp_apply]
  split <;> simp [hid]

/-- What the changed call is about. -/
theorem account?_update_self {c : Call} {f : Call → Call} (hc : b.call? c.id = some c)
    (hid : ∀ c, (f c).id = c.id) : (b.updateCall c.id f).account? c.id = some (f c).account := by
  rw [account?, call?_updateCall b c.id c.id hid, hc]
  simp

/-- A change that does not concern what a call is about. -/
theorem account?_updateCall (b : Bus) (changed id : Nat) {f : Call → Call}
    (hid : ∀ c, (f c).id = c.id) (hf : changed ≠ id ∨ ∀ c, (f c).account = c.account) :
    (b.updateCall changed f).account? id = b.account? id := by
  rw [account?, call?_updateCall b changed id hid, Option.map_map, account?]
  cases hc : b.call? id with
  | none => rfl
  | some c =>
      simp only [Option.map_some, Function.comp_apply]
      split
      · rename_i heq
        rcases hf with hne | hf
        · exact absurd ((call?_some hc).2 ▸ heq.symm) hne
        · rw [hf]
      · rfl

/-- A slot that is handed out does not change what calls are about. -/
@[simp] theorem account?_releaseSlot (b : Bus) (id : Nat) :
    b.releaseSlot.account? id = b.account? id := by
  unfold releaseSlot
  split
  · rfl
  · exact account?_updateCall _ _ _ (fun _ => rfl) (.inr fun _ => rfl)

/-- A call that is over is not found any more, and all others are. -/
theorem call?_dismiss (b : Bus) (c : Call) (id : Nat) :
    (b.dismiss c).call? id = if c.id = id then none else b.call? id := by
  simp only [call?, dismiss, List.find?_filter]
  split
  · rename_i heq
    rw [List.find?_eq_none]
    intro d _
    simp [heq]
  · rename_i hne
    congr 1
    funext d
    by_cases hd : d.id = id
    · simp [hd, Ne.symm hne]
    · simp [hd]

end Lookup

variable {a : Ambient} {b b' : Bus} {events new : List BusEvent} {id : Nat}

/-- What a change does to a call, with what is seen of it: nothing, or it
puts its next message on the queue, or it returns. -/
inductive Handling (id : Nat) (a : Ambient) (b : Bus) : List BusEvent → Bus → Prop
  | apart {events : List BusEvent} {b' : Bus} (hanswers : answersOf id events = [])
      (hpushes : pushesOf id events = []) (haccount : b'.account? id = b.account? id) :
      Handling id a b events b'
  | pushed {b' : Bus} {ctx : Context} {m : Message} {pending : List Message} {written : Nat}
      (hb : b.account? id = some ⟨ctx, m :: pending, written⟩) (herr : a.err ctx = none)
      (haccount : b'.account? id = some ⟨ctx, pending, written + 1⟩) :
      Handling id a b [.accepted id m] b'
  | completed {b' : Bus} {ctx : Context} {written : Nat}
      (hb : b.account? id = some ⟨ctx, [], written⟩) (haccount : b'.account? id = none) :
      Handling id a b [.answered id (.ok written)] b'
  | gaveUp {b' : Bus} {ctx : Context} {pending : List Message} {written : Nat} {e : Error}
      (hb : b.account? id = some ⟨ctx, pending, written⟩) (hp : pending ≠ [])
      (herr : a.err ctx = some e) (haccount : b'.account? id = none) :
      Handling id a b [.answered id (.error e)] b'
  | refused {b' : Bus} {ctx : Context} {pending : List Message} {written : Nat}
      (hb : b.account? id = some ⟨ctx, pending, written⟩) (hp : pending ≠ [])
      (hrecv : b.receiverOpen = false) (haccount : b'.account? id = none) :
      Handling id a b [.answered id (.error .busClosed)] b'

/-- Every change does one of these to a call that has begun. -/
theorem Change.handling (h : b.Slots 0) (hid : id < b.nextCall) (hchange : Change a b events b') :
    Handling id a b events b' := by
  have haccount : ∀ {c : Call}, c ∈ b.calls → b.account? c.id = some c.account := by
    intro c hc
    rw [account?, h.call?_eq hc]
    rfl
  have hdismiss : ∀ c : Call, c.id ≠ id → (b.dismiss c).account? id = b.account? id := by
    intro c hne
    rw [account?, call?_dismiss, if_neg hne, account?]
  have hgone : ∀ c : Call, (b.dismiss c).account? c.id = none := by
    intro c
    rw [account?, call?_dismiss, if_pos rfl]
    rfl
  cases hchange with
  | started ctx hroot =>
      refine .apart ?_ ?_ rfl <;> unfold start <;> split <;> rfl
  | called ctx messages hstart hopen =>
      refine .apart rfl rfl ?_
      simp only [account?, call?, List.find?_append]
      have hne : b.nextCall ≠ id := Nat.ne_of_gt hid
      simp [hne]
  | @completed c hc hp =>
      by_cases heq : c.id = id
      · subst heq
        have hb : b.account? c.id = some ⟨c.ctx, [], c.written⟩ := by
          rw [haccount hc, Call.account, hp]
        exact .completed hb (hgone c)
      · exact .apart (answersOf_other _ heq _) rfl (hdismiss c heq)
  | @gaveUp c e hc hp hplace herr =>
      by_cases heq : c.id = id
      · subst heq
        exact .gaveUp (haccount hc) hp herr (hgone c)
      · exact .apart (answersOf_other _ heq _) rfl (hdismiss c heq)
  | @forfeited c e hc hp hplace herr =>
      have hslot : ∀ id, (if b.receiverOpen = true then (b.dismiss c).releaseSlot
          else b.dismiss c).account? id = (b.dismiss c).account? id := by
        intro id
        split
        · exact account?_releaseSlot _ _
        · rfl
      by_cases heq : c.id = id
      · subst heq
        exact .gaveUp (haccount hc) hp herr ((hslot _).trans (hgone c))
      · exact .apart (answersOf_other _ heq _) rfl ((hslot _).trans (hdismiss c heq))
  | @refused c hc hp herr hrecv =>
      by_cases heq : c.id = id
      · subst heq
        exact .refused (haccount hc) hp hrecv (hgone c)
      · exact .apart (answersOf_other _ heq _) rfl (hdismiss c heq)
  | @pushed c m pending hc hp herr hrecv hslot =>
      by_cases heq : c.id = id
      · subst heq
        have hb : b.account? c.id = some ⟨c.ctx, m :: pending, c.written⟩ := by
          rw [haccount hc, Call.account, hp]
        refine .pushed hb herr ?_
        have hcall : ({ b with queue := b.queue ++ [m] } : Bus).call? c.id = some c :=
          h.call?_eq hc
        exact account?_update_self hcall fun _ => rfl
      · exact .apart rfl (pushesOf_other _ heq m)
          (account?_updateCall _ _ _ (fun _ => rfl) (.inl heq))
  | queued hc hp herr hrecv hplace hslot =>
      exact .apart rfl rfl (account?_updateCall _ _ _ (fun _ => rfl) (.inr fun _ => rfl))
  | unheard hd hq hl => exact .apart rfl rfl (account?_releaseSlot _ _)
  | taken hd hq hl => exact .apart rfl rfl (account?_releaseSlot { b with queue := _ } id)
  | aborted hlend hroot hctx =>
      obtain ⟨_, _, _, hframe⟩ := releasePermit_frame _
      rw [abort, hframe]
      exact .apart rfl rfl rfl
  | joined hw hd => exact .apart (join_apart id b).1 (join_apart id b).2 rfl
  | finished hi ending hend =>
      obtain ⟨_, _, _, hframe⟩ := releasePermit_frame _
      rw [hframe]
      exact .apart (ending_apart id _ ending).1 (ending_apart id _ ending).2 rfl
  | _ => exact .apart rfl rfl rfl

/-- How far a call has come: it has put some of its messages on the queue and
has not returned, or has put all of them there and returned their number,
or has left some out and returned why. -/
inductive Fate (ctx : Context) (messages : List Message) (id : Nat) (events : List BusEvent)
    (b : Bus) : Prop
  | underway {pending : List Message} (hpushes : pushesOf id events ++ pending = messages)
      (hanswers : answersOf id events = [])
      (haccount : b.account? id = some ⟨ctx, pending, (pushesOf id events).length⟩)
  | returned (hpushes : pushesOf id events = messages)
      (hanswers : answersOf id events = [.ok messages.length]) (haccount : b.account? id = none)
  | failed (e : Error) {pending : List Message} (hpending : pending ≠ [])
      (hpushes : pushesOf id events ++ pending = messages)
      (hanswers : answersOf id events = [.error e]) (haccount : b.account? id = none)

variable {ctx : Context} {messages : List Message}

namespace Fate

/-- Nothing happens to the call. -/
theorem apart (h : Fate ctx messages id events b) (hanswers : answersOf id new = [])
    (hpushes : pushesOf id new = []) (haccount : b'.account? id = b.account? id) :
    Fate ctx messages id (events ++ new) b' := by
  have hanswers' : answersOf id (events ++ new) = answersOf id events := by simp [hanswers]
  have hpushes' : pushesOf id (events ++ new) = pushesOf id events := by simp [hpushes]
  cases h with
  | underway hp ha he =>
      exact .underway (hpushes' ▸ hp) (hanswers' ▸ ha) (by rw [haccount, he, hpushes'])
  | returned hp ha he => exact .returned (hpushes' ▸ hp) (hanswers' ▸ ha) (haccount.trans he)
  | failed e hne hp ha he =>
      exact .failed e hne (hpushes' ▸ hp) (hanswers' ▸ ha) (haccount.trans he)

/-- A call that is not over is underway. -/
theorem of_account (h : Fate ctx messages id events b) {ctx' : Context} {pending : List Message}
    {written : Nat} (hb : b.account? id = some ⟨ctx', pending, written⟩) :
    ctx' = ctx ∧ pushesOf id events ++ pending = messages ∧ answersOf id events = [] ∧
      written = (pushesOf id events).length := by
  cases h with
  | underway hp ha he =>
      rw [hb] at he
      cases he
      exact ⟨rfl, hp, ha, rfl⟩
  | returned hp ha he => rw [hb] at he; cases he
  | failed e hne hp ha he => rw [hb] at he; cases he

/-- What is found of a call that is underway. -/
theorem of_call (h : Fate ctx messages id events b) {c : Call} (hc : b.call? id = some c) :
    c.ctx = ctx ∧ pushesOf id events ++ c.pending = messages ∧
      c.written = (pushesOf id events).length := by
  have haccount : b.account? id = some c.account := by
    rw [account?, hc]
    rfl
  obtain ⟨hctx, hpushes, -, hwritten⟩ := h.of_account haccount
  exact ⟨hctx, hpushes, hwritten⟩

/-- A call with a single message has written it when it returns that, and has
not when it returns an error. -/
theorem single {m : Message} (h : Fate ctx [m] id events b) :
    answersOf id events = [] ∧ (pushesOf id events = [] ∨ pushesOf id events = [m]) ∨
      answersOf id events = [.ok 1] ∧ pushesOf id events = [m] ∨
      ∃ e, answersOf id events = [.error e] ∧ pushesOf id events = [] := by
  cases h with
  | underway hp ha he =>
      rcases List.append_eq_singleton_iff.mp hp with ⟨hnone, -⟩ | ⟨hall, -⟩
      · exact .inl ⟨ha, .inl hnone⟩
      · exact .inl ⟨ha, .inr hall⟩
  | returned hp ha he => exact .inr (.inl ⟨ha, hp⟩)
  | failed e hne hp ha he =>
      rcases List.append_eq_singleton_iff.mp hp with ⟨hnone, -⟩ | ⟨-, hall⟩
      · exact .inr (.inr ⟨e, ha, hnone⟩)
      · exact absurd hall hne

/-- What is done to a call takes it further. -/
theorem handling (h : Fate ctx messages id events b) (hhandling : Handling id a b new b') :
    Fate ctx messages id (events ++ new) b' := by
  cases hhandling with
  | apart hanswers hpushes haccount => exact h.apart hanswers hpushes haccount
  | @pushed b' ctx' m pending written hb herr haccount =>
      obtain ⟨rfl, hp, ha, rfl⟩ := h.of_account hb
      have hpushes : pushesOf id (events ++ [.accepted id m]) ++ pending = messages := by
        simpa using hp
      exact .underway hpushes (by simp [ha]) (by simpa using haccount)
  | completed hb haccount =>
      obtain ⟨rfl, hp, ha, rfl⟩ := h.of_account hb
      rw [List.append_nil] at hp
      exact .returned (by simpa using hp) (by simp [ha, hp]) haccount
  | @gaveUp b' ctx' pending written e hb hne herr haccount =>
      obtain ⟨rfl, hp, ha, rfl⟩ := h.of_account hb
      exact .failed e hne (by simpa using hp) (by simp [ha]) haccount
  | refused hb hne hrecv haccount =>
      obtain ⟨rfl, hp, ha, rfl⟩ := h.of_account hb
      exact .failed .busClosed hne (by simpa using hp) (by simp [ha]) haccount

end Fate

/-- No change takes a number back. -/
theorem Change.nextCall_le (hchange : Change a b events b') : b.nextCall ≤ b'.nextCall := by
  cases hchange with
  | called ctx messages hstart hopen => exact Nat.le_succ _
  | forfeited hc hp hplace herr => split <;> simp [dismiss]
  | unheard hd hq hl => simp
  | taken hd hq hl => simp
  | aborted hlend hroot hctx =>
      obtain ⟨_, _, _, hframe⟩ := releasePermit_frame _
      exact Nat.le_of_eq (by rw [abort, hframe])
  | finished hi ending hend =>
      obtain ⟨_, _, _, hframe⟩ := releasePermit_frame _
      exact Nat.le_of_eq (by rw [hframe])
  | _ => exact Nat.le_refl _

/-- An open bus when a call begins. -/
def begun (b : Bus) (ctx : Context) (messages : List Message) : Bus :=
  { b with
    calls := b.calls ++ [⟨b.nextCall, ctx, messages, 0, .calling⟩]
    nextCall := b.nextCall + 1 }

/-- When a call that has just begun is over, only its number is gone. -/
theorem Slots.dismiss_begun {spare : Nat} (h : b.Slots spare) (ctx : Context)
    (messages : List Message) :
    (b.begun ctx messages).dismiss ⟨b.nextCall, ctx, messages, 0, .calling⟩ =
      { b with nextCall := b.nextCall + 1 } := by
  have hcalls : b.calls.filter (·.id ≠ b.nextCall) = b.calls := by
    refine List.filter_eq_self.mpr fun c hc => ?_
    simpa using Nat.ne_of_lt (h.numbered c hc)
  have hline : b.line.filter (· ≠ b.nextCall) = b.line := by
    refine List.filter_eq_self.mpr fun id hid => ?_
    obtain ⟨c, hc, rfl, -⟩ := (h.mem_line id).mp hid
    simpa using Nat.ne_of_lt (h.numbered c hc)
  simp only [begun, Bus.dismiss, List.filter_append, hcalls, hline]
  simp

/-- A call that begins has done nothing yet. -/
theorem Slots.fate_begun {spare : Nat} (h : b.Slots spare) (ctx : Context)
    (messages : List Message) :
    Fate ctx messages b.nextCall [] (b.begun ctx messages) := by
  have hnew : b.calls.find? (·.id == b.nextCall) = none := by
    rw [List.find?_eq_none]
    intro c hc
    have hlt := h.numbered c hc
    simp
    omega
  refine .underway rfl rfl ?_
  simp [account?, call?, begun, List.find?_append, hnew, Call.account, pushesOf]

end Bus

namespace System

variable {s : System} {ctx : Context} {messages : List Message} {id : Nat}

/-- What is seen of a run is seen of one of its moves. -/
theorem mem_filterMap_run {α : Type} {f : BusEvent → Option α} {x : α} {moves : List Move}
    (h : x ∈ (s.run moves).2.filterMap f) :
    ∃ past move rest, moves = past ++ move :: rest ∧
      x ∈ ((s.run past).1.apply move).2.filterMap f := by
  induction moves using List.reverseRecOn with
  | nil => cases h
  | append_singleton moves move ih =>
      rw [run_concat, List.filterMap_append] at h
      rcases List.mem_append.mp h with hbefore | hlast
      · obtain ⟨past, first, rest, rfl, hmem⟩ := ih hbefore
        exact ⟨past, first, rest ++ [move], by simp, hmem⟩
      · exact ⟨moves, move, [], rfl, hlast⟩

/-- No move takes a number back. -/
theorem apply_nextCall_le (h : s.bus.Sound) (move : Move) :
    s.bus.nextCall ≤ (s.apply move).1.bus.nextCall := by
  rcases (apply_sound h move).2 with ⟨hsame, -⟩ | hchange
  · exact Nat.le_of_eq (by rw [hsame])
  · exact hchange.nextCall_le

/-- No run takes a number back. -/
theorem run_nextCall_le (h : s.bus.Sound) (moves : List Move) :
    s.bus.nextCall ≤ (s.run moves).1.bus.nextCall := by
  refine run_keeps (P := fun _ b => s.bus.nextCall ≤ b.nextCall) h (Nat.le_refl _) ?_ moves
  intro a b b' events new hsound hle hchange
  exact Nat.le_trans hle hchange.nextCall_le

/-- What a move does to a call that has begun. -/
theorem apply_handling (h : s.bus.Sound) (hid : id < s.bus.nextCall) (move : Move) :
    Bus.Handling id s.ambient s.bus (s.apply move).2 (s.apply move).1.bus := by
  rcases (apply_sound h move).2 with ⟨hsame, hnone⟩ | hchange
  · rw [hsame, hnone]
    exact .apart rfl rfl rfl
  · exact hchange.handling h.slots hid

/-- How far a call has come in a run. -/
theorem run_fate (h : s.bus.Sound) (hid : id < s.bus.nextCall)
    (hfate : Bus.Fate ctx messages id [] s.bus) (moves : List Move) :
    Bus.Fate ctx messages id (s.run moves).2 (s.run moves).1.bus := by
  let P (events : List BusEvent) (b : Bus) : Prop :=
    id < b.nextCall ∧ Bus.Fate ctx messages id events b
  have hkept : P (s.run moves).2 (s.run moves).1.bus := by
    refine run_keeps h ⟨hid, hfate⟩ ?_ moves
    rintro a b b' events new hsound ⟨hlt, hfate⟩ hchange
    exact ⟨Nat.lt_of_lt_of_le hlt hchange.nextCall_le,
      hfate.handling (hchange.handling hsound.slots hlt)⟩
  exact hkept.2

/-- A call that is not refused gives up for the reason for which its context
has ended by then. -/
theorem run_gaveUp (h : s.bus.Sound) (hid : id < s.bus.nextCall)
    (hfate : Bus.Fate ctx messages id [] s.bus) {moves : List Move} {e : Error}
    (hmem : .error e ∈ Bus.answersOf id (s.run moves).2) (hne : e ≠ .busClosed) :
    ∃ past move rest, moves = past ++ move :: rest ∧ (s.run past).1.ambient.err ctx = some e := by
  obtain ⟨past, move, rest, rfl, hstep⟩ := mem_filterMap_run hmem
  have hlt := Nat.lt_of_lt_of_le hid (run_nextCall_le h past)
  refine ⟨past, move, rest, rfl, ?_⟩
  have hhandling := apply_handling (run_sound h past) hlt move
  change .error e ∈ Bus.answersOf id _ at hstep
  generalize ((s.run past).1.apply move).2 = events at hstep hhandling
  cases hhandling with
  | apart hanswers hpushes haccount => simp [hanswers] at hstep
  | pushed hb herr haccount => simp at hstep
  | completed hb haccount => simp at hstep
  | gaveUp hb hp herr haccount =>
      obtain ⟨rfl, -⟩ := (run_fate h hid hfate past).of_account hb
      have heq := by simpa using hstep
      rw [heq, herr]
  | refused hb hp hrecv haccount =>
      have heq := by simpa using hstep
      exact absurd heq hne

/-- A call puts nothing on the queue once its context has ended. -/
theorem pushesOf_of_ended (h : s.bus.Sound) (hid : id < s.bus.nextCall)
    (hfate : Bus.Fate ctx messages id [] s.bus) (hdone : s.ambient.isDone ctx = true)
    (moves : List Move) : Bus.pushesOf id (s.run moves).2 = [] := by
  refine List.eq_nil_iff_forall_not_mem.mpr fun m hmem => ?_
  obtain ⟨past, move, rest, rfl, hstep⟩ := mem_filterMap_run hmem
  have hlt := Nat.lt_of_lt_of_le hid (run_nextCall_le h past)
  have hhandling := apply_handling (run_sound h past) hlt move
  change m ∈ Bus.pushesOf id _ at hstep
  generalize ((s.run past).1.apply move).2 = events at hstep hhandling
  cases hhandling with
  | apart hanswers hpushes haccount => simp [hpushes] at hstep
  | pushed hb herr haccount =>
      obtain ⟨rfl, -⟩ := (run_fate h hid hfate past).of_account hb
      have hlater := (s.run_later past).isDone hdone
      obtain ⟨e, he⟩ := Ambient.isDone_iff_err.mp hlater
      rw [herr] at he
      cases he
  | completed hb haccount => simp at hstep
  | gaveUp hb hp herr haccount => simp at hstep
  | refused hb hp hrecv haccount => simp at hstep

/-- A call that has something left to write gives up when its context has
ended, wherever it stands. -/
theorem apply_call_ended {c : Call} {e : Error} (hc : s.bus.call? id = some c)
    (hp : c.pending ≠ []) (herr : s.ambient.err c.ctx = some e) :
    s.apply (.call id) =
      ({ s with bus := s.bus.withdraw c }, [.answered id (.error e)]) := by
  obtain ⟨-, rfl⟩ := Bus.call?_some hc
  obtain ⟨m, pending, hp⟩ := List.exists_cons_of_ne_nil hp
  simp only [apply, hc]
  cases hplace : c.place <;>
    simp [ofStep, Bus.stepCall, hp, herr, hplace, Bus.withdraw, Bus.forfeit, Bus.answer,
      Bus.dismiss]

/-- A call that has nothing left to write returns how much it has written. -/
theorem apply_call_done {c : Call} (hc : s.bus.call? id = some c) (hp : c.pending = []) :
    s.apply (.call id) =
      ({ s with bus := s.bus.dismiss c }, [.answered id (.ok c.written)]) := by
  obtain ⟨-, rfl⟩ := Bus.call?_some hc
  simp [apply, hc, ofStep, Bus.stepCall, hp, Bus.answer, Bus.dismiss]

/-- An open bus begins a call. -/
theorem beginCall_eq (hstarted : s.bus.isStarted = true) (hopen : s.bus.senderOpen = true)
    (ctx : Context) (messages : List Message) :
    s.bus.beginCall ctx messages = .ok (s.bus.nextCall, s.bus.begun ctx messages) := by
  simp [Bus.beginCall, hstarted, hopen, Bus.begun]

/-- So does a move. -/
theorem apply_write_eq (hstarted : s.bus.isStarted = true) (hopen : s.bus.senderOpen = true)
    (ctx : Context) (messages : List Message) :
    s.apply (.write ctx messages) = ({ s with bus := s.bus.begun ctx messages }, []) := by
  simp only [apply, beginCall_eq hstarted hopen]

/-- A bus that is not open begins no call. -/
theorem apply_write_of_not_open (h : ¬ (s.bus.isStarted = true ∧ s.bus.senderOpen = true))
    (ctx : Context) (messages : List Message) : s.apply (.write ctx messages) = (s, []) := by
  cases hstarted : s.bus.isStarted with
  | false => simp [apply, Bus.beginCall, hstarted]
  | true =>
      have hclosed : s.bus.senderOpen = false := by
        rw [hstarted] at h
        simpa using h
      simp [apply, Bus.beginCall, hstarted, hclosed]

/-- A call whose context has ended when it begins gives up at once, and
nothing but its number is gone. -/
theorem run_ended_call (h : s.bus.Sound) (hstarted : s.bus.isStarted = true)
    (hopen : s.bus.senderOpen = true) (hne : messages ≠ []) {e : Error}
    (herr : s.ambient.err ctx = some e) :
    s.run [.write ctx messages, .call s.bus.nextCall] =
      ({ s with bus := { s.bus with nextCall := s.bus.nextCall + 1 } },
        [.answered s.bus.nextCall (.error e)]) := by
  let c : Call := ⟨s.bus.nextCall, ctx, messages, 0, .calling⟩
  have hwrite := apply_write_eq hstarted hopen ctx messages
  have hslots := (apply_sound h (.write ctx messages)).1.slots
  rw [hwrite] at hslots
  have hc : (s.bus.begun ctx messages).call? s.bus.nextCall = some c :=
    hslots.call?_eq (List.mem_append_right _ List.mem_cons_self)
  have hstep := apply_call_ended (s := { s with bus := s.bus.begun ctx messages }) hc hne herr
  rw [run_cons, hwrite, run_cons, hstep]
  have hgone : (s.bus.begun ctx messages).withdraw c =
      { s.bus with nextCall := s.bus.nextCall + 1 } := by
    have hplace : c.place ≠ .granted := by simp [c]
    rw [Bus.withdraw, if_neg fun hslot => hplace hslot.1]
    exact h.slots.dismiss_begun ctx messages
  simp [hgone, run]

/-- What a write call that is made now returns in the further course of a
run; at once, if it is refused. -/
def results (s : System) (ctx : Context) (messages : List Message) (later : List Move) :
    List (Except Error Nat) :=
  match s.bus.beginCall ctx messages with
  | .error e => [.error e]
  | .ok (id, _) => Bus.answersOf id ((s.apply (.write ctx messages)).1.run later).2

/-- What it puts on the queue. -/
def pushes (s : System) (ctx : Context) (messages : List Message) (later : List Move) :
    List Message :=
  match s.bus.beginCall ctx messages with
  | .error _ => []
  | .ok (id, _) => Bus.pushesOf id ((s.apply (.write ctx messages)).1.run later).2

/-- What a call does that is begun. -/
theorem results_of_open (hstarted : s.bus.isStarted = true) (hopen : s.bus.senderOpen = true)
    (ctx : Context) (messages : List Message) (later : List Move) :
    s.results ctx messages later =
        Bus.answersOf s.bus.nextCall (s.run (.write ctx messages :: later)).2 ∧
      s.pushes ctx messages later =
        Bus.pushesOf s.bus.nextCall (s.run (.write ctx messages :: later)).2 := by
  have hwrite := apply_write_eq hstarted hopen ctx messages
  simp [results, pushes, beginCall_eq hstarted hopen, run_cons, hwrite]

/-- What is known of a write call with a single message, made now in a run
that goes on as said. -/
structure WriteLaw (s : System) (ctx : Context) (m : Message) (later : List Move) : Prop where
  /-- It is refused before the first start, whatever its context, and returns
  this error in no other case. -/
  notStarted : .error .busNotStarted ∈ s.results ctx [m] later ↔ s.bus.isStarted = false
  /-- It is refused when the bus is closed to new calls, whatever its context,
  and returns this error in no other case. -/
  closed : .error .busClosed ∈ s.results ctx [m] later ↔
    s.bus.isStarted = true ∧ s.bus.senderOpen = false
  /-- A call that is refused does nothing. -/
  refused : s.bus.isStarted = false ∨ s.bus.senderOpen = false →
    s.apply (.write ctx [m]) = (s, [])
  /-- It returns once at most, and it has written its message once when it
  returns that, and never when it returns an error. -/
  outcome : s.results ctx [m] later = [] ∧
        (s.pushes ctx [m] later = [] ∨ s.pushes ctx [m] later = [m]) ∨
      s.results ctx [m] later = [.ok 1] ∧ s.pushes ctx [m] later = [m] ∨
      ∃ e, s.results ctx [m] later = [.error e] ∧ s.pushes ctx [m] later = []
  /-- Unless it is refused, it returns no error but that of its own context,
  as it is when the call returns. -/
  own : s.bus.isStarted = true → s.bus.senderOpen = true →
    ∀ e, .error e ∈ s.results ctx [m] later → ∃ past move rest, later = past ++ move :: rest ∧
      (s.run (.write ctx [m] :: past)).1.ambient.err ctx = some e
  /-- When its context has ended already, it writes nothing, and its first
  step leaves the bus as it was, but for the number of the call. -/
  ended : s.bus.isStarted = true → s.bus.senderOpen = true →
    ∀ e, s.ambient.err ctx = some e →
      s.pushes ctx [m] later = [] ∧
      s.run [.write ctx [m], .call s.bus.nextCall] =
        ({ s with bus := { s.bus with nextCall := s.bus.nextCall + 1 } },
          [.answered s.bus.nextCall (.error e)])
  /-- As long as it has not written its message, it loses to its context: when
  that has ended, its next step is to return, even if there is a slot for
  it, and the bus is left to the other calls. -/
  loses : s.bus.isStarted = true → s.bus.senderOpen = true →
    let t := (s.run (.write ctx [m] :: later)).1
    ∀ c e, t.bus.call? s.bus.nextCall = some c → c.pending ≠ [] →
      t.ambient.err ctx = some e →
      t.apply (.call s.bus.nextCall) =
        ({ t with bus := t.bus.withdraw c }, [.answered s.bus.nextCall (.error e)])
  /-- Once it has written its message, its next step is to say so, whatever
  its context. -/
  wins : s.bus.isStarted = true → s.bus.senderOpen = true →
    let t := (s.run (.write ctx [m] :: later)).1
    ∀ c, t.bus.call? s.bus.nextCall = some c → c.pending = [] →
      t.apply (.call s.bus.nextCall) =
        ({ t with bus := t.bus.dismiss c }, [.answered s.bus.nextCall (.ok 1)])

/-- A call that is refused obeys this law. -/
theorem writeLaw_of_refused (hrefused : s.bus.isStarted = false ∨ s.bus.senderOpen = false)
    (ctx : Context) (m : Message) (later : List Move) : s.WriteLaw ctx m later := by
  obtain ⟨e, hbegin, he⟩ : ∃ e, s.bus.beginCall ctx [m] = .error e ∧
      (s.bus.isStarted = false ∧ e = .busNotStarted ∨
        s.bus.isStarted = true ∧ s.bus.senderOpen = false ∧ e = .busClosed) := by
    cases hstarted : s.bus.isStarted with
    | false => exact ⟨.busNotStarted, by simp [Bus.beginCall, hstarted], .inl ⟨rfl, rfl⟩⟩
    | true =>
        have hclosed := hrefused.resolve_left (by simp [hstarted])
        exact ⟨.busClosed, by simp [Bus.beginCall, hstarted, hclosed], .inr ⟨rfl, hclosed, rfl⟩⟩
  have hresults : s.results ctx [m] later = [.error e] := by simp [results, hbegin]
  have hpushes : s.pushes ctx [m] later = [] := by simp [pushes, hbegin]
  have hnot : s.bus.isStarted = true → ¬ s.bus.senderOpen = true := by
    intro hstarted hopen
    rcases hrefused with hcase | hcase <;> simp_all
  exact {
    notStarted := by
      rw [hresults]
      rcases he with ⟨hstarted, rfl⟩ | ⟨hstarted, -, rfl⟩ <;> simp [hstarted]
    closed := by
      rw [hresults]
      rcases he with ⟨hstarted, rfl⟩ | ⟨hstarted, hclosed, rfl⟩ <;> simp [*]
    refused := fun _ => by simp [apply, hbegin]
    outcome := .inr (.inr ⟨e, hresults, hpushes⟩)
    own := fun hstarted hopen => absurd hopen (hnot hstarted)
    ended := fun hstarted hopen => absurd hopen (hnot hstarted)
    loses := fun hstarted hopen => absurd hopen (hnot hstarted)
    wins := fun hstarted hopen => absurd hopen (hnot hstarted) }

/-- A call that is begun obeys this law in a run in which the dispatcher does
not break down. -/
theorem writeLaw_of_begun (h : s.bus.Sound) (hstarted : s.bus.isStarted = true)
    (hopen : s.bus.senderOpen = true) (ctx : Context) (m : Message) (later : List Move)
    (halive : ∀ why, (s.run (.write ctx [m] :: later)).1.bus.dispatcher ≠ .aborted why) :
    s.WriteLaw ctx m later := by
  obtain ⟨hresults, hpushes⟩ := results_of_open hstarted hopen ctx [m] later
  have hwrite := apply_write_eq hstarted hopen ctx [m]
  let begun : System := { s with bus := s.bus.begun ctx [m] }
  have hsound : begun.bus.Sound := by
    have hsound := (apply_sound h (.write ctx [m])).1
    rwa [hwrite] at hsound
  have hrun : ∀ moves, s.run (.write ctx [m] :: moves) = begun.run moves := by
    intro moves
    rw [run_cons, hwrite]
    rfl
  have hid : s.bus.nextCall < begun.bus.nextCall := Nat.lt_succ_self _
  have hbegun : Bus.Fate ctx [m] s.bus.nextCall [] begun.bus := h.slots.fate_begun ctx [m]
  have hfate : Bus.Fate ctx [m] s.bus.nextCall (s.run (.write ctx [m] :: later)).2
      (s.run (.write ctx [m] :: later)).1.bus := by
    rw [hrun]
    exact run_fate hsound hid hbegun later
  have hclosed : .error .busClosed ∉ s.results ctx [m] later := by
    rw [hresults, Bus.mem_answersOf]
    exact run_unrefused (.write ctx [m] :: later) h halive s.bus.nextCall
  have hown : ∀ e, .error e ∈ s.results ctx [m] later →
      ∃ past move rest, later = past ++ move :: rest ∧
        (begun.run past).1.ambient.err ctx = some e := by
    intro e he
    have hne : e ≠ .busClosed := fun heq => hclosed (heq ▸ he)
    rw [hresults, hrun] at he
    exact run_gaveUp hsound hid hbegun he hne
  exact {
    notStarted := by
      refine ⟨fun hmem => ?_, fun hnot => by simp [hstarted] at hnot⟩
      obtain ⟨past, move, rest, -, herr⟩ := hown _ hmem
      cases Ambient.isContextEnd_of_err herr
    closed := by simp [hclosed, hopen]
    refused := by simp [hstarted, hopen]
    outcome := by
      rw [hresults, hpushes]
      exact hfate.single
    own := fun _ _ => by simpa only [hrun] using hown
    ended := by
      intro _ _ e he
      rw [hpushes, hrun]
      exact ⟨pushesOf_of_ended hsound hid hbegun (Ambient.isDone_iff_err.mpr ⟨e, he⟩) later,
        run_ended_call h hstarted hopen (by simp) he⟩
    loses := by
      intro _ _ t c e hc hp he
      obtain ⟨hctx, -⟩ := hfate.of_call hc
      exact apply_call_ended hc hp (hctx ▸ he)
    wins := by
      intro _ _ t c hc hp
      obtain ⟨-, hpushed, hwritten⟩ := hfate.of_call hc
      rw [hp, List.append_nil] at hpushed
      rw [hpushed] at hwritten
      have hstep := apply_call_done hc hp
      rwa [hwritten] at hstep }

/-- Every write call obeys this law in a run in which the dispatcher does not
break down. -/
theorem writeLaw_of_alive (h : s.bus.Sound) (ctx : Context) (m : Message) (later : List Move)
    (halive : ∀ why, (s.run (.write ctx [m] :: later)).1.bus.dispatcher ≠ .aborted why) :
    s.WriteLaw ctx m later := by
  cases hstarted : s.bus.isStarted with
  | false => exact writeLaw_of_refused (.inl hstarted) ctx m later
  | true =>
      cases hopen : s.bus.senderOpen with
      | false => exact writeLaw_of_refused (.inr hopen) ctx m later
      | true => exact writeLaw_of_begun h hstarted hopen ctx m later halive

end System
end PubSub
