import PubSub.Proofs.Bus.Lifecycle
import PubSub.Proofs.Bus.Writes

/-!
# Moves that are not a call's own

Nothing is seen of a call but in its own moves, and when nothing is seen of
it, it is about the same as before.

* `Handling.account_eq`, `Handling.account_none`, `Handling.account_pushed` —
  what a call is about, by what is seen of it;
* `System.apply_apart`, `System.apply_account` — the moves of others;
* `System.run_gone` — a call that is over.
-/

namespace PubSub

namespace Bus

variable {a : Ambient} {b b' : Bus} {events : List BusEvent} {id : Nat}

/-- What is found of a call by what it is about. -/
theorem call?_of_account {account : Account} (h : b.account? id = some account) :
    ∃ c, b.call? id = some c ∧ c.account = account := by
  rw [account?] at h
  exact Option.map_eq_some_iff.mp h

/-- A call of which nothing is seen is about the same as before. -/
theorem Handling.account_eq (h : Handling id a b events b') (hanswers : answersOf id events = [])
    (hpushes : pushesOf id events = []) : b'.account? id = b.account? id := by
  cases h with
  | apart _ _ haccount => exact haccount
  | pushed => simp at hpushes
  | completed => simp at hanswers
  | gaveUp => simp at hanswers
  | refused => simp at hanswers

/-- A call that returns is over. -/
theorem Handling.account_none (h : Handling id a b events b')
    (hanswers : answersOf id events ≠ []) :
    b'.account? id = none := by
  cases h with
  | apart hnone _ _ => exact absurd hnone hanswers
  | pushed => simp at hanswers
  | completed _ haccount => exact haccount
  | gaveUp _ _ _ haccount => exact haccount
  | refused _ _ _ haccount => exact haccount

/-- A call that puts a message on the queue has that behind it. -/
theorem Handling.account_pushed (h : Handling id a b events b') (hpushes : pushesOf id events ≠ [])
    {ctx : Context} {m : Message} {pending : List Message} {written : Nat}
    (hb : b.account? id = some ⟨ctx, m :: pending, written⟩) :
    b'.account? id = some ⟨ctx, pending, written + 1⟩ := by
  cases h with
  | apart _ hnone _ => exact absurd hnone hpushes
  | pushed hb' _ haccount =>
      rw [hb] at hb'
      cases hb'
      exact haccount
  | completed => simp at hpushes
  | gaveUp => simp at hpushes
  | refused => simp at hpushes

/-- A step of one call says nothing of another. -/
theorem stepCall_apart {c : Call} (hne : c.id ≠ id) :
    answersOf id (b.stepCall a c).2 = [] ∧ pushesOf id (b.stepCall a c).2 = [] := by
  have hanswer : ∀ result, answersOf id (b.answer c result).2 = [] ∧
      pushesOf id (b.answer c result).2 = [] :=
    fun result => ⟨answersOf_other id hne result, rfl⟩
  have hpush : ∀ m pending, answersOf id (b.push c m pending).2 = [] ∧
      pushesOf id (b.push c m pending).2 = [] :=
    fun m pending => ⟨rfl, pushesOf_other id hne m⟩
  unfold stepCall
  split
  · exact hanswer _
  · exact hanswer _
  · exact hanswer _
  · split
    · exact hanswer _
    · split
      · exact hpush _ _
      · split
        · exact hpush _ _
        · exact ⟨rfl, rfl⟩
      · exact ⟨rfl, rfl⟩

/-- Neither does a step of the dispatcher. -/
theorem stepDispatcher_apart (b : Bus) (a : Ambient) (id : Nat) :
    answersOf id (b.stepDispatcher a).2.2 = [] ∧ pushesOf id (b.stepDispatcher a).2.2 = [] := by
  have hspawn : ∀ (b : Bus) m task rest, answersOf id (b.spawn a m task rest).2.2 = [] ∧
      pushesOf id (b.spawn a m task rest).2.2 = [] := by
    intro b m task rest
    unfold spawn
    split
    · exact ⟨rfl, rfl⟩
    · split <;> exact ⟨rfl, rfl⟩
  unfold stepDispatcher
  split
  · split
    · unfold take
      dsimp only
      split <;> exact ⟨rfl, rfl⟩
    · split <;> exact ⟨rfl, rfl⟩
  · split
    · exact hspawn _ _ _ _
    · exact ⟨rfl, rfl⟩
  · exact hspawn _ _ _ _
  · exact ⟨rfl, rfl⟩

/-- Neither does one of the watcher. -/
theorem stepWatcher_apart (b : Bus) (a : Ambient) (id : Nat) :
    answersOf id (b.stepWatcher a).2 = [] ∧ pushesOf id (b.stepWatcher a).2 = [] := by
  unfold stepWatcher
  split
  · exact ⟨rfl, rfl⟩
  · split
    · exact ⟨rfl, rfl⟩
    · exact join_apart id b
    · exact ⟨rfl, rfl⟩
    · exact ⟨rfl, rfl⟩

/-- Neither does an invocation that is asked. -/
theorem pollInvocation_apart (b : Bus) (i : Invocation) (ended : Option Error) (reply : Reply)
    (id : Nat) :
    answersOf id (b.pollInvocation i ended reply).2 = [] ∧
      pushesOf id (b.pollInvocation i ended reply).2 = [] := by
  unfold pollInvocation
  split
  · exact ending_apart id i _
  · exact ⟨rfl, rfl⟩
  · exact ⟨rfl, rfl⟩
  · exact ending_apart id i _
  · exact ending_apart id i _

end Bus

namespace System

variable {s : System} {id : Nat}

/-- Nothing is seen of a call in a move that is not its own. -/
theorem apply_apart {move : Move} (hne : move ≠ .call id) :
    Bus.answersOf id (s.apply move).2 = [] ∧ Bus.pushesOf id (s.apply move).2 = [] := by
  cases move with
  | start ctx =>
      simp only [apply, ofStep, Bus.start]
      split <;> exact ⟨rfl, rfl⟩
  | write ctx messages =>
      simp only [apply]
      split <;> exact ⟨rfl, rfl⟩
  | call n =>
      simp only [apply]
      split
      · rename_i c hc
        obtain ⟨-, rfl⟩ := Bus.call?_some hc
        exact Bus.stepCall_apart fun heq => hne (congrArg Move.call heq)
      · exact ⟨rfl, rfl⟩
  | dispatcher => exact Bus.stepDispatcher_apart _ _ id
  | watcher => exact Bus.stepWatcher_apart _ _ id
  | invocation n reply =>
      simp only [apply]
      split
      · exact Bus.pollInvocation_apart _ _ _ _ id
      · exact ⟨rfl, rfl⟩
  | _ => exact ⟨rfl, rfl⟩

/-- Such a move changes nothing about it. -/
theorem apply_account (h : s.bus.Sound) (hid : id < s.bus.nextCall) {move : Move}
    (hne : move ≠ .call id) : (s.apply move).1.bus.account? id = s.bus.account? id :=
  (apply_handling h hid move).account_eq (apply_apart hne).1 (apply_apart hne).2

/-- A bus that has been started stays so. -/
theorem apply_isStarted (h : s.bus.Sound) (hstarted : s.bus.isStarted = true) (move : Move) :
    (s.apply move).1.bus.isStarted = true := by
  rw [Bus.isStarted] at hstarted ⊢
  rw [apply_root h, Option.isSome_or, hstarted, Bool.true_or]

/-- A step of a call takes no number. -/
theorem apply_call_nextCall (s : System) (id : Nat) :
    (s.apply (.call id)).1.bus.nextCall = s.bus.nextCall := by
  cases hc : s.bus.call? id with
  | none => simp only [apply, hc]
  | some c =>
      obtain ⟨_, _, _, hframe⟩ := s.bus.stepCall_frame s.ambient c
      simp only [apply, hc, ofStep, hframe]

/-- Nothing more is seen of a call that is over. -/
theorem run_gone (h : s.bus.Sound) (hid : id < s.bus.nextCall)
    (hgone : s.bus.account? id = none) (moves : List Move) :
    Bus.answersOf id (s.run moves).2 = [] ∧ Bus.pushesOf id (s.run moves).2 = [] := by
  let P (events : List BusEvent) (b : Bus) : Prop :=
    id < b.nextCall ∧ b.account? id = none ∧
      Bus.answersOf id events = [] ∧ Bus.pushesOf id events = []
  have hkept : P (s.run moves).2 (s.run moves).1.bus := by
    refine run_keeps h ⟨hid, hgone, rfl, rfl⟩ ?_ moves
    rintro a b b' events new hsound ⟨hlt, hgone, hanswers, hpushes⟩ hchange
    refine ⟨Nat.lt_of_lt_of_le hlt hchange.nextCall_le, ?_⟩
    have hhandling := hchange.handling hsound.slots hlt
    cases hhandling with
    | apart ha hp haccount =>
        exact ⟨haccount.trans hgone, by simp [hanswers, ha], by simp [hpushes, hp]⟩
    | pushed hb => rw [hgone] at hb; cases hb
    | completed hb => rw [hgone] at hb; cases hb
    | gaveUp hb => rw [hgone] at hb; cases hb
    | refused hb => rw [hgone] at hb; cases hb
  exact hkept.2.2

end System
end PubSub
