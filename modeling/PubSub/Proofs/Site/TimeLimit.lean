import PubSub.Proofs.Bus.TimeLimit
import PubSub.Proofs.Site.Moves

/-!
# Time limits of deliveries

At a site, an invocation is asked by its turns only.  When its context has
ended, it ends at its turn, wherever its delivery stands: no attempt is made
any more, and no pause is waited for.  As long as its context lives, it ends
with what its delivery comes to.

* `Site.Backed` — deliveries belong to invocations that are running;
* `Site.Step.attempts_live` — attempts are made in contexts that live;
* `Site.turn_returned` — an invocation ends with its delivery;
* `Invocation.Delivered`, `Site.time_limit_run` — the time limits of deliveries.
-/

namespace PubSub

/-- What holds of the delivery of an invocation at a site. -/
structure Invocation.Delivered (i : Invocation) (s : Site) : Prop where
  /-- Whatever is done at the site, attempts at its message are made only while
  its context lives. -/
  attempts : ∀ deed, ∃ new, (s.apply deed).attempts = s.attempts ++ new ∧
    ∀ a ∈ new, a.invocation.id = i.id → s.system.ambient.err i.ctx = none
  /-- When its context has ended, it ends at its turn, wherever its delivery
  stands and whatever its handler has to say. -/
  interrupted : s.system.bus.Runs i.id → ∀ e, s.system.ambient.err i.ctx = some e →
    ∀ pace reply cancels, .ended i.id (.interrupted e) ∈ s.seen (.turn i.id pace reply cancels)
  /-- While its context lives, it ends at its turn with what its delivery comes
  to, if that is over. -/
  returned : s.system.bus.Runs i.id → s.system.ambient.err i.ctx = none →
    ∀ pace reply cancels outcome,
      .ended i.id (.returned outcome) ∈ s.seen (.turn i.id pace reply cancels) ↔
        (s.deliveryAfter i pace reply cancels).progress = .finished outcome

namespace Site

variable {s s' : Site} {i : Invocation} {d : Delivery} {pace : Pace} {reply : Bus.Reply}
  {cancels : Bool} {arrival : Arrival} {deed : Deed}

/-- A delivery that is not over belongs to a running invocation that has called
its handler. -/
structure Backed (s : Site) : Prop where
  sound : s.system.bus.Sound
  running : ∀ o ∈ s.ongoing, o.invocation.called ∈ s.system.bus.running

namespace Backed

/-- There is none at the beginning. -/
theorem initial (hub : Hub Unit Unit) (config : BusConfig) (tokens : Tokens) :
    (Site.initial hub config tokens).Backed :=
  ⟨.ofConfig config, by simp [Site.initial]⟩

/-- Moves that ask no invocation leave deliveries alone. -/
theorem moved (h : s.Backed) (moves : List Move)
    (hsystem : s'.system = (s.system.run moves).1) (hongoing : s'.ongoing = s.ongoing)
    (hmoves : ∀ id reply, .invocation id reply ∉ moves) : s'.Backed := by
  refine ⟨hsystem ▸ System.run_sound h.sound moves, ?_⟩
  rw [hsystem, hongoing]
  intro o ho
  exact System.run_others h.sound (h.running o ho) fun reply => hmoves _ reply

/-- An invocation is asked, and its delivery is over. -/
theorem forget (h : s.Backed) (id : Nat) (reply : Bus.Reply) :
    ((s.move (.invocation id reply)).forget id).Backed := by
  refine ⟨(System.apply_sound h.sound _).1, fun o ho => ?_⟩
  obtain ⟨hmem, hother⟩ := List.mem_filter.mp ho
  refine System.apply_others h.sound (h.running o hmem) ?_
  rintro reply' hsame
  rw [(Move.invocation.inj hsame).1] at hother
  simp [Invocation.called] at hother

/-- The delivery of an invocation is not over. -/
theorem keep (h : s.Backed) (hi : i.called ∈ s.system.bus.running) : (s.keep i d).Backed := by
  refine ⟨h.sound, fun o ho => ?_⟩
  rcases List.mem_cons.mp ho with rfl | ho
  · exact hi
  · exact h.running o (List.mem_of_mem_filter ho)

theorem settle (h : s.Backed) (hi : i.called ∈ s.system.bus.running) :
    (s.settle i d).Backed := by
  unfold Site.settle
  split
  · exact h.forget i.id _
  · exact h.keep hi

theorem attempt (h : s.Backed) (hi : i.called ∈ s.system.bus.running) :
    (s.attempt i d).Backed :=
  settle (s := { s with attempts := s.attempts ++ [⟨i, d.progress⟩] }) ⟨h.sound, h.running⟩ hi

theorem cancelFor (h : s.Backed) (arrival : Arrival) (cancels : Bool) :
    (s.cancelFor arrival cancels).Backed := by
  cases cancels with
  | false => exact h
  | true => exact h.moved [.cancel arrival.ctx] rfl rfl (by simp)

theorem goOn (h : s.Backed) (hi : i.called ∈ s.system.bus.running) :
    (s.goOn i d pace reply cancels).Backed := by
  unfold Site.goOn
  split
  · exact h
  · exact (h.settle hi).cancelFor _ cancels
  · exact (h.forget i.id _).cancelFor _ cancels
  · split
    · exact h.settle hi
    · split
      · exact h.attempt hi
      · exact h
  · exact h.settle hi

/-- A turn in a context that lives calls the handler of an invocation that has
no delivery yet. -/
theorem turn (h : s.Backed) (hi : i ∈ s.system.bus.running) :
    (s.turn i pace reply cancels).Backed := by
  unfold Site.turn
  split
  · exact h.forget i.id _
  · rename_i hlive hnone
    -- no delivery is the invocation's own, so all of them keep theirs
    have hentered : (s.move (.invocation i.id .pending)).Backed := by
      refine ⟨(System.apply_sound h.sound _).1, fun o ho => ?_⟩
      have hother : o.invocation.id ≠ i.id := by
        simpa using List.find?_eq_none.mp hnone o ho
      refine System.apply_others h.sound (h.running o ho) ?_
      rintro reply' hsame
      exact hother (Move.invocation.inj hsame).1.symm
    exact hentered.attempt (System.called_of_asked h.sound hi hlive)
  · rename_i o hlive ho
    exact h.goOn (h.running o (List.mem_of_find?_eq_some ho))

end Backed

/-- Deeds other than turns leave deliveries alone. -/
theorem apply_ongoing (s : Site) (hother : ∀ id pace reply cancels,
    deed ≠ .turn id pace reply cancels) : (s.apply deed).ongoing = s.ongoing := by
  cases deed with
  | bus m =>
      simp only [apply]
      split <;> rfl
  | read key handler options =>
      simp only [apply]
      split <;> rfl
  | publish author key content => exact (send_sent (single_faithful key content)).ongoing
  | publishBatch author items => exact (send_sent (batch_faithful items)).ongoing
  | turn id pace reply cancels => exact absurd rfl (hother id pace reply cancels)
  | _ => rfl

/-- Every deed keeps deliveries and their invocations together. -/
theorem Backed.apply (h : s.Backed) (deed : Deed) : (s.apply deed).Backed := by
  by_cases hturn : ∃ id pace reply cancels, deed = .turn id pace reply cancels
  · obtain ⟨id, pace, reply, cancels, rfl⟩ := hturn
    simp only [Site.apply]
    split
    · rename_i i hi
      exact h.turn (List.mem_of_find?_eq_some hi)
    · exact h
  · refine h.moved (s.movesOf deed) (s.apply_system deed) (s.apply_ongoing ?_) ?_
    · rintro id pace reply cancels rfl
      exact hturn ⟨id, pace, reply, cancels, rfl⟩
    · intro id reply hmem
      obtain ⟨i, -, pace, reply, cancels, hdeed⟩ := turn_of_mem hmem
      exact hturn ⟨i.id, pace, reply, cancels, hdeed⟩

/-- So does every run. -/
theorem Backed.run (h : s.Backed) (deeds : List Deed) : (s.run deeds).Backed := by
  induction deeds generalizing s with
  | nil => exact h
  | cons deed deeds ih => exact ih (h.apply deed)

theorem settle_attempts : (s.settle i d).attempts = s.attempts := by
  unfold settle
  split <;> rfl

theorem cancelFor_attempts : (s.cancelFor arrival cancels).attempts = s.attempts := by
  cases cancels <;> rfl

/-- A delivery that goes on makes another attempt at most. -/
theorem goOn_attempts : (s.goOn i d pace reply cancels).attempts = s.attempts ∨
    ∃ a : Attempt, a.invocation = i ∧
      (s.goOn i d pace reply cancels).attempts = s.attempts ++ [a] := by
  unfold goOn
  split
  · exact .inl rfl
  · exact .inl (cancelFor_attempts.trans settle_attempts)
  · exact .inl cancelFor_attempts
  · split
    · exact .inl settle_attempts
    · split
      · exact .inr ⟨_, rfl, settle_attempts⟩
      · exact .inl rfl
  · exact .inl settle_attempts

/-- At its turn, an invocation makes an attempt only in a context that
lives. -/
theorem turn_attempts : ∃ new, (s.turn i pace reply cancels).attempts = s.attempts ++ new ∧
    ∀ a ∈ new, a.invocation.id = i.id ∧ s.system.ambient.err i.ctx = none := by
  unfold turn
  split
  · exact ⟨[], (List.append_nil _).symm, by simp⟩
  · rename_i hlive hnone
    exact ⟨_, settle_attempts, by simpa using hlive⟩
  · rename_i o hlive ho
    have hid : o.invocation.id = i.id := by simpa using List.find?_some ho
    rcases goOn_attempts (s := s) with hsame | ⟨a, ha, hnew⟩
    · exact ⟨[], hsame.trans (List.append_nil _).symm, by simp⟩
    · exact ⟨[a], hnew, by simpa [ha, hid] using hlive⟩

/-- Attempts are made for running invocations, in contexts that live. -/
theorem Step.attempts_live (h : s.Step s') : ∃ new, s'.attempts = s.attempts ++ new ∧
    ∀ a ∈ new, ∃ i ∈ s.system.bus.running, i.id = a.invocation.id ∧
      s.system.ambient.err i.ctx = none := by
  have hnone : s.attempts = s.attempts ++ [] := (List.append_nil _).symm
  cases h with
  | @turn i hi pace reply cancels =>
      obtain ⟨new, hattempts, hnew⟩ := turn_attempts (s := s)
      exact ⟨new, hattempts, fun a ha => ⟨i, hi, (hnew a ha).1.symm, (hnew a ha).2⟩⟩
  | send hsent => exact ⟨[], hsent.attempts.trans hnone, by simp⟩
  | moved hsystem => exact ⟨[], hnone, by simp⟩
  | arranged hkept hnodes => exact ⟨[], hnone, by simp⟩

/-- An invocation whose handler has been called ends with its delivery, in a
context that lives. -/
theorem returned_endMoves {b : System} (hsound : b.bus.Sound) (hi : i.called ∈ b.bus.running)
    (hlive : b.ambient.err i.ctx = none) {outcome : Except Error Unit} :
    .ended i.id (.returned outcome) ∈ (b.run (endMoves i d)).2 ↔
      d.progress = .finished outcome := by
  cases hprogress : d.progress with
  | finished other =>
      simp only [endMoves, hprogress, System.run, List.append_nil,
        System.ended_of_returned hsound hi hlive other, Ending.returned.injEq,
        Progress.finished.injEq]
      exact eq_comm
  | _ => simp [endMoves, hprogress, System.run]

/-- Nothing is seen of a cancellation. -/
theorem seen_cancelMoves (b : System) (arrival : Arrival) (cancels : Bool) :
    (b.run (cancelMoves arrival cancels)).2 = [] := by
  cases cancels <;> rfl

/-- The same where its delivery goes on. -/
theorem returned_goOnMoves (h : s.Backed) (hi : i.called ∈ s.system.bus.running)
    (hlive : s.system.ambient.err i.ctx = none) {outcome : Except Error Unit} :
    .ended i.id (.returned outcome) ∈
        (s.system.run (s.goOnMoves i d pace reply cancels)).2 ↔
      (s.proceed i d pace reply cancels).progress = .finished outcome := by
  have hends (d : Delivery) : .ended i.id (.returned outcome) ∈ (s.system.run (endMoves i d)).2 ↔
      d.progress = .finished outcome := returned_endMoves h.sound hi hlive
  cases hprogress : d.progress with
  | handling arrival frames =>
      cases reply with
      | pending => simp [goOnMoves, proceed, hprogress, System.run]
      | returned result =>
          simp only [goOnMoves, hprogress, System.run_append, seen_cancelMoves,
            List.append_nil, hends]
      | collapsed =>
          have hknows : s.system.bus.Knows i := h.sound.knows hi rfl
          have hreply (result : Except Error Unit) : Bus.Reply.collapsed ≠ .returned result := by simp
          have hnot := System.not_returned h.sound hknows hreply outcome
          simp [goOnMoves, proceed, hprogress, System.run_cons, seen_cancelMoves, hnot]
  | pausing until_ failure attempts frames =>
      simp only [goOnMoves, hprogress, hends]
  | finished other =>
      simp only [goOnMoves, hprogress, hends]

/-- **An invocation ends with its delivery**, at a turn in a context that
lives. -/
theorem turn_returned (h : s.Backed) (hi : i ∈ s.system.bus.running)
    (hlive : s.system.ambient.err i.ctx = none) {outcome : Except Error Unit} :
    .ended i.id (.returned outcome) ∈ (s.system.run (s.turnMoves i pace reply cancels)).2 ↔
      (s.deliveryAfter i pace reply cancels).progress = .finished outcome := by
  have hknows : s.system.bus.Knows i := h.sound.knows hi rfl
  cases hongoing : s.ongoing? i.id with
  | none =>
      have hreply (result : Except Error Unit) : Bus.Reply.pending ≠ .returned result := by simp
      have hnot := System.not_returned h.sound hknows hreply outcome
      have hcalled := System.called_of_asked h.sound hi hlive
      have hstill : (s.system.apply (.invocation i.id .pending)).1.ambient.err i.ctx = none := by
        rwa [System.ambient_of_asked]
      simp only [turnMoves, hlive, hongoing, System.run_cons, List.mem_append, hnot, false_or]
      exact returned_endMoves (System.apply_sound h.sound _).1 hcalled hstill
  | some o =>
      -- the invocation that the delivery began with is this one
      have hrunning := h.running o (List.mem_of_find?_eq_some hongoing)
      have hid : o.invocation.id = i.id := by simpa using List.find?_some hongoing
      have hctx : o.invocation.ctx = i.ctx := hknows.ctx_eq (j := o.invocation.called) hrunning hid
      simp only [turnMoves, deliveryAfter, hlive, hongoing]
      rw [← hid]
      exact returned_goOnMoves h hrunning (hctx ▸ hlive)

/-- The turn of a running invocation, as the site knows it. -/
theorem movesOf_turn (h : s.Backed) (hknows : s.system.bus.Knows i)
    (hruns : s.system.bus.Runs i.id) :
    ∃ j ∈ s.system.bus.running, j.called = i.called ∧
      s.movesOf (.turn i.id pace reply cancels) = s.turnMoves j pace reply cancels := by
  obtain ⟨j, hj, hid⟩ := hruns
  have hfound := hid ▸ System.invocation?_of_mem h.sound hj
  exact ⟨j, hj, hknows.same j hj hid, by simp only [movesOf, hfound]⟩

/-- An invocation that its bus knows is delivered as it should. -/
theorem delivered (h : s.Backed) (hknows : s.system.bus.Knows i) : i.Delivered s where
  attempts := fun deed => by
    obtain ⟨new, hattempts, hnew⟩ := (s.apply_step deed).attempts_live
    refine ⟨new, hattempts, fun a ha hid => ?_⟩
    obtain ⟨j, hj, hjid, hlive⟩ := hnew a ha
    rwa [hknows.ctx_eq hj (hjid.trans hid)] at hlive
  interrupted := fun hruns e he pace reply cancels => by
    obtain ⟨j, hj, hsame, hmoves⟩ := movesOf_turn h hknows hruns
    have hid := Invocation.id_eq_of_called hsame
    have hended : s.system.ambient.err j.ctx = some e := Invocation.ctx_eq_of_called hsame ▸ he
    rw [seen, hmoves]
    simp only [turnMoves, hended, System.run, List.append_nil]
    exact hid ▸ System.interrupted_of_asked h.sound hknows hruns he .pending
  returned := fun hruns hlive pace reply cancels outcome => by
    obtain ⟨j, hj, hsame, hmoves⟩ := movesOf_turn h hknows hruns
    have hid := Invocation.id_eq_of_called hsame
    have hjlive : s.system.ambient.err j.ctx = none := Invocation.ctx_eq_of_called hsame ▸ hlive
    have hafter : s.deliveryAfter j.called pace reply cancels =
        s.deliveryAfter i.called pace reply cancels := by rw [hsame]
    rw [seen, hmoves, ← hid]
    exact hafter ▸ turn_returned h hj hjlive

/-- **No delivery outlives its time limit.**  An invocation that a bus has
begun runs no longer than until its limit, which is the end of its task's
timeout, or the deadline of the bus's context if that comes sooner, and not
beyond the cancellation of that context, as long as it is asked in time and
nobody cancels its own token.  Cut off, it ends with the reason of its
context; in time, with what its handler returns; and its permit comes back.
At a site, no attempt at its message is made after the end of its context,
whatever handlers and stages do, and in time it ends with the outcome of its
delivery. -/
theorem time_limit_run (config : BusConfig) (tokens : Tokens) (before after : List Move)
    (move : Move) (i : Invocation)
    (hbegun : .spawned i ∈ (((System.initial config tokens).run before).1.apply move).2)
    (hprompt : (((System.initial config tokens).run before).1.apply move).1.Prompt i after)
    (hspared : i.ctx.Spared
      ((System.initial config tokens).run (before ++ move :: after)).1.ambient.tokens) :
    let born := ((System.initial config tokens).run before).1
    let s := ((System.initial config tokens).run (before ++ move :: after)).1
    ∃ root, born.bus.root = some root ∧ s.bus.root = some root ∧
      i.Limited root born.ambient.now s ∧
      ∀ (hub : Hub Unit Unit) (deeds : List Deed),
        (initial hub config tokens).moves deeds = before ++ move :: after →
          ((initial hub config tokens).run deeds).system = s ∧
            i.Delivered ((initial hub config tokens).run deeds) := by
  intro born s
  have hsound : born.bus.Sound := System.sound_run config tokens before
  have hs : s = ((born.apply move).1.run after).1 := by
    simp only [s, System.run_append, System.run_cons, born]
  have hlimited := System.limited_run hsound hbegun hprompt (hs ▸ hspared)
  obtain ⟨root, hroot, hroot', hi⟩ := hlimited
  refine ⟨root, hroot, hs ▸ hroot', hs ▸ hi, fun hub deeds hmoves => ?_⟩
  have hsystem : ((initial hub config tokens).run deeds).system = s :=
    (run_system _ deeds).trans (by rw [hmoves]; rfl)
  have hknows : s.bus.Knows i := by
    rw [hs]
    exact System.run_knows (System.apply_sound hsound move).1
      (System.begun_of_apply hsound hbegun).2.1 after
  exact ⟨hsystem, delivered ((Backed.initial hub config tokens).run deeds) (hsystem ▸ hknows)⟩

/-- A hub that writes to its bus and reads from it, with room for eight
messages and two invocations. -/
def hurried : Site :=
  .initial
    { (Hub.blank "shop" : Hub Unit Unit) with
      writer := some ()
      readerDriver := some ()
      ids := ⟨fun _ => .ok "o-1", 0⟩ }
    ⟨8, 2⟩ ⟨2, []⟩

/-- A reader whose deliveries may take a millisecond and a half, and an order
that has been taken off the queue for it. -/
def orderTaken : List Deed :=
  [.setStreamByKey "orders" (.ofStream "orders"),
    .read "orders" "bill" { (.unset : ReaderOptions Unit) with timeout := some 1500000 },
    .launch, .bus (.start ⟨[0], none, none, none⟩),
    .publish (.outside ⟨[1], none, none, none⟩) "orders" (Json.null.content),
    .bus (.call 0), .bus .dispatcher]

/-- Its handler is called, and takes two milliseconds. -/
def handlerCalled : List Deed :=
  [.bus .dispatcher, .turn 0 (fun _ _ _ => 0) .pending false, .bus (.advance 2)]

/-- The handler is cut off then, whatever it has to say. -/
theorem time_limit_run_late :
    (hurried.run (orderTaken ++ handlerCalled)).system.ambient.now = 2 ∧
    ∀ pace reply cancels, .ended 0 (.interrupted .deadlineExceeded) ∈
      (hurried.run (orderTaken ++ handlerCalled)).seen (.turn 0 pace reply cancels) := by
  have hborn : ((System.initial ⟨8, 2⟩ ⟨2, []⟩).run (hurried.moves orderTaken)).1 =
      (hurried.run orderTaken).system := (run_system hurried orderTaken).symm
  have hlast : (hurried.run orderTaken).moves handlerCalled =
      [.dispatcher, .invocation 0 .pending, .advance 2] := rfl
  have hmoves : hurried.moves (orderTaken ++ handlerCalled) =
      hurried.moves orderTaken ++ .dispatcher :: [.invocation 0 .pending, .advance 2] :=
    (hurried.moves_append _ _).trans (congrArg _ hlast)
  have hsystem : ((System.initial ⟨8, 2⟩ ⟨2, []⟩).run
      (hurried.moves orderTaken ++ .dispatcher :: [.invocation 0 .pending, .advance 2])).1 =
        (hurried.run (orderTaken ++ handlerCalled)).system :=
    hmoves ▸ (run_system hurried _).symm
  obtain ⟨i, hspawned, hid, hctx⟩ : ∃ i,
      ((hurried.run orderTaken).system.apply .dispatcher).2 = [.spawned i] ∧ i.id = 0 ∧
        i.ctx = ⟨[2, 0], some 1500000, none, none⟩ := ⟨_, rfl, rfl, rfl⟩
  have hprompt : ((hurried.run orderTaken).system.apply .dispatcher).1.Prompt i
      [.invocation 0 .pending, .advance 2] := by
    have hasked : (((hurried.run orderTaken).system.apply .dispatcher).1.apply
          (.invocation 0 .pending)).1.apply (.invocation 0 .pending) =
        ((((hurried.run orderTaken).system.apply .dispatcher).1.apply
          (.invocation 0 .pending)).1, []) := rfl
    refine ⟨trivial, fun _ => ⟨hid ▸ hasked, fun time htime => ?_⟩, trivial⟩
    rw [hctx] at htime
    cases htime
    exact Nat.le_refl 2
  have hlaw := time_limit_run ⟨8, 2⟩ ⟨2, []⟩ (hurried.moves orderTaken)
    [.invocation 0 .pending, .advance 2] .dispatcher i
  rw [hborn, hspawned, hsystem] at hlaw
  have hspared : i.ctx.Spared
      (hurried.run (orderTaken ++ handlerCalled)).system.ambient.tokens :=
    fun token _ => List.not_mem_nil
  obtain ⟨root, -, -, -, hsite⟩ := hlaw List.mem_cons_self hprompt hspared
  obtain ⟨-, hdelivered⟩ := hsite _ _ hmoves
  have hended : (hurried.run (orderTaken ++ handlerCalled)).system.ambient.err i.ctx =
      some .deadlineExceeded := by
    have hnow : (hurried.run (orderTaken ++ handlerCalled)).system.ambient =
        ⟨2, ⟨3, []⟩⟩ := rfl
    rw [hnow, hctx]
    rfl
  have hruns : (hurried.run (orderTaken ++ handlerCalled)).system.bus.Runs i.id := by
    obtain ⟨k, hrunning, hkid⟩ : ∃ k,
        (hurried.run (orderTaken ++ handlerCalled)).system.bus.running = [k] ∧ k.id = 0 :=
      ⟨_, rfl, rfl⟩
    exact ⟨k, hrunning ▸ List.mem_cons_self, hkid.trans hid.symm⟩
  refine ⟨rfl, fun pace reply cancels => ?_⟩
  exact hid ▸ hdelivered.interrupted hruns _ hended pace reply cancels

end Site
end PubSub
