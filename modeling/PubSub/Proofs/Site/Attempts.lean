import PubSub.Proofs.Chain.Inherited
import PubSub.Proofs.Site.Steps

/-!
# What attempts start from

A property of stages and arrivals that holds where an invocation begins,
and that every stage hands on, holds wherever an attempt of the
invocation goes in, the first one or a repeated one.

* `Attempt.GoesIn` — the property, where an attempt goes in;
* `Site.Follows`, `Step.follows` — the property, for all deliveries of a
  site;
* `GoesIn.arrival`, `GoesIn.handling` — what it says of the handler.
-/

namespace PubSub

/-- The attempt goes in through stages, with an arrival, for which the
property holds. -/
def Attempt.GoesIn (P : List Stage → Arrival → Prop) (a : Attempt) : Prop :=
  ∃ pace now drawn stages arrival frames, P stages arrival ∧ (∀ f ∈ frames, f.Holds P) ∧
    a.upshot = (Delivery.enter pace now false drawn stages arrival frames).1.progress

namespace Attempt.GoesIn

variable {P : List Stage → Arrival → Prop} {a : Attempt}

/-- Where the attempt has gone in, the property holds. -/
theorem holds (hP : Inherited P) (h : a.GoesIn P) : a.upshot.Holds P := by
  obtain ⟨pace, now, drawn, stages, arrival, frames, hstart, hframes, hupshot⟩ := h
  rw [hupshot]
  exact Delivery.enter_holds hP hstart hframes

/-- What the handler is given has the property. -/
theorem arrival (hP : Inherited P) (h : a.GoesIn P) {arrival : Arrival}
    (harrival : a.arrival? = some arrival) : P [] arrival := by
  have hholds := h.holds hP
  unfold arrival? at harrival
  cases hupshot : a.upshot with
  | handling given frames =>
      rw [hupshot] at harrival hholds
      cases harrival
      exact hholds.1
  | _ => simp [hupshot] at harrival

/-- When every payload on the way can be restored, the attempt reaches the
handler. -/
theorem handling (hP : Inherited P) (h : a.GoesIn P)
    (hrestores : ∀ {decoding stages a}, P (.unmarshal decoding :: stages) a →
      ∃ message, decoding.restore a.message = .ok message) :
    ∃ arrival frames, a.upshot = .handling arrival frames ∧ P [] arrival := by
  obtain ⟨pace, now, drawn, stages, arrival, frames, hstart, -, hupshot⟩ := h
  rw [hupshot]
  exact Delivery.enter_handling hP hstart hrestores

end Attempt.GoesIn

namespace Site

/-- The property of an invocation holds wherever its delivery may go on,
and where its attempts have gone in. -/
structure Follows (P : Invocation → List Stage → Arrival → Prop) (s : Site) : Prop where
  ongoing : ∀ o ∈ s.ongoing, o.delivery.progress.Holds (P o.invocation)
  attempts : ∀ a ∈ s.attempts, a.GoesIn (P a.invocation)

variable {P : Invocation → List Stage → Arrival → Prop} {s s' : Site} {i : Invocation}
  {d : Delivery} {pace : Pace} {reply : Bus.Reply} {cancels : Bool}

namespace Follows

/-- There is nothing at the beginning. -/
theorem initial (hub : Hub Unit Unit) (config : BusConfig) (tokens : Tokens) :
    (Site.initial hub config tokens).Follows P :=
  ⟨by simp [Site.initial], by simp [Site.initial]⟩

/-- Deliveries and attempts are all that counts. -/
theorem congr (h : s.Follows P) (hongoing : s'.ongoing = s.ongoing)
    (hattempts : s'.attempts = s.attempts) : s'.Follows P :=
  ⟨hongoing ▸ h.ongoing, hattempts ▸ h.attempts⟩

theorem move (h : s.Follows P) (m : Move) : (s.move m).Follows P := h.congr rfl rfl

theorem forget (h : s.Follows P) (id : Nat) : (s.forget id).Follows P :=
  ⟨fun o ho => h.ongoing o (List.mem_of_mem_filter ho), h.attempts⟩

theorem cancelFor (h : s.Follows P) (arrival : Arrival) (cancels : Bool) :
    (s.cancelFor arrival cancels).Follows P := by
  unfold Site.cancelFor
  split
  · exact h.move _
  · exact h

theorem settle (h : s.Follows P) (hd : d.progress.Holds (P i)) : (s.settle i d).Follows P := by
  unfold Site.settle
  split
  · exact (h.move _).forget i.id
  · refine ⟨?_, h.attempts⟩
    intro o ho
    rcases List.mem_cons.mp ho with rfl | ho
    · exact hd
    · exact h.ongoing o (List.mem_of_mem_filter ho)

theorem attempt (h : s.Follows P) (hP : Inherited (P i))
    (ha : Attempt.GoesIn (P i) ⟨i, d.progress⟩) : (s.attempt i d).Follows P := by
  refine settle (s := { s with attempts := s.attempts ++ [⟨i, d.progress⟩] }) ?_ (ha.holds hP)
  refine ⟨h.ongoing, ?_⟩
  intro a hmem
  rcases List.mem_append.mp hmem with hold | hnew
  · exact h.attempts a hold
  · rw [List.mem_singleton.mp hnew]
    exact ha

/-- A delivery goes on: an outcome only goes out, and another attempt goes
in where a frame says so. -/
theorem goOn (h : s.Follows P) (hP : Inherited (P i)) (hd : d.progress.Holds (P i)) :
    (s.goOn i d pace reply cancels).Follows P := by
  unfold Site.goOn
  split
  · exact h
  · exact (h.settle (Delivery.returned_holds hd)).cancelFor _ cancels
  · exact ((h.move _).forget i.id).cancelFor _ cancels
  · rename_i until_ failure attempts frames hprogress
    rw [hprogress] at hd
    split
    · exact h.settle (Delivery.giveUp_holds (hprogress ▸ hd))
    · split
      · refine h.attempt hP ⟨pace, s.system.ambient.now, d.drawn, attempts.inner,
          attempts.arrival, .retry attempts :: frames, hd.1, ?_, ?_⟩
        · rw [List.forall_mem_cons]
          exact ⟨hd.1, hd.2⟩
        · simp only [Delivery.resume, hprogress]
      · exact h
  · exact h.settle hd

/-- A turn keeps the property if it holds where the invocation begins. -/
theorem turn (h : s.Follows P) (hP : ∀ i, Inherited (P i))
    (hstart : P i i.task.target.stages ⟨i.ctx, i.message⟩) :
    (s.turn i pace reply cancels).Follows P := by
  unfold Site.turn
  split
  · exact (h.move _).forget i.id
  · exact (h.move _).attempt (hP i)
      ⟨pace, s.system.ambient.now, 0, i.task.target.stages, ⟨i.ctx, i.message⟩, [], hstart,
        by simp, rfl⟩
  · rename_i o hlive ho
    exact h.goOn (hP o.invocation) (h.ongoing o (List.mem_of_find?_eq_some ho))

/-- A step keeps the property if it holds where invocations begin. -/
theorem step (h : s.Follows P) (hP : ∀ i, Inherited (P i))
    (hstart : ∀ i ∈ s.system.bus.running, P i i.task.target.stages ⟨i.ctx, i.message⟩)
    (hstep : s.Step s') : s'.Follows P := by
  cases hstep with
  | turn hi pace reply cancels => exact h.turn hP (hstart _ hi)
  | send hsent => exact h.congr hsent.ongoing hsent.attempts
  | moved hsystem => exact h.congr rfl rfl
  | arranged hkept hnodes => exact h.congr rfl rfl

/-- So does a run, if it holds wherever an invocation may begin. -/
theorem run (h : s.Follows P) (hP : ∀ i, Inherited (P i))
    (hstart : ∀ i, P i i.task.target.stages ⟨i.ctx, i.message⟩) (deeds : List Deed) :
    (s.run deeds).Follows P := by
  induction deeds generalizing s with
  | nil => exact h
  | cons deed deeds ih =>
      exact ih (h.step hP (fun i _ => hstart i) (s.apply_step deed))

end Follows
end Site
end PubSub
