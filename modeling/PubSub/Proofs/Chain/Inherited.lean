import PubSub.Chain.Delivery

/-!
# What attempts hand on

All that a delivery ever enters is kept in its frames: the stages that a
repeated attempt begins with, and the arrival it gives them.  A property
of stages and arrival that holds at the start and that every stage hands
on to the stages after it therefore holds of every attempt, however many
there are and however they end.

* `Decoding.restore_frame` — what restoring a payload leaves alone;
* `Inherited` — a property that every stage hands on;
* `Delivery.Holds` — the property, wherever a delivery may go on;
* `enter_holds`, `leave_holds` — going in and going out keep it;
* `enter_handling` — an attempt in which nothing can fail before the
  handler.
-/

namespace PubSub

/-- Restoring a payload leaves the rest of a message as it is. -/
theorem Decoding.restore_frame {decoding : Decoding} {m m' : Message}
    (h : decoding.restore m = .ok m') : ∃ decoded, m' = { m with decoded } := by
  unfold restore at h
  split at h
  · cases h
    exact ⟨m.decoded, rfl⟩
  · rename_i entry hentry
    split at h
    · cases h
      exact ⟨m.decoded, rfl⟩
    · rename_i type htype
      cases hp : decoding.payload entry type m.data with
      | error e => simp [hp, bind, Except.bind] at h
      | ok payload =>
          simp only [hp, bind, Except.bind, Except.ok.injEq] at h
          exact ⟨some payload, h.symm⟩

/-- A property of stages that are still to be entered and of what they are
given, which every stage hands on to the stages after it. -/
structure Inherited (P : List Stage → Arrival → Prop) : Prop where
  unmarshal : ∀ {decoding stages a message}, P (.unmarshal decoding :: stages) a →
    decoding.restore a.message = .ok message → P stages { a with message }
  group : ∀ {name stages a}, P (.group name :: stages) a → P stages (a.inGroup name)
  correlation : ∀ {stages a}, P (.correlation :: stages) a → P stages a.inFlow
  retry : ∀ {policy stages a}, P (.retry policy :: stages) a → P stages a
  logging : ∀ {group stages a}, P (.logging group :: stages) a → P stages a
  tag : ∀ {name stages a}, P (.tag name :: stages) a → P stages a

/-- A property under a condition that no stage touches. -/
theorem Inherited.of_imp {P : List Stage → Arrival → Prop} {c : Prop} (hP : Inherited P) :
    Inherited fun stages a => c → P stages a where
  unmarshal h hrestore hc := hP.unmarshal (h hc) hrestore
  group h hc := hP.group (h hc)
  correlation h hc := hP.correlation (h hc)
  retry h hc := hP.retry (h hc)
  logging h hc := hP.logging (h hc)
  tag h hc := hP.tag (h hc)

/-- The property holds of what a frame repeats. -/
def Frame.Holds (P : List Stage → Arrival → Prop) : Frame → Prop
  | .retry a => P a.inner a.arrival
  | _ => True

/-- The property holds where a delivery stands, and wherever it may begin
again. -/
def Progress.Holds (P : List Stage → Arrival → Prop) : Progress → Prop
  | .handling arrival frames => P [] arrival ∧ ∀ f ∈ frames, f.Holds P
  | .pausing _ _ attempts frames => P attempts.inner attempts.arrival ∧ ∀ f ∈ frames, f.Holds P
  | .finished _ => True

namespace Delivery

variable {P : List Stage → Arrival → Prop} {pace : Pace} {now drawn : Nat} {ended : Bool}
  {outcome : Except Error Unit} {stages : List Stage} {arrival : Arrival} {frames : List Frame}
  {d : Delivery}

/-- Going out enters nothing new. -/
theorem leave_holds (hframes : ∀ f ∈ frames, f.Holds P) :
    (leave pace now ended outcome drawn frames).1.progress.Holds P := by
  induction frames generalizing drawn with
  | nil => trivial
  | cons frame frames ih =>
      have hrest : ∀ f ∈ frames, f.Holds P := fun f hf => hframes f (List.mem_cons_of_mem _ hf)
      cases frame with
      | tag name => exact ih hrest
      | logging span => exact ih hrest
      | retry a =>
          cases outcome with
          | ok _ => exact ih hrest
          | error e =>
              simp only [leave]
              split
              · exact ⟨hframes (.retry a) List.mem_cons_self, hrest⟩
              · split <;> exact ih hrest

/-- Going in hands the property on from stage to stage. -/
theorem enter_holds (hP : Inherited P) (h : P stages arrival)
    (hframes : ∀ f ∈ frames, f.Holds P) :
    (enter pace now ended drawn stages arrival frames).1.progress.Holds P := by
  induction stages generalizing arrival frames with
  | nil => exact ⟨h, hframes⟩
  | cons stage stages ih =>
      cases stage with
      | unmarshal decoding =>
          simp only [enter]
          split
          · rename_i message hrestore
            exact ih (hP.unmarshal h hrestore) hframes
          · exact leave_holds hframes
      | group name => exact ih (hP.group h) hframes
      | correlation => exact ih (hP.correlation h) hframes
      | retry policy =>
          refine ih (hP.retry h) ?_
          intro f hf
          rcases List.mem_cons.mp hf with rfl | hf
          · exact hP.retry h
          · exact hframes f hf
      | logging group =>
          refine ih (hP.logging h) ?_
          intro f hf
          rcases List.mem_cons.mp hf with rfl | hf
          · trivial
          · exact hframes f hf
      | tag name =>
          refine ih (hP.tag h) ?_
          intro f hf
          rcases List.mem_cons.mp hf with rfl | hf
          · trivial
          · exact hframes f hf

/-- The handler returns. -/
theorem returned_holds (h : d.progress.Holds P) :
    (d.returned pace now ended outcome).1.progress.Holds P := by
  unfold returned
  cases hd : d.progress with
  | handling arrival frames =>
      rw [hd] at h
      exact leave_holds h.2
  | pausing until_ failure attempts frames =>
      rw [hd] at h
      simp only [hd]
      exact h
  | finished outcome => simp only [hd, Progress.Holds]

/-- The context ends during a pause. -/
theorem giveUp_holds (h : d.progress.Holds P) :
    (d.giveUp pace now).1.progress.Holds P := by
  unfold giveUp
  cases hd : d.progress with
  | handling arrival frames =>
      rw [hd] at h
      simp only [hd]
      exact h
  | pausing until_ failure attempts frames =>
      rw [hd] at h
      exact leave_holds h.2
  | finished outcome => simp only [hd, Progress.Holds]

/-- When every payload on the way can be restored, an attempt reaches the
handler. -/
theorem enter_handling (hP : Inherited P) (h : P stages arrival)
    (hrestores : ∀ {decoding stages a}, P (.unmarshal decoding :: stages) a →
      ∃ message, decoding.restore a.message = .ok message) :
    ∃ arrival' frames', (enter pace now ended drawn stages arrival frames).1.progress =
      .handling arrival' frames' ∧ P [] arrival' := by
  induction stages generalizing arrival frames with
  | nil => exact ⟨arrival, frames, rfl, h⟩
  | cons stage stages ih =>
      cases stage with
      | unmarshal decoding =>
          obtain ⟨message, hrestore⟩ := hrestores h
          simp only [enter, hrestore]
          exact ih (hP.unmarshal h hrestore)
      | group name => exact ih (hP.group h)
      | correlation => exact ih (hP.correlation h)
      | retry policy => exact ih (hP.retry h)
      | logging group => exact ih (hP.logging h)
      | tag name => exact ih (hP.tag h)

end Delivery
end PubSub
