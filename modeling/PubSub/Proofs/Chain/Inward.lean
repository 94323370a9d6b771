import PubSub.Proofs.Chain.Unsent
import PubSub.Proofs.Outcome

/-!
# The way in and the way out

Every stage makes something of what it is given, unless it fails, and may
leave a frame.  So going in through stages comes to what they make of the
arrival, one after the other, and to the frames of those that were passed.
On the way out, an outcome is not touched: either it is what the delivery
comes to, or it is a failure after which an attempt is made again.

* `Stage.give`, `Stage.giveAll` — what stages make of an arrival;
* `Sight`, `Stage.entrances`, `Stage.seen` — what can be seen of it;
* `Stage.wayOut`, `Delivery.enter_eq`, `enter_notes` — going in, in one equation;
* `Delivery.leave_cases` — going out;
* `Delivery.enter_sight?`, `enter_entries` — what has become of going in.
-/

namespace PubSub

/-- What can be seen of a delivery from outside. -/
inductive Sight where
  /-- A stage is entered, with what it is given. -/
  | entered (stage : Stage) (given : Arrival)
  /-- The handler is called. -/
  | called (given : Arrival)
  /-- A stage could not restore the payload. -/
  | failed (e : Error)
  /-- The handler has returned. -/
  | answered (outcome : Except Error Unit)

namespace Stage

/-- The context in which a stage goes on. -/
def lead : Stage → Arrival → Context
  | .correlation, a => a.inFlow.ctx
  | _, a => a.ctx

/-- What a stage hands on of what it is given. -/
def give (stage : Stage) (a : Arrival) : Except Error Arrival :=
  (stage.pass a.message).map fun message => ⟨stage.lead a, message⟩

/-- What stages make of an arrival, one after the other. -/
def giveAll : List Stage → Arrival → Except Error Arrival
  | [], a => .ok a
  | stage :: stages, a => (stage.give a).bind (giveAll stages)

/-- The frame that a stage leaves before the stages that it leads to. -/
def frames (now : Nat) (stages : List Stage) (a : Arrival) : Stage → List Frame
  | .retry policy => [.retry ⟨policy, 1, now, stages, a⟩]
  | .logging name => [.logging (a.logSpan name)]
  | .tag name => [.tag name]
  | _ => []

/-- The frames of the stages that are passed, from the innermost. -/
def wayOut (now : Nat) : List Stage → Arrival → List Frame
  | [], _ => []
  | stage :: stages, a =>
      match stage.give a with
      | .ok given => wayOut now stages given ++ stage.frames now stages a
      | .error _ => []

/-- The stages that are entered, each with what it is given. -/
def entrances : List Stage → Arrival → List Sight
  | [], _ => []
  | stage :: stages, a =>
      .entered stage a ::
        match stage.give a with
        | .ok given => entrances stages given
        | .error _ => []

end Stage

/-- Has the handler returned? -/
def Sight.isAnswer : Sight → Bool
  | .answered _ => true
  | _ => false

/-- Where going in ends: at the handler, or at a stage that fails. -/
def Sight.arrived : Except Error Arrival → Sight
  | .ok given => .called given
  | .error e => .failed e

/-- What can be seen of going in. -/
def Stage.seen (stages : List Stage) (a : Arrival) : List Sight :=
  entrances stages a ++ [.arrived (giveAll stages a)]

/-- What is seen of a delivery that has gone in, by where it stands: the handler
was called, or a failure has turned it back. -/
def Progress.sight? : Progress → Option Sight
  | .handling given _ => some (.called given)
  | .pausing _ e _ _ => some (.failed e)
  | .finished (.error e) => some (.failed e)
  | .finished (.ok ()) => none

/-- Is it told that a tag is entered? -/
def Note.isEntry : Note → Bool
  | .entry _ => true
  | _ => false

/-- What a delivery tells when a stage is entered. -/
def Sight.notes : Sight → List Note
  | .entered (.tag name) given => [.entry (given.tagLine name)]
  | _ => []

namespace Stage

variable {stage : Stage} {stages inner : List Stage} {a given : Arrival} {now : Nat}

@[simp] theorem give_unmarshal (decoding : Decoding) (a : Arrival) :
    (unmarshal decoding).give a =
      (decoding.restore a.message).map fun message => { a with message } := rfl

@[simp] theorem give_group (name : String) (a : Arrival) :
    (group name).give a = .ok (a.inGroup name) := by
  rw [Arrival.inGroup_eq]
  rfl

@[simp] theorem give_correlation (a : Arrival) : correlation.give a = .ok a.inFlow := rfl

@[simp] theorem give_retry (policy : RetryPolicy) (a : Arrival) :
    (retry policy).give a = .ok a := rfl

@[simp] theorem give_logging (name : String) (a : Arrival) :
    (logging name).give a = .ok a := rfl

@[simp] theorem give_tag (name : String) (a : Arrival) : (tag name).give a = .ok a := rfl

/-- Restoring looks at the stream and the data, and sets the payload. -/
theorem give_unmarshal_eq (decoding : Decoding) (a : Arrival) :
    (unmarshal decoding).give a =
      match decoding.payload? a.message.stream a.message.data with
      | none => .ok a
      | some made =>
          made.map fun payload =>
            { a with message := { a.message with decoded := some payload } } := by
  rw [give_unmarshal, Decoding.restore_eq]
  rcases decoding.payload? a.message.stream a.message.data with _ | (e | payload) <;> rfl

/-- Only a stage that restores payloads can fail. -/
theorem give_error {e : Error} (h : stage.give a = .error e) :
    ∃ decoding, stage = .unmarshal decoding ∧ decoding.restore a.message = .error e := by
  cases stage with
  | unmarshal decoding =>
      refine ⟨decoding, rfl, ?_⟩
      rw [give_unmarshal] at h
      cases hrestore : decoding.restore a.message with
      | error e' =>
          rw [hrestore] at h
          exact congrArg Except.error (Except.error.inj h)
      | ok message =>
          rw [hrestore] at h
          cases h
  | group name => simp at h
  | correlation => simp at h
  | retry policy => simp at h
  | logging name => simp at h
  | tag name => simp at h

theorem giveAll_cons_ok (h : stage.give a = .ok given) :
    giveAll (stage :: stages) a = giveAll stages given := by
  simp only [giveAll, h, Except.bind]

theorem giveAll_cons_error {e : Error} (h : stage.give a = .error e) :
    giveAll (stage :: stages) a = .error e := by
  simp only [giveAll, h, Except.bind]

/-- Stages that are passed hand on from one to the next. -/
theorem of_giveAll_ok (h : giveAll (stage :: stages) a = .ok given) :
    ∃ next, stage.give a = .ok next ∧ giveAll stages next = .ok given := by
  rw [giveAll] at h
  exact of_bind_ok h

/-- If one of them fails, it is the first or a later one. -/
theorem of_giveAll_error {e : Error} (h : giveAll (stage :: stages) a = .error e) :
    stage.give a = .error e ∨ ∃ next, stage.give a = .ok next ∧ giveAll stages next = .error e := by
  cases hgive : stage.give a with
  | ok next => exact .inr ⟨next, rfl, (giveAll_cons_ok hgive).symm.trans h⟩
  | error e' => exact .inl ((giveAll_cons_error hgive).symm.trans h)

theorem wayOut_cons_ok (h : stage.give a = .ok given) :
    wayOut now (stage :: stages) a = wayOut now stages given ++ stage.frames now stages a := by
  simp only [wayOut, h]

theorem wayOut_cons_error {e : Error} (h : stage.give a = .error e) :
    wayOut now (stage :: stages) a = [] := by
  simp only [wayOut, h]

theorem entrances_cons_ok (h : stage.give a = .ok given) :
    entrances (stage :: stages) a = .entered stage a :: entrances stages given := by
  simp only [entrances, h]

theorem entrances_cons_error {e : Error} (h : stage.give a = .error e) :
    entrances (stage :: stages) a = [.entered stage a] := by
  simp only [entrances, h]

/-- Stages are entered, and nothing else is seen on the way. -/
theorem of_mem_entrances {s : Sight} (h : s ∈ entrances stages a) :
    ∃ stage ∈ stages, ∃ given, s = .entered stage given := by
  induction stages generalizing a with
  | nil => cases h
  | cons stage stages ih =>
      rcases List.mem_cons.mp h with rfl | hrest
      · exact ⟨stage, List.mem_cons_self, a, rfl⟩
      · split at hrest
        · obtain ⟨later, hlater, given, rfl⟩ := ih hrest
          exact ⟨later, List.mem_cons_of_mem _ hlater, given, rfl⟩
        · cases hrest

/-- So where no entering matters, only the end of going in does. -/
theorem seen_filter {f : Sight → Bool} (h : ∀ stage given, f (.entered stage given) = false)
    (stages : List Stage) (a : Arrival) :
    (seen stages a).filter f = [.arrived (giveAll stages a)].filter f := by
  have hentered : (entrances stages a).filter f = [] := by
    refine List.filter_eq_nil_iff.mpr fun s hs => ?_
    obtain ⟨stage, -, given, rfl⟩ := of_mem_entrances hs
    simp [h]
  rw [seen, List.filter_append, hentered, List.nil_append]

/-- On the way in, the handler does not return. -/
theorem seen_inward (stages : List Stage) (a : Arrival) :
    (seen stages a).filter (fun s => !s.isAnswer) = seen stages a := by
  refine List.filter_eq_self.mpr fun s hs => ?_
  rcases List.mem_append.mp hs with hentered | harrived
  · obtain ⟨stage, -, given, rfl⟩ := of_mem_entrances hentered
    rfl
  · rw [List.mem_singleton.mp harrived]
    cases giveAll stages a <;> rfl

theorem giveAll_append (stages inner : List Stage) (a : Arrival) :
    giveAll (stages ++ inner) a = (giveAll stages a).bind (giveAll inner) := by
  induction stages generalizing a with
  | nil => rfl
  | cons stage stages ih =>
      cases hgive : stage.give a with
      | ok given => simp only [List.cons_append, giveAll_cons_ok hgive, ih]
      | error e => simp only [List.cons_append, giveAll_cons_error hgive, Except.bind]

end Stage

namespace Delivery

variable {pace : Pace} {now drawn : Nat} {ended : Bool} {outcome : Except Error Unit}
  {stages : List Stage} {a given : Arrival} {frames : List Frame}

/-- Where a delivery stands when it has gone in, and what it tells if it is
turned back. -/
def reach (pace : Pace) (now : Nat) (ended : Bool) (drawn : Nat) (frames : List Frame) :
    Except Error Arrival → Delivery × List Note
  | .ok given => (⟨.handling given frames, drawn⟩, [])
  | .error e => leave pace now ended (.error e) drawn frames

/-- A stage that is passed hands on to the others, and leaves its frame. -/
theorem enter_cons_ok {stage : Stage} (h : stage.give a = .ok given) :
    enter pace now ended drawn (stage :: stages) a frames =
      ((enter pace now ended drawn stages given (stage.frames now stages a ++ frames)).1,
        (Sight.entered stage a).notes ++
          (enter pace now ended drawn stages given (stage.frames now stages a ++ frames)).2) := by
  cases stage with
  | unmarshal decoding =>
      rw [Stage.give_unmarshal] at h
      cases hrestore : decoding.restore a.message with
      | error e =>
          rw [hrestore] at h
          cases h
      | ok message =>
          rw [hrestore] at h
          cases h
          simp only [enter, hrestore]
          rfl
  | group name =>
      rw [Stage.give_group] at h
      cases h
      rfl
  | correlation =>
      cases h
      rfl
  | retry policy =>
      cases h
      rfl
  | logging name =>
      cases h
      rfl
  | tag name =>
      cases h
      rfl

/-- A stage that fails turns the delivery back. -/
theorem enter_cons_error {stage : Stage} {e : Error} (h : stage.give a = .error e) :
    enter pace now ended drawn (stage :: stages) a frames =
      leave pace now ended (.error e) drawn frames := by
  obtain ⟨decoding, rfl, hrestore⟩ := Stage.give_error h
  simp only [enter, hrestore]

/-- **Going in, in one equation**: the stages make what they make of the
arrival, and leave their frames. -/
theorem enter_eq (pace : Pace) (now : Nat) (ended : Bool) (drawn : Nat) (stages : List Stage)
    (a : Arrival) (frames : List Frame) :
    (enter pace now ended drawn stages a frames).1 =
      (reach pace now ended drawn (Stage.wayOut now stages a ++ frames)
        (Stage.giveAll stages a)).1 := by
  induction stages generalizing a frames with
  | nil => rfl
  | cons stage stages ih =>
      cases hgive : stage.give a with
      | ok given =>
          rw [enter_cons_ok hgive, ih, Stage.wayOut_cons_ok hgive, Stage.giveAll_cons_ok hgive,
            List.append_assoc]
      | error e =>
          rw [enter_cons_error hgive, Stage.wayOut_cons_error hgive,
            Stage.giveAll_cons_error hgive]
          rfl

/-- The tags among them tell that they are entered, and nothing else is told on
the way in. -/
theorem enter_notes (pace : Pace) (now : Nat) (ended : Bool) (drawn : Nat) (stages : List Stage)
    (a : Arrival) (frames : List Frame) :
    (enter pace now ended drawn stages a frames).2 =
      (Stage.entrances stages a).flatMap Sight.notes ++
        (reach pace now ended drawn (Stage.wayOut now stages a ++ frames)
          (Stage.giveAll stages a)).2 := by
  induction stages generalizing a frames with
  | nil => rfl
  | cons stage stages ih =>
      cases hgive : stage.give a with
      | ok given =>
          rw [enter_cons_ok hgive, Stage.wayOut_cons_ok hgive, Stage.giveAll_cons_ok hgive,
            Stage.entrances_cons_ok hgive, List.flatMap_cons, List.append_assoc,
            List.append_assoc]
          exact congrArg (_ ++ ·) (ih given _)
      | error e =>
          -- a stage that fails is no tag
          obtain ⟨decoding, rfl, -⟩ := Stage.give_error hgive
          rw [enter_cons_error hgive, Stage.wayOut_cons_error hgive,
            Stage.giveAll_cons_error hgive, Stage.entrances_cons_error hgive]
          rfl

/-- **Going out, an outcome is not touched**: it is what the delivery comes
to, or it is a failure after which a frame calls for another attempt. -/
theorem leave_cases (pace : Pace) (now : Nat) (ended : Bool) (outcome : Except Error Unit)
    (drawn : Nat) (frames : List Frame) :
    (leave pace now ended outcome drawn frames).1.progress = .finished outcome ∨
      ∃ passed attempts rest until_ e, frames = passed ++ .retry attempts :: rest ∧
        outcome = .error e ∧
        (leave pace now ended outcome drawn frames).1.progress =
          .pausing until_ e { attempts with number := attempts.number + 1 } rest := by
  induction frames generalizing drawn with
  | nil => exact .inl rfl
  | cons frame frames ih =>
      have hlater {drawn : Nat} (frame : Frame) :
          (leave pace now ended outcome drawn frames).1.progress = .finished outcome ∨
            ∃ passed attempts rest until_ e, frame :: frames = passed ++ .retry attempts :: rest ∧
              outcome = .error e ∧
              (leave pace now ended outcome drawn frames).1.progress =
                .pausing until_ e { attempts with number := attempts.number + 1 } rest := by
        refine (ih drawn).imp_right ?_
        rintro ⟨passed, attempts, rest, until_, e, rfl, houtcome, hpausing⟩
        exact ⟨frame :: passed, attempts, rest, until_, e, rfl, houtcome, hpausing⟩
      cases frame with
      | tag name => exact hlater (.tag name)
      | logging span => exact hlater (.logging span)
      | retry attempts =>
          cases outcome with
          | ok _ => exact hlater (.retry attempts)
          | error e =>
              simp only [leave]
              split
              · exact .inr ⟨[], attempts, frames, _, e, rfl, rfl, rfl⟩
              · split <;> exact hlater (.retry attempts)

/-- On the way out no tag is entered. -/
theorem leave_entries (pace : Pace) (now : Nat) (ended : Bool) (outcome : Except Error Unit)
    (drawn : Nat) (frames : List Frame) :
    (leave pace now ended outcome drawn frames).2.filter Note.isEntry = [] := by
  have hreport (frames : List Frame) : (reportOutcome outcome frames).isEntry = false := by
    cases outcome <;> rfl
  induction frames generalizing drawn with
  | nil => rfl
  | cons frame frames ih =>
      cases frame with
      | tag name => exact (List.filter_cons_of_neg (by simp [Note.isEntry])).trans (ih drawn)
      | logging span => exact (List.filter_cons_of_neg (by simp [hreport])).trans (ih drawn)
      | retry attempts =>
          cases outcome with
          | ok _ => exact ih drawn
          | error e =>
              simp only [leave]
              split
              · rfl
              · split
                · exact ih (drawn + 1)
                · exact (List.filter_cons_of_neg (by simp [report, Note.isEntry])).trans
                    (ih (drawn + 1))

/-- Where a delivery stands when it has gone in is what the stages have made of
the arrival. -/
theorem enter_sight? (pace : Pace) (now : Nat) (ended : Bool) (drawn : Nat) (stages : List Stage)
    (a : Arrival) (frames : List Frame) :
    (enter pace now ended drawn stages a frames).1.progress.sight? =
      some (.arrived (Stage.giveAll stages a)) := by
  rw [enter_eq]
  cases Stage.giveAll stages a with
  | ok given => rfl
  | error e =>
      change (leave pace now ended (.error e) drawn _).1.progress.sight? = _
      rcases leave_cases pace now ended (.error e) drawn (Stage.wayOut now stages a ++ frames) with
        hfinished | ⟨_, _, _, _, e', -, he, hpausing⟩
      · rw [hfinished]
        rfl
      · cases he
        rw [hpausing]
        rfl

/-- It stands at the handler exactly if they have handed something on to it. -/
theorem enter_handles_iff (pace : Pace) (now : Nat) (ended : Bool) (drawn : Nat)
    (stages : List Stage) (a : Arrival) (frames : List Frame) {given : Arrival} :
    (∃ left, (enter pace now ended drawn stages a frames).1.progress = .handling given left) ↔
      Stage.giveAll stages a = .ok given := by
  have hsight := enter_sight? pace now ended drawn stages a frames
  constructor
  · intro hhandling
    obtain ⟨left, hprogress⟩ := hhandling
    rw [hprogress] at hsight
    cases hgiven : Stage.giveAll stages a with
    | ok given' =>
        rw [hgiven] at hsight
        cases hsight
        rfl
    | error e =>
        rw [hgiven] at hsight
        cases hsight
  · intro hgiven
    rw [enter_eq, hgiven]
    exact ⟨_, rfl⟩

/-- The lines that tell of entered tags are those of the tags that are entered. -/
theorem enter_entries (pace : Pace) (now : Nat) (ended : Bool) (drawn : Nat) (stages : List Stage)
    (a : Arrival) (frames : List Frame) :
    (enter pace now ended drawn stages a frames).2.filter Note.isEntry =
      (Stage.entrances stages a).flatMap Sight.notes := by
  have hentries : ((Stage.entrances stages a).flatMap Sight.notes).filter Note.isEntry =
      (Stage.entrances stages a).flatMap Sight.notes := by
    refine List.filter_eq_self.mpr fun note hnote => ?_
    obtain ⟨s, -, hs⟩ := List.mem_flatMap.mp hnote
    unfold Sight.notes at hs
    split at hs
    · rw [List.mem_singleton.mp hs]
      rfl
    · cases hs
  rw [enter_notes, List.filter_append, hentries]
  cases Stage.giveAll stages a with
  | ok given => exact List.append_nil _
  | error e => rw [reach, leave_entries, List.append_nil]

end Delivery
end PubSub
