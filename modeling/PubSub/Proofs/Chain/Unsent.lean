import PubSub.Catalogue
import PubSub.Hub.Basic
import PubSub.Proofs.Chain.Inherited

/-!
# Fields that do not travel

The payload and the group of a message are filled in by the reading side.
A message may carry them nevertheless, left by an earlier delivery.  No
stage looks at them, so two messages that are equal on the wire are
delivered in lockstep; and what the handler gets is made anew from the
message in every attempt.  What was left is covered up wherever a stage has
something to put in its place, and only there.

* `Message.onWire` — the part of a message that travels;
* `Decoding.payload?` — what a stage makes of data, if the stream has a type;
* `Stage.pass`, `passAll` — what stages make of a message;
* `Cue`, `Delivery.play` — deliveries, told what happens outside;
* `Delivery.bare`, `enter_bare`, `leave_bare` — deliveries in lockstep;
* `Hub.delivers_alike` — when the handler sees the same;
* `Hub.delivers_alike_fails_stale` — what it may see otherwise.
-/

namespace PubSub

/-- The part of a message that travels. -/
def Message.onWire (m : Message) : Message := { m with decoded := none, group := none }

@[simp] theorem Message.onWire_stream (m : Message) : m.onWire.stream = m.stream := rfl
@[simp] theorem Message.onWire_data (m : Message) : m.onWire.data = m.data := rfl

namespace Decoding

/-- The payload in the data of a stream, unless the stream is not known or
has no type. -/
def payload? (d : Decoding) (stream : String) (data : Bytes) : Option (Except Error Payload) :=
  match d.registry.resolve stream with
  | .error _ => none
  | .ok m => m.type.map fun type => d.payload m type data

/-- Restoring looks at the stream and the data only. -/
theorem restore_eq (d : Decoding) (m : Message) :
    d.restore m = match d.payload? m.stream m.data with
      | none => .ok m
      | some made => made.map fun payload => { m with decoded := some payload } := by
  unfold restore payload?
  cases d.registry.resolve m.stream with
  | error e => rfl
  | ok found =>
      cases htype : found.type with
      | none => simp only [htype, Option.map_none]
      | some type =>
          simp only [htype, Option.map_some]
          cases d.payload found type m.data <;> rfl

/-- A message that was restored has the payload of its data, if its stream has
a type, and is the same otherwise. -/
theorem restore_ok {d : Decoding} {m m' : Message} (hrestore : d.restore m = .ok m') :
    m'.onWire = m.onWire ∧ m'.group = m.group ∧
      (d.payload? m.stream m.data = none → m'.decoded = m.decoded) ∧
      ∀ made, d.payload? m.stream m.data = some made →
        ∃ payload, made = .ok payload ∧ m'.decoded = some payload := by
  rw [restore_eq] at hrestore
  rcases hmade : d.payload? m.stream m.data with _ | (e | payload) <;>
    simp only [hmade, Except.map, reduceCtorEq, Except.ok.injEq] at hrestore <;> subst hrestore
  · exact ⟨rfl, rfl, fun _ => rfl, nofun⟩
  · refine ⟨rfl, rfl, nofun, ?_⟩
    rintro _ ⟨⟩
    exact ⟨payload, rfl, rfl⟩

/-- Restoring does not tell messages apart that are equal on the wire. -/
theorem restore_onWire (d : Decoding) {m₁ m₂ : Message} (hwire : m₁.onWire = m₂.onWire) :
    (d.restore m₁).map Message.onWire = (d.restore m₂).map Message.onWire := by
  have hsame : d.payload? m₁.stream m₁.data = d.payload? m₂.stream m₂.data := by
    rw [← m₁.onWire_stream, ← m₁.onWire_data, hwire, m₂.onWire_stream, m₂.onWire_data]
  have hok : (Except.ok m₁.onWire : Except Error Message) = .ok m₂.onWire := by rw [hwire]
  rw [restore_eq, restore_eq, hsame]
  rcases d.payload? m₂.stream m₂.data with _ | (e | payload)
  · exact hok
  · rfl
  · exact hok

end Decoding

/-- The message with a reader's group, unless that is empty. -/
def Message.inGroup (m : Message) (group : String) : Message :=
  { m with group := if group = "" then m.group else some group }

theorem Arrival.inGroup_eq (a : Arrival) (group : String) :
    a.inGroup group = { a with message := a.message.inGroup group } := by
  unfold inGroup Message.inGroup
  split <;> rfl

@[simp] theorem Message.inGroup_onWire (m : Message) (group : String) :
    (m.inGroup group).onWire = m.onWire := rfl

namespace Stage

/-- What a stage makes of a message. -/
def pass : Stage → Message → Except Error Message
  | .unmarshal decoding, m => decoding.restore m
  | .group name, m => .ok (m.inGroup name)
  | _, m => .ok m

/-- What stages make of a message, one after the other. -/
def passAll : List Stage → Message → Except Error Message
  | [], m => .ok m
  | stage :: stages, m => (stage.pass m).bind (passAll stages)

/-- What is still to be made of a message on its way stays the same. -/
theorem passAll_inherited (made : Except Error Message) :
    Inherited fun stages a => passAll stages a.message = made where
  unmarshal h hrestore := by simpa [passAll, pass, hrestore, Except.bind] using h
  group h := by simpa [passAll, pass, Arrival.inGroup_eq, Except.bind] using h
  correlation h := h
  retry h := h
  logging h := h
  tag h := h

end Stage

/-- Something that happens to a delivery.  A handler answers to what it was
given. -/
inductive Cue where
  | returned (now : Nat) (ended : Bool) (answer : Arrival → Except Error Unit)
  | resume (now : Nat) (ended : Bool)
  | giveUp (now : Nat)

namespace Delivery

variable {pace : Pace} {now drawn : Nat} {ended : Bool} {outcome : Except Error Unit}
  {stages : List Stage} {d d₁ d₂ : Delivery} {a a₁ a₂ : Arrival} {frames frames₁ frames₂ : List Frame}
  {cue : Cue} {cues : List Cue}

/-- The delivery after a cue. -/
def follow (pace : Pace) (d : Delivery) : Cue → Delivery
  | .returned now ended answer =>
      match d.progress with
      | .handling arrival _ => (d.returned pace now ended (answer arrival)).1
      | _ => d
  | .resume now ended => (d.resume pace now ended).1
  | .giveUp now => (d.giveUp pace now).1

/-- The delivery after many cues. -/
def play (pace : Pace) (d : Delivery) (cues : List Cue) : Delivery := cues.foldl (follow pace) d

/-- A delivery begins with what every stage hands on. -/
theorem begin_holds {P : List Stage → Arrival → Prop} (hP : Inherited P) (h : P stages a) :
    (begin pace now ended stages a).1.progress.Holds P :=
  enter_holds hP h (List.forall_mem_nil _)

/-- A cue keeps what every stage hands on. -/
theorem follow_holds {P : List Stage → Arrival → Prop} (hP : Inherited P)
    (h : d.progress.Holds P) : (d.follow pace cue).progress.Holds P := by
  cases cue with
  | returned now ended answer =>
      simp only [follow]
      split
      · exact returned_holds h
      · exact h
  | resume now ended =>
      simp only [follow, resume]
      cases hd : d.progress with
      | handling arrival frames => simpa only [hd] using h
      | finished outcome => simp only [hd, Progress.Holds]
      | pausing until_ failure attempts frames =>
          rw [hd] at h
          refine enter_holds hP h.1 fun f hf => ?_
          rcases List.mem_cons.mp hf with rfl | hf
          · exact h.1
          · exact h.2 f hf
  | giveUp now => exact giveUp_holds h

/-- So do many. -/
theorem play_holds {P : List Stage → Arrival → Prop} (hP : Inherited P)
    (h : d.progress.Holds P) : (d.play pace cues).progress.Holds P := by
  induction cues generalizing d with
  | nil => exact h
  | cons cue cues ih => exact ih (follow_holds hP h)

end Delivery

/-- The arrival with the part of its message that travels. -/
def Arrival.bare (a : Arrival) : Arrival := { a with message := a.message.onWire }

/-- The repeated attempt, as far as it is about what travels. -/
def Attempts.bare (a : Attempts) : Attempts := { a with arrival := a.arrival.bare }

/-- The frame, as far as it is about what travels. -/
def Frame.bare : Frame → Frame
  | .retry attempts => .retry attempts.bare
  | frame => frame

/-- Where a delivery stands, as far as it is about what travels. -/
def Progress.bare : Progress → Progress
  | .handling arrival frames => .handling arrival.bare (frames.map Frame.bare)
  | .pausing until_ failure attempts frames =>
      .pausing until_ failure attempts.bare (frames.map Frame.bare)
  | .finished outcome => .finished outcome

/-- The delivery, as far as it is about what travels. -/
def Delivery.bare (d : Delivery) : Delivery := { d with progress := d.progress.bare }

namespace Arrival

variable {a a₁ a₂ : Arrival}

@[simp] theorem bare_ctx (a : Arrival) : a.bare.ctx = a.ctx := rfl

/-- An arrival is known by its message and the rest of it. -/
theorem eq_of_bare (hbare : a₁.bare = a₂.bare)
    (hmessage : a₁.message = a₂.message) : a₁ = a₂ := by
  have hctx : a₁.ctx = a₂.ctx := by simpa using congrArg Arrival.ctx hbare
  cases a₁
  cases a₂
  cases hctx
  cases hmessage
  rfl

theorem bare_inGroup (h : a₁.bare = a₂.bare) (group : String) :
    (a₁.inGroup group).bare = (a₂.inGroup group).bare := by
  simpa [inGroup_eq, bare] using h

theorem bare_inFlow (h : a₁.bare = a₂.bare) : a₁.inFlow.bare = a₂.inFlow.bare :=
  congrArg inFlow h

theorem bare_logSpan (a : Arrival) (group : String) : a.bare.logSpan group = a.logSpan group := rfl

end Arrival

namespace Delivery

variable {pace : Pace} {now drawn : Nat} {ended : Bool} {outcome : Except Error Unit}
  {stages : List Stage} {d d₁ d₂ : Delivery} {a a₁ a₂ : Arrival} {frames frames₁ frames₂ : List Frame}
  {cue : Cue} {cues : List Cue}

@[simp] theorem bare_drawn (d : Delivery) : d.bare.drawn = d.drawn := rfl
@[simp] theorem bare_progress (d : Delivery) : d.bare.progress = d.progress.bare := rfl

/-- On the way out, no frame looks at what does not travel. -/
theorem leave_bare (frames : List Frame) (drawn : Nat) :
    (leave pace now ended outcome drawn frames).1.bare =
      (leave pace now ended outcome drawn (frames.map Frame.bare)).1 := by
  induction frames generalizing drawn with
  | nil => rfl
  | cons frame frames ih =>
      cases frame with
      | tag name => exact ih drawn
      | logging span => exact ih drawn
      | retry attempts =>
          cases outcome with
          | ok _ => exact ih drawn
          | error e =>
              have hpause : nextPause pace now ended attempts.bare drawn =
                nextPause pace now ended attempts drawn := rfl
              simp only [leave, List.map_cons, Frame.bare, hpause]
              split
              · rfl
              · split <;> exact ih (drawn + 1)

/-- On the way in, no stage does. -/
theorem enter_bare (harrival : a₁.bare = a₂.bare)
    (hframes : frames₁.map Frame.bare = frames₂.map Frame.bare) :
    (enter pace now ended drawn stages a₁ frames₁).1.bare =
      (enter pace now ended drawn stages a₂ frames₂).1.bare := by
  induction stages generalizing a₁ a₂ frames₁ frames₂ with
  | nil => simp only [enter, bare, Progress.bare, harrival, hframes]
  | cons stage stages ih =>
      cases stage with
      | unmarshal decoding =>
          -- both are restored, or both fail with the same error
          have hctx : a₁.ctx = a₂.ctx := by simpa using congrArg Arrival.ctx harrival
          have hrestore := decoding.restore_onWire (congrArg Arrival.message harrival)
          simp only [enter]
          cases h₁ : decoding.restore a₁.message with
          | error e =>
              cases h₂ : decoding.restore a₂.message with
              | error e' =>
                  simp only [h₁, h₂, Except.map, Except.error.injEq] at hrestore
                  rw [hrestore, leave_bare, leave_bare, hframes]
              | ok m₂ => simp [h₁, h₂, Except.map] at hrestore
          | ok m₁ =>
              cases h₂ : decoding.restore a₂.message with
              | error e => simp [h₁, h₂, Except.map] at hrestore
              | ok m₂ =>
                  simp only [h₁, h₂, Except.map, Except.ok.injEq] at hrestore
                  refine ih ?_ hframes
                  simp only [Arrival.bare, hctx, hrestore]
      | group name => exact ih (Arrival.bare_inGroup harrival name) hframes
      | correlation => exact ih (Arrival.bare_inFlow harrival) hframes
      | retry policy =>
          refine ih harrival ?_
          simp only [List.map_cons, Frame.bare, Attempts.bare, harrival, hframes]
      | logging group =>
          refine ih harrival ?_
          simp only [List.map_cons, Frame.bare, hframes]
          rw [← a₁.bare_logSpan, harrival, a₂.bare_logSpan]
      | tag name =>
          refine ih harrival ?_
          simp only [List.map_cons, Frame.bare, hframes]

/-- Two deliveries that agree on what travels stand at the same place. -/
theorem bare_cases (hbare : d₁.bare = d₂.bare) :
    (∃ a₁ frames₁ a₂ frames₂, d₁.progress = .handling a₁ frames₁ ∧
        d₂.progress = .handling a₂ frames₂ ∧ a₁.bare = a₂.bare ∧
        frames₁.map Frame.bare = frames₂.map Frame.bare) ∨
      (∃ until_ failure attempts₁ frames₁ attempts₂ frames₂,
        d₁.progress = .pausing until_ failure attempts₁ frames₁ ∧
        d₂.progress = .pausing until_ failure attempts₂ frames₂ ∧
        attempts₁.bare = attempts₂.bare ∧ frames₁.map Frame.bare = frames₂.map Frame.bare) ∨
      ∃ outcome, d₁.progress = .finished outcome ∧ d₂.progress = .finished outcome := by
  have hprogress : d₁.progress.bare = d₂.progress.bare := by
    simpa using congrArg Delivery.progress hbare
  cases h₁ : d₁.progress <;> cases h₂ : d₂.progress <;> rw [h₁, h₂] at hprogress <;>
    simp only [Progress.bare, reduceCtorEq] at hprogress
  case handling.handling a₁ frames₁ a₂ frames₂ =>
    obtain ⟨harrival, hframes⟩ := Progress.handling.inj hprogress
    exact .inl ⟨a₁, frames₁, a₂, frames₂, rfl, rfl, harrival, hframes⟩
  case pausing.pausing until₁ failure₁ attempts₁ frames₁ until₂ failure₂ attempts₂ frames₂ =>
    obtain ⟨rfl, rfl, hattempts, hframes⟩ := Progress.pausing.inj hprogress
    exact .inr (.inl ⟨until₁, failure₁, attempts₁, frames₁, attempts₂, frames₂, rfl, rfl,
      hattempts, hframes⟩)
  case finished.finished outcome₁ outcome₂ =>
    obtain rfl := Progress.finished.inj hprogress
    exact .inr (.inr ⟨outcome₁, rfl, rfl⟩)

/-- Two deliveries stay in lockstep as long as their handlers are given the
same. -/
theorem follow_bare (hbare : d₁.bare = d₂.bare)
    (hgiven : ∀ a₁ frames₁ a₂ frames₂, d₁.progress = .handling a₁ frames₁ →
      d₂.progress = .handling a₂ frames₂ → a₁.message = a₂.message) :
    (d₁.follow pace cue).bare = (d₂.follow pace cue).bare := by
  have hdrawn : d₁.drawn = d₂.drawn := by simpa using congrArg Delivery.drawn hbare
  rcases bare_cases hbare with ⟨a₁, frames₁, a₂, frames₂, h₁, h₂, harrival, hframes⟩ |
    ⟨until_, failure, attempts₁, frames₁, attempts₂, frames₂, h₁, h₂, hattempts, hframes⟩ |
    ⟨outcome, h₁, h₂⟩
  · -- the handlers were given the same, and answer alike
    obtain rfl := Arrival.eq_of_bare harrival (hgiven a₁ frames₁ a₂ frames₂ h₁ h₂)
    cases cue with
    | returned now ended answer =>
        simp only [follow, returned, h₁, h₂, leave_bare, hframes, hdrawn]
    | resume now ended => simpa only [follow, resume, h₁, h₂] using hbare
    | giveUp now => simpa only [follow, giveUp, h₁, h₂] using hbare
  · have hinner : attempts₁.inner = attempts₂.inner := congrArg (·.inner) hattempts
    cases cue with
    | returned now ended answer => simpa only [follow, h₁, h₂] using hbare
    | resume now ended =>
        simp only [follow, resume, h₁, h₂, hdrawn, hinner]
        refine enter_bare (congrArg (·.arrival) hattempts) ?_
        simp only [List.map_cons, Frame.bare, hattempts, hframes]
    | giveUp now => simp only [follow, giveUp, h₁, h₂, leave_bare, hframes, hdrawn]
  · cases cue with
    | returned now ended answer => simpa only [follow, h₁, h₂] using hbare
    | resume now ended => simpa only [follow, resume, h₁, h₂] using hbare
    | giveUp now => simpa only [follow, giveUp, h₁, h₂] using hbare

/-- Two deliveries in lockstep stay so when the stages make the same of their
messages. -/
theorem play_bare {made : Except Error Message} (hbare : d₁.bare = d₂.bare)
    (h₁ : d₁.progress.Holds fun stages a => Stage.passAll stages a.message = made)
    (h₂ : d₂.progress.Holds fun stages a => Stage.passAll stages a.message = made) :
    (d₁.play pace cues).bare = (d₂.play pace cues).bare := by
  induction cues generalizing d₁ d₂ with
  | nil => exact hbare
  | cons cue cues ih =>
      have hinherited := Stage.passAll_inherited made
      refine ih (follow_bare hbare fun a₁ frames₁ a₂ frames₂ hp₁ hp₂ => ?_)
        (follow_holds hinherited h₁) (follow_holds hinherited h₂)
      rw [hp₁] at h₁
      rw [hp₂] at h₂
      exact Except.ok.inj (h₁.1.trans h₂.1.symm)

end Delivery

namespace Hub

variable {ω δ : Type} {h : Hub ω δ} {stream handler : String} {options : ReaderOptions δ}

/-- The standard stages put the group of the node on a message, and then
restore its payload. -/
theorem passAll_standard (hstandard : h.behaviors = Behavior.standard) (m : Message) :
    Stage.passAll (h.fork stream handler options).target.stages m =
      h.decoding.restore (m.inGroup (h.fork stream handler options).group) := by
  simp only [fork, Node.fork, hstandard, Behavior.standard, Behavior.ready, List.map_cons,
    List.map_nil, List.reverse_cons, List.reverse_nil, List.nil_append, List.cons_append,
    Stage.passAll, Stage.pass, Except.bind]
  split
  · rename_i hrestore
    exact hrestore.symm
  · rename_i hrestore
    exact hrestore.symm

/-- The standard stages make the same of two messages that are equal on the
wire, where what else they carry is covered up or the same. -/
theorem passAll_alike (hstandard : h.behaviors = Behavior.standard) {m₁ m₂ : Message}
    (hwire : m₁.onWire = m₂.onWire)
    (hgroup : (h.fork stream handler options).group = "" → m₁.group = m₂.group)
    (hdecoded : h.decoding.payload? m₁.stream m₁.data = none → m₁.decoded = m₂.decoded) :
    Stage.passAll (h.fork stream handler options).target.stages m₁ =
      Stage.passAll (h.fork stream handler options).target.stages m₂ := by
  have hrest (decoded : Option Payload) (group : Option String) :
      { m₁ with decoded, group } = { m₂ with decoded, group } := by
    change { m₁.onWire with decoded, group } = { m₂.onWire with decoded, group }
    rw [hwire]
  have hput : (if (h.fork stream handler options).group = "" then m₁.group
        else some (h.fork stream handler options).group) =
      if (h.fork stream handler options).group = "" then m₂.group
        else some (h.fork stream handler options).group := by
    split
    · exact hgroup ‹_›
    · rfl
  have hsame : h.decoding.payload? m₁.stream m₁.data = h.decoding.payload? m₂.stream m₂.data := by
    rw [← m₁.onWire_stream, ← m₁.onWire_data, hwire, m₂.onWire_stream, m₂.onWire_data]
  rw [passAll_standard hstandard, passAll_standard hstandard, Decoding.restore_eq,
    Decoding.restore_eq]
  simp only [Message.inGroup, hput, ← hsame]
  rcases hmade : h.decoding.payload? m₁.stream m₁.data with _ | (e | payload)
  · simp only [hdecoded hmade]
    exact congrArg Except.ok (hrest _ _)
  · rfl
  · exact congrArg Except.ok (hrest _ _)

/-- **What was left on a message does not matter, wherever a stage puts
something in its place**: at a node with the standard behaviors, two
messages that are equal on the wire have the same result and are given to
the handler alike in every attempt, if the node has a group or they carry
the same one, and if their stream has a type or they carry the same payload.
The handler sees the group of the node and the payload that the node has
restored; where it has none, what the message carried. -/
theorem delivers_alike (hstandard : h.behaviors = Behavior.standard) {m₁ m₂ : Message}
    (hwire : m₁.onWire = m₂.onWire)
    (hgroup : (h.fork stream handler options).group = "" → m₁.group = m₂.group)
    (hdecoded : h.decoding.payload? m₁.stream m₁.data = none → m₁.decoded = m₂.decoded)
    (ctx : Context) (pace : Pace) (now : Nat) (ended : Bool) (cues : List Cue) :
    let n := h.fork stream handler options
    let after (m : Message) :=
      ((Delivery.begin pace now ended n.target.stages ⟨ctx, m⟩).1.play pace cues)
    (after m₁).bare = (after m₂).bare ∧
      (∀ outcome, (after m₁).progress = .finished outcome ↔
        (after m₂).progress = .finished outcome) ∧
      ∀ a frames, (after m₁).progress = .handling a frames →
        (∃ frames', (after m₂).progress = .handling a frames') ∧
        a.message.onWire = m₁.onWire ∧
        a.message.group = (if n.group = "" then m₁.group else some n.group) ∧
        (h.decoding.payload? m₁.stream m₁.data = none → a.message.decoded = m₁.decoded) ∧
        ∀ made, h.decoding.payload? m₁.stream m₁.data = some made →
          ∃ payload, made = .ok payload ∧ a.message.decoded = some payload := by
  intro n after
  have hsame : Stage.passAll n.target.stages m₁ = Stage.passAll n.target.stages m₂ :=
    passAll_alike hstandard hwire hgroup hdecoded
  have hinherited := Stage.passAll_inherited (Stage.passAll n.target.stages m₁)
  have hbegun (m : Message)
      (hm : Stage.passAll n.target.stages m = Stage.passAll n.target.stages m₁) :
      (Delivery.begin pace now ended n.target.stages ⟨ctx, m⟩).1.progress.Holds fun stages a =>
        Stage.passAll stages a.message = Stage.passAll n.target.stages m₁ :=
    Delivery.begin_holds hinherited hm
  have hbare : (after m₁).bare = (after m₂).bare :=
    Delivery.play_bare (Delivery.enter_bare (by simp only [Arrival.bare, hwire]) rfl)
      (hbegun m₁ rfl) (hbegun m₂ hsame.symm)
  have hholds₁ : (after m₁).progress.Holds _ := Delivery.play_holds hinherited (hbegun m₁ rfl)
  have hholds₂ : (after m₂).progress.Holds _ :=
    Delivery.play_holds hinherited (hbegun m₂ hsame.symm)
  refine ⟨hbare, fun outcome => ?_, fun a frames ha => ?_⟩
  · rcases Delivery.bare_cases hbare with ⟨_, _, _, _, hp₁, hp₂, -⟩ |
      ⟨_, _, _, _, _, _, hp₁, hp₂, -⟩ | ⟨_, hp₁, hp₂⟩ <;> rw [hp₁, hp₂] <;> simp
  · rw [ha] at hholds₁
    have hmade : h.decoding.restore (m₁.inGroup n.group) = .ok a.message :=
      (passAll_standard hstandard m₁).symm.trans hholds₁.1.symm
    obtain ⟨hrest, hgroup, huntyped, htyped⟩ := Decoding.restore_ok hmade
    refine ⟨?_, hrest, hgroup, huntyped, htyped⟩
    rcases Delivery.bare_cases hbare with ⟨a₁, frames₁, a₂, frames₂, hp₁, hp₂, harrival, -⟩ |
      ⟨_, _, _, _, _, _, hp₁, -⟩ | ⟨_, hp₁, -⟩
    · obtain ⟨rfl, rfl⟩ := Progress.handling.inj (ha.symm.trans hp₁)
      rw [hp₂] at hholds₂
      obtain rfl := Arrival.eq_of_bare harrival (Except.ok.inj (hholds₁.1.trans hholds₂.1.symm))
      exact ⟨frames₂, hp₂⟩
    · simp [ha] at hp₁
    · simp [ha] at hp₁

/-- A name, as an earlier delivery to the group of a biller has left it. -/
def leftName (stream : String) : Message :=
  { Message.compose ⟨"m-1", "shop", stream, 0, (Json.str "ann").bytes, none, none, none, none⟩
      (.afterStart 0) with
    decoded := some ⟨Catalogue.name, .str "bob"⟩
    group := some "billing" }

/-- A hub where names have a stream. -/
def nameShop : Hub Unit Unit := (Hub.blank "shop").setStream Catalogue.name (.ofStream "names")

/-- An auditor is given such a message, in a second attempt, as if it came
from outside. -/
theorem delivers_alike_audit :
    let n := nameShop.fork "names" "audit" { ReaderOptions.unset with group := some "audit" }
    let after (m : Message) :=
      (Delivery.begin (fun _ _ _ => 0) 0 false n.target.stages ⟨⟨[0], none, none, none⟩, m⟩).1.play
        (fun _ _ _ => 0) [.returned 1 false fun _ => .error .missingWriter, .resume 1 false]
    ∃ a frames frames', (after (leftName "names")).progress = .handling a frames ∧
      (after (leftName "names").onWire).progress = .handling a frames' ∧
      a.message.group = some "audit" ∧
      a.message.decoded = some ⟨Catalogue.name, .str "ann"⟩ := by
  intro n after
  obtain ⟨-, -, hgiven⟩ := @delivers_alike _ _ nameShop "names" "audit"
    { ReaderOptions.unset with group := some "audit" } rfl (leftName "names")
    (leftName "names").onWire rfl (fun hempty => absurd hempty (by decide)) nofun ⟨[0], none, none, none⟩ (fun _ _ _ => 0) 0 false
    [.returned 1 false fun _ => .error .missingWriter, .resume 1 false]
  obtain ⟨⟨frames', hclean⟩, -, hgroup, -, htyped⟩ := hgiven _ _ rfl
  obtain ⟨payload, hmade, hdecoded⟩ := htyped _ rfl
  cases hmade
  exact ⟨_, _, frames', rfl, hclean, hgroup, hdecoded⟩

/-- Where the node has no group and the stream no type, the handler is given
the group of the biller and the payload of another node. -/
theorem delivers_alike_fails_stale :
    let n := nameShop.fork "notes" "read" .unset
    let given (m : Message) :=
      (Delivery.begin (fun _ _ _ => 0) 0 false n.target.stages
        ⟨⟨[0], none, none, none⟩, m⟩).1.progress
    n.group = "" ∧ (leftName "notes").onWire = (leftName "notes").onWire.onWire ∧
      ∃ a₁ frames₁ a₂ frames₂, given (leftName "notes") = .handling a₁ frames₁ ∧
        given (leftName "notes").onWire = .handling a₂ frames₂ ∧
        a₁.message.group = some "billing" ∧ a₂.message.group = none ∧
        a₁.message.decoded = some ⟨Catalogue.name, .str "bob"⟩ ∧ a₂.message.decoded = none := by
  intro n given
  exact ⟨rfl, rfl, _, _, _, _, rfl, rfl, rfl, rfl, rfl, rfl⟩

end Hub
end PubSub
