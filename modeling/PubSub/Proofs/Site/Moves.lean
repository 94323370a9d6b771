import PubSub.Proofs.Site.Steps

/-!
# The moves behind a deed

Every deed of a site comes down to moves of its bus, which can be read off
the site and the deed.  So a run of a site is a run of its bus, and
whatever holds of all runs of buses holds of sites.

* `Site.deliveryAfter`, `Site.turnMoves` — what comes of a turn;
* `Site.movesOf`, `Site.moves` — the moves of a deed, and of many;
* `Site.seen` — what can be seen of a deed;
* `Site.apply_system`, `Site.run_system` — a run of a site is a run of its bus;
* `Site.turn_of_mem` — only a turn asks an invocation.
-/

namespace PubSub

/-- The number of contexts that an author derives before publishing. -/
def Author.derived : Author → Nat
  | .outside _ => 0
  | .handler _ derivations => derivations.length

namespace Site

variable {s : Site} {i : Invocation} {d : Delivery} {pace : Pace} {reply : Bus.Reply}
  {cancels : Bool} {arrival : Arrival} {author : Author} {press : Press}

/-- An invocation ends with its delivery, if that is over. -/
def endMoves (i : Invocation) (d : Delivery) : List Move :=
  match d.progress with
  | .finished outcome => [.invocation i.id (.returned outcome)]
  | _ => []

/-- A handler cancels the context that it was given, if it says so. -/
def cancelMoves (arrival : Arrival) (cancels : Bool) : List Move :=
  if cancels then [.cancel arrival.ctx] else []

/-- Where a delivery stands once it has gone on. -/
def proceed (s : Site) (i : Invocation) (d : Delivery) (pace : Pace) (reply : Bus.Reply)
    (cancels : Bool) : Delivery :=
  match d.progress, reply with
  | .handling arrival _, .returned outcome =>
      let ended := (s.cancelFor arrival cancels).system.ambient.isDone i.ctx
      (d.returned pace s.system.ambient.now ended outcome).1
  | .pausing until_ .., _ =>
      if s.system.ambient.isDone i.ctx then (d.giveUp pace s.system.ambient.now).1
      else if wakeAt until_ ≤ s.system.ambient.now then
        (d.resume pace s.system.ambient.now false).1
      else d
  | _, _ => d

/-- A delivery goes on. -/
def goOnMoves (s : Site) (i : Invocation) (d : Delivery) (pace : Pace) (reply : Bus.Reply)
    (cancels : Bool) : List Move :=
  match d.progress, reply with
  | .handling .., .pending => []
  | .handling arrival _, .collapsed =>
      .invocation i.id .collapsed :: cancelMoves arrival cancels
  | .handling arrival _, .returned _ =>
      endMoves i (s.proceed i d pace reply cancels) ++ cancelMoves arrival cancels
  | _, _ => endMoves i (s.proceed i d pace reply cancels)

/-- Where the delivery of an invocation stands after a turn in a context
that lives. -/
def deliveryAfter (s : Site) (i : Invocation) (pace : Pace) (reply : Bus.Reply)
    (cancels : Bool) : Delivery :=
  match s.ongoing? i.id with
  | none => (Delivery.begin pace s.system.ambient.now false i.task.target.stages
      ⟨i.ctx, i.message⟩).1
  | some o => s.proceed o.invocation o.delivery pace reply cancels

/-- The turn of an invocation. -/
def turnMoves (s : Site) (i : Invocation) (pace : Pace) (reply : Bus.Reply) (cancels : Bool) :
    List Move :=
  match s.system.ambient.err i.ctx, s.ongoing? i.id with
  | some _, _ => [.invocation i.id .pending]
  | none, none =>
      .invocation i.id .pending :: endMoves i (s.deliveryAfter i pace reply cancels)
  | none, some o => s.goOnMoves o.invocation o.delivery pace reply cancels

/-- An invocation goes on with its delivery by these moves. -/
theorem settle_system : (s.settle i d).system = (s.system.run (endMoves i d)).1 := by
  cases hprogress : d.progress with
  | finished outcome =>
      simp only [settle, endMoves, hprogress]
      rfl
  | _ =>
      simp only [settle, endMoves, hprogress]
      rfl

theorem cancelFor_system :
    (s.cancelFor arrival cancels).system = (s.system.run (cancelMoves arrival cancels)).1 := by
  cases cancels <;> rfl

/-- So does a delivery, and the invocation with it. -/
theorem goOn_system : (s.goOn i d pace reply cancels).system =
    (s.system.run (s.goOnMoves i d pace reply cancels)).1 := by
  cases hprogress : d.progress with
  | handling arrival frames =>
      cases reply with
      | pending => simp only [goOn, goOnMoves, hprogress, System.run]
      | returned outcome =>
          simp only [goOn, goOnMoves, proceed, hprogress, cancelFor_system, settle_system,
            System.run_append]
      | collapsed =>
          simp only [goOn, goOnMoves, hprogress, cancelFor_system, System.run_cons]
          rfl
  | pausing until_ failure attempts frames =>
      simp only [goOn, goOnMoves, proceed, hprogress]
      split
      · exact settle_system
      · split
        · exact settle_system
        · simp only [endMoves, hprogress, System.run]
  | finished outcome =>
      simp only [goOn, goOnMoves, proceed, hprogress]
      exact settle_system

/-- A turn comes down to its moves. -/
theorem turn_system : (s.turn i pace reply cancels).system =
    (s.system.run (s.turnMoves i pace reply cancels)).1 := by
  cases hended : s.system.ambient.err i.ctx with
  | some e =>
      simp only [turn, turnMoves, hended]
      rfl
  | none =>
      cases hongoing : s.ongoing? i.id with
      | none =>
          simp only [turn, turnMoves, deliveryAfter, hended, hongoing]
          exact settle_system
      | some o =>
          simp only [turn, turnMoves, hended, hongoing]
          exact goOn_system

/-- An author derives a context and publishes. -/
def sendMoves (s : Site) (author : Author) (press : Press) : List Move :=
  match s.stance author with
  | none => []
  | some (_, ctx, ambient) =>
      .replicate author.derived .issue ++
        match (press s.hub ctx ambient.now).1 with
        | .error _ => []
        | .ok messages => [.write ctx messages]

/-- An author's stance is taken by handing out tokens. -/
theorem stance_system {attempt : Option Attempt} {ctx : Context} {ambient : Ambient}
    (h : s.stance author = some (attempt, ctx, ambient)) :
    { s.system with ambient } = (s.system.run (.replicate author.derived .issue)).1 := by
  cases author with
  | outside outer =>
      simp only [stance, Option.some.injEq, Prod.mk.injEq] at h
      obtain ⟨-, -, rfl⟩ := h
      rfl
  | handler n derivations =>
      simp only [stance, Option.bind_eq_bind, Option.bind_eq_some_iff, Option.some.injEq,
        Prod.mk.injEq, Prod.exists] at h
      obtain ⟨a, -, arrival, -, ctx', ambient', hderived, -, -, rfl⟩ := h
      cases hd : arrival.ctx.descend derivations s.system.ambient with
      | error why =>
          rw [hd] at hderived
          cases hderived
      | ok derived =>
          rw [hd] at hderived
          cases hderived
          exact (Context.descend_ok s.system.bus hd).2

/-- Publishing comes down to its moves. -/
theorem send_system :
    (s.send author press).system = (s.system.run (s.sendMoves author press)).1 := by
  cases hstance : s.stance author with
  | none =>
      simp only [send, sendMoves, hstance]
      rfl
  | some stance =>
      obtain ⟨attempt, ctx, ambient⟩ := stance
      simp only [send, sendMoves, hstance, System.run_append, ← stance_system hstance]
      cases hmade : press s.hub ctx ambient.now with
      | mk made hub => cases made <;> rfl

/-- The moves of a deed. -/
def movesOf (s : Site) : Deed → List Move
  | .bus m => if m.isOpen then [m] else []
  | .launch => s.hub.nodes.flatMap fun n => callMoves n.calls
  | .publish author key content => s.sendMoves author (single key content)
  | .publishBatch author items => s.sendMoves author (batch items)
  | .turn id pace reply cancels =>
      match s.system.bus.invocation? id with
      | some i => s.turnMoves i pace reply cancels
      | none => []
  | _ => []

/-- The moves of many deeds. -/
def moves (s : Site) : List Deed → List Move
  | [] => []
  | deed :: deeds => s.movesOf deed ++ (s.apply deed).moves deeds

/-- What can be seen of a deed. -/
def seen (s : Site) (deed : Deed) : List BusEvent := (s.system.run (s.movesOf deed)).2

/-- A deed moves the bus by its moves. -/
theorem apply_system (s : Site) (deed : Deed) :
    (s.apply deed).system = (s.system.run (s.movesOf deed)).1 := by
  cases deed with
  | bus m =>
      simp only [apply, movesOf]
      split <;> rfl
  | read key handler options =>
      simp only [apply]
      split <;> rfl
  | launch => exact startNodes_system s.hub.nodes s.system
  | publish author key content => exact send_system
  | publishBatch author items => exact send_system
  | turn id pace reply cancels =>
      cases hi : s.system.bus.invocation? id with
      | some i =>
          simp only [apply, movesOf, hi]
          exact turn_system
      | none =>
          simp only [apply, movesOf, hi]
          rfl
  | _ => rfl

/-- **A run of a site is a run of its bus.** -/
theorem run_system (s : Site) (deeds : List Deed) :
    (s.run deeds).system = (s.system.run (s.moves deeds)).1 := by
  induction deeds generalizing s with
  | nil => rfl
  | cons deed deeds ih =>
      rw [moves, System.run_append, ← apply_system]
      exact ih (s.apply deed)

/-- The moves of some deeds and some more. -/
theorem moves_append (s : Site) (deeds later : List Deed) :
    s.moves (deeds ++ later) = s.moves deeds ++ (s.run deeds).moves later := by
  induction deeds generalizing s with
  | nil => rfl
  | cons deed deeds ih =>
      rw [List.cons_append, moves, moves, ih, List.append_assoc]
      rfl

/-- Only a turn asks an invocation. -/
theorem turn_of_mem {deed : Deed} {id : Nat} (hmem : .invocation id reply ∈ s.movesOf deed) :
    ∃ i ∈ s.system.bus.running, ∃ pace reply cancels, deed = .turn i.id pace reply cancels := by
  have hsend (author : Author) (press : Press) :
      Move.invocation id reply ∉ s.sendMoves author press := by
    unfold sendMoves
    split
    · simp
    · split <;> simp [List.mem_replicate]
  cases deed with
  | bus m =>
      simp only [movesOf] at hmem
      split at hmem
      · rename_i hopen
        rw [List.mem_singleton] at hmem
        subst hmem
        cases hopen
      · cases hmem
  | launch => simp [movesOf, callMoves] at hmem
  | publish author key content => exact absurd hmem (hsend author _)
  | publishBatch author items => exact absurd hmem (hsend author _)
  | turn asked pace reply cancels =>
      cases hi : s.system.bus.invocation? asked with
      | some i =>
          have hid : i.id = asked := by simpa using List.find?_some hi
          exact ⟨i, List.mem_of_find?_eq_some hi, pace, reply, cancels, hid ▸ rfl⟩
      | none => simp [movesOf, hi] at hmem
  | _ => cases hmem

end Site
end PubSub
