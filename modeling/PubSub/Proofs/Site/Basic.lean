import PubSub.Bus.System
import PubSub.Hub.Basic

/-!
# A hub on its bus

A site is a hub whose only writer and driver is one bus, the bus with its
surroundings, and the deliveries of the bus's invocations.  What a site
adds is the bookkeeping of a program: which delivery belongs to which
invocation, which attempts have been made, and what has been published,
by whom and in which context.  Handlers are free; what they do is a deed
like any other.

* `Derivation`, `Context.descend` — contexts that handlers derive;
* `Site`, `Attempt`, `Publication` — the state and its records;
* `Deed`, `Site.apply`, `Site.run` — what can happen.
-/

namespace PubSub

/-- A way to derive a context.  Spans and instants are in nanoseconds. -/
inductive Derivation where
  | child
  | timeout (span : Nat)
  | deadline (instant : Nat)
  deriving DecidableEq, Repr

/-- The derived context, and the tokens afterwards. -/
def Derivation.derive (d : Derivation) (ctx : Context) (a : Ambient) :
    Except Abort (Context × Tokens) :=
  match d with
  | .child => .ok (ctx.child a.tokens)
  | .timeout span => ctx.withTimeout a.now span a.tokens
  | .deadline instant => .ok (ctx.withDeadline instant a.tokens)

/-- The context after many derivations, one after the other. -/
def Context.descend : List Derivation → Context → Ambient → Except Abort (Context × Ambient)
  | [], ctx, a => .ok (ctx, a)
  | d :: ds, ctx, a => do
      let (ctx, tokens) ← d.derive ctx a
      Context.descend ds ctx { a with tokens }

/-- An attempt at the message of an invocation, and where the delivery
stood once it had gone in. -/
structure Attempt where
  invocation : Invocation
  upshot : Progress

/-- A message that was published, its context, and the attempt in which a
handler published it, unless it comes from outside. -/
structure Publication where
  author : Option Attempt
  ctx : Context
  message : Message

/-- An invocation and its delivery. -/
structure Ongoing where
  invocation : Invocation
  delivery : Delivery

/-- A hub on its bus. -/
structure Site where
  hub : Hub Unit Unit
  system : System
  /-- The deliveries that are not over. -/
  ongoing : List Ongoing
  /-- In the order in which they were made. -/
  attempts : List Attempt
  /-- In the order in which they were made. -/
  publications : List Publication

/-- Who publishes.  A handler uses the context of one of its attempts, or
one derived from it. -/
inductive Author where
  | outside (ctx : Context)
  | handler (attempt : Nat) (derivations : List Derivation)

/-- Something that can happen at a site. -/
inductive Deed where
  /-- A move of the bus or its surroundings. -/
  | bus (move : Move)
  | setStream (type : PayloadType) (m : Metadata)
  | setStreamByKey (key : String) (m : Metadata)
  | read (key handler : String) (options : ReaderOptions Unit)
  /-- Start the readers. -/
  | launch
  | publish (author : Author) (key : String) (content : Content)
  | publishBatch (author : Author) (items : List Hub.Item)
  /-- The turn of an invocation.  If its handler has been called, `reply`
  is what the handler says, having cancelled the context it was given if
  it `cancels`. -/
  | turn (id : Nat) (pace : Pace) (reply : Bus.Reply) (cancels : Bool)

/-- Is a move open to everybody?  Listeners are registered by the hub, and
invocations are answered by their deliveries. -/
def Move.isOpen : Move → Bool
  | .register _ | .invocation .. => false
  | _ => true

/-- What the handler was given, if the attempt has reached it. -/
def Attempt.arrival? (a : Attempt) : Option Arrival :=
  match a.upshot with
  | .handling arrival _ => some arrival
  | _ => none

namespace Site

/-- The beginning of a site. -/
def initial (hub : Hub Unit Unit) (config : BusConfig) (tokens : Tokens) : Site :=
  ⟨hub, .initial config tokens, [], [], []⟩

/-- Make a move of the bus. -/
def move (s : Site) (m : Move) : Site := { s with system := (s.system.apply m).1 }

/-- The delivery of the invocation of a number. -/
def ongoing? (s : Site) (id : Nat) : Option Ongoing :=
  s.ongoing.find? (·.invocation.id == id)

/-- The delivery of an invocation is over. -/
def forget (s : Site) (id : Nat) : Site :=
  { s with ongoing := s.ongoing.filter (·.invocation.id ≠ id) }

/-- The delivery of an invocation is not over. -/
def keep (s : Site) (i : Invocation) (d : Delivery) : Site :=
  { s with ongoing := ⟨i, d⟩ :: s.ongoing.filter (·.invocation.id ≠ i.id) }

/-- An invocation goes on with its delivery, and ends with it. -/
def settle (s : Site) (i : Invocation) (d : Delivery) : Site :=
  match d.progress with
  | .finished outcome => (s.move (.invocation i.id (.returned outcome))).forget i.id
  | _ => s.keep i d

/-- A delivery has made an attempt. -/
def attempt (s : Site) (i : Invocation) (d : Delivery) : Site :=
  let a : Attempt := ⟨i, d.progress⟩
  { s with attempts := s.attempts ++ [a] }.settle i d

/-- Cancel the context that a handler was given, if it says so. -/
def cancelFor (s : Site) (arrival : Arrival) (cancels : Bool) : Site :=
  if cancels then s.move (.cancel arrival.ctx) else s

/-- A delivery goes on: its handler is asked, or its pause is over, unless
the context has ended during the pause. -/
def goOn (s : Site) (i : Invocation) (d : Delivery) (pace : Pace) (reply : Bus.Reply)
    (cancels : Bool) : Site :=
  match d.progress, reply with
  | .handling .., .pending => s
  | .handling arrival _, .returned outcome =>
      let ended := (s.cancelFor arrival cancels).system.ambient.isDone i.ctx
      (s.settle i (d.returned pace s.system.ambient.now ended outcome).1).cancelFor arrival
        cancels
  | .handling arrival _, .collapsed =>
      ((s.move (.invocation i.id .collapsed)).forget i.id).cancelFor arrival cancels
  | .pausing until_ .., _ =>
      if s.system.ambient.isDone i.ctx then s.settle i (d.giveUp pace s.system.ambient.now).1
      else if wakeAt until_ ≤ s.system.ambient.now then
        s.attempt i (d.resume pace s.system.ambient.now false).1
      else s
  | .finished _, _ => s.settle i d

/-- The turn of an invocation.  When its context has ended, its delivery
is dropped. -/
def turn (s : Site) (i : Invocation) (pace : Pace) (reply : Bus.Reply) (cancels : Bool) :
    Site :=
  match s.system.ambient.err i.ctx, s.ongoing? i.id with
  | some _, _ => (s.move (.invocation i.id .pending)).forget i.id
  | none, none =>
      (s.move (.invocation i.id .pending)).attempt i (Delivery.begin pace
        s.system.ambient.now false i.task.target.stages ⟨i.ctx, i.message⟩).1
  | none, some o => s.goOn o.invocation o.delivery pace reply cancels

/-- The attempt and the context in which an author publishes, and the
surroundings once the context has been derived. -/
def stance (s : Site) : Author → Option (Option Attempt × Context × Ambient)
  | .outside ctx => some (none, ctx, s.system.ambient)
  | .handler n derivations => do
      let a ← s.attempts[n]?
      let arrival ← a.arrival?
      let (ctx, ambient) ← (arrival.ctx.descend derivations s.system.ambient).toOption
      some (some a, ctx, ambient)

/-- What a hub makes of something to publish, in a context and at a time:
the messages for its writer, and the hub afterwards. -/
abbrev Press := Hub Unit Unit → Context → Nat → Except Error (List Message) × Hub Unit Unit

/-- Publish under a key. -/
def single (key : String) (content : Content) : Press := fun hub ctx now =>
  let (made, hub) := hub.publish ctx now key content
  (made.map fun (_, message) => [message], hub)

/-- Publish a batch. -/
def batch (items : List Hub.Item) : Press := fun hub ctx now =>
  let (made, hub) := hub.publishBatch ctx now items
  (made.map fun (_, messages) => messages, hub)

/-- An author publishes: what the hub has made is written to the bus. -/
def send (s : Site) (author : Author) (press : Press) : Site :=
  match s.stance author with
  | none => s
  | some (attempt, ctx, ambient) =>
      let s := { s with system := { s.system with ambient } }
      match press s.hub ctx ambient.now with
      | (.error _, hub) => { s with hub }
      | (.ok messages, hub) =>
          { s.move (.write ctx messages) with
            hub
            publications := s.publications ++ messages.map (⟨attempt, ctx, ·⟩) }

/-- Register a listener on the bus for a hub that starts its readers. -/
def execute (s : System) (_driver : Unit) (task : Task) : Except Error Unit × System :=
  (.ok (), (s.apply (.register task)).1)

/-- The state after a deed. -/
def apply (s : Site) : Deed → Site
  | .bus m => if m.isOpen then s.move m else s
  | .setStream type m => { s with hub := s.hub.setStream type m }
  | .setStreamByKey key m => { s with hub := s.hub.setStreamByKey key m }
  | .read key handler options =>
      match s.hub.read key handler options with
      | .ok (hub, _) => { s with hub }
      | .error _ => s
  | .launch => { s with system := (s.hub.startWith execute (fun s _ => s) s.system).2 }
  | .publish author key content => s.send author (single key content)
  | .publishBatch author items => s.send author (batch items)
  | .turn id pace reply cancels =>
      match s.system.bus.invocation? id with
      | some i => s.turn i pace reply cancels
      | none => s

/-- The state after many deeds. -/
def run (s : Site) (deeds : List Deed) : Site := deeds.foldl apply s

end Site
end PubSub
