import PubSub.Proofs.Keyed
import PubSub.Proofs.Site.Attempts

/-!
# Flows of messages

When the stages before every handler put it into the flow of its message,
what it publishes has the message's correlation and names the message as
its cause.  The law is carried by every attempt, from the start of its
invocation to the handler, whatever ids the bus's own context has.

* `Message.Carried` — what stages and arrival know of a message;
* `Publication.Lawful` — the ids of what is published;
* `Site.InFlow`, `InFlow.step` — the invariant;
* `Site.Descends`, `Site.retrace` — the tree of publications, and the way
  back;
* `Site.flow_run` — the law for every run.
-/

namespace PubSub

/-- The arrival has the ids of the message, and so does its context unless
a stage is still to see to it. -/
structure Message.Carried (m : Message) (stages : List Stage) (a : Arrival) : Prop where
  id : a.message.id = m.id
  correlation : a.message.correlationId = m.correlationId
  context : .correlation ∈ stages ∨
    a.ctx.correlationId = some m.correlationId ∧ a.ctx.causationId = some m.id

/-- A message is carried from stage to stage. -/
theorem Message.carried_inherited (m : Message) : Inherited m.Carried where
  unmarshal := by
    intro decoding stages a message h hrestore
    obtain ⟨decoded, rfl⟩ := Decoding.restore_frame hrestore
    exact ⟨h.id, h.correlation, h.context.imp_left (by simp)⟩
  group := by
    intro name stages a h
    have hctx := h.context.imp_left (show _ → .correlation ∈ stages by simp)
    unfold Arrival.inGroup
    split
    · exact ⟨h.id, h.correlation, hctx⟩
    · exact ⟨h.id, h.correlation, hctx⟩
  correlation := by
    intro stages a h
    refine ⟨h.id, h.correlation, .inr ⟨?_, ?_⟩⟩
    · exact congrArg some h.correlation
    · exact congrArg some h.id
  retry := fun h => ⟨h.id, h.correlation, h.context.imp_left (by simp)⟩
  logging := fun h => ⟨h.id, h.correlation, h.context.imp_left (by simp)⟩
  tag := fun h => ⟨h.id, h.correlation, h.context.imp_left (by simp)⟩

/-- What is published from outside has the ids of its context, and where
that has none, its own.  What a handler publishes has the correlation of
the message that is being handled, and that message as its cause. -/
def Publication.Lawful (p : Publication) : Prop :=
  match p.author with
  | none => p.message.InContext p.ctx
  | some a =>
      p.message.correlationId = a.invocation.message.correlationId ∧
        p.message.causationId = a.invocation.message.id

/-- A message in the flow of a context that has both ids. -/
theorem Message.InContext.ids {m : Message} {ctx : Context} {correlation causation : String}
    (h : m.InContext ctx) (hcorrelation : ctx.correlationId = some correlation)
    (hcausation : ctx.causationId = some causation) :
    m.correlationId = correlation ∧ m.causationId = causation := by
  obtain ⟨h, h'⟩ := h
  simp only [Context.correlationFor, hcorrelation, Option.getD_some] at h
  simp only [Context.causationFor, hcausation, Option.getD_some] at h'
  exact ⟨h, h'⟩

namespace Site

/-- Every reader of the hub, and every task of the bus, puts its handler
into the flow of the message, and what was published obeys the law. -/
structure InFlow (s : Site) : Prop where
  sound : s.system.bus.Sound
  behaviors : .correlation ∈ s.hub.behaviors
  nodes : ∀ n ∈ s.hub.nodes, .correlation ∈ n.target.stages
  tasks : s.system.bus.Tasks (.correlation ∈ ·.target.stages)
  follows : s.Follows fun i => i.message.Carried
  known : ∀ p ∈ s.publications, ∀ a, p.author = some a → a ∈ s.attempts
  lawful : ∀ p ∈ s.publications, p.Lawful

variable {s s' : Site}

namespace InFlow

/-- A hub that has no readers yet. -/
theorem initial {hub : Hub Unit Unit} (config : BusConfig) (tokens : Tokens)
    (hbehaviors : .correlation ∈ hub.behaviors) (hnodes : hub.nodes = []) :
    (Site.initial hub config tokens).InFlow where
  sound := .ofConfig config
  behaviors := hbehaviors
  nodes := by simp [Site.initial, hnodes]
  tasks := .initial config tokens
  follows := .initial hub config tokens
  known := by simp [Site.initial]
  lawful := by simp [Site.initial]

/-- The readers of such a hub put their handlers into the flow. -/
theorem fork_stages (h : s.InFlow) (stream handler : String) (options : ReaderOptions Unit) :
    .correlation ∈ (s.hub.fork stream handler options).target.stages :=
  List.mem_reverse.mpr (List.mem_map.mpr ⟨.correlation, h.behaviors, rfl⟩)

/-- What is published in an attempt that has reached its handler obeys
the law. -/
theorem publication (h : s.InFlow) {p : Publication} (hstands : s.Stands p.author p.ctx)
    (hctx : p.message.InContext p.ctx) : p.Lawful := by
  unfold Publication.Lawful
  split
  · exact hctx
  · rename_i a hauthor
    obtain ⟨arrival, ha, harrival, hflow⟩ := hstands a hauthor
    have hcarried := (h.follows.attempts a ha).arrival
      a.invocation.message.carried_inherited harrival
    rcases hcarried.context with hmem | ⟨hcorrelation, hcausation⟩
    · cases hmem
    · exact hctx.ids (hflow.correlation.trans hcorrelation)
        (hflow.causation.trans hcausation)

/-- Every step keeps the law. -/
theorem step (h : s.InFlow) (hstep : s.Step s') : s'.InFlow := by
  have hsystem : System.LeadsTo (.correlation ∈ ·.target.stages) s.system s'.system := by
    refine hstep.system.mono ?_
    rintro task ⟨n, hn, rfl⟩
    exact h.nodes n hn
  obtain ⟨hsound, htasks⟩ := hsystem.tasks h.sound h.tasks
  have hfollows : s'.Follows fun i => i.message.Carried := by
    refine h.follows.step (fun i => i.message.carried_inherited) ?_ hstep
    intro i hi
    exact ⟨rfl, rfl, .inl (h.tasks.running i hi)⟩
  obtain ⟨new, hpublications, hnew⟩ := hstep.publications
  refine ⟨hsound, hstep.kept.behaviors ▸ h.behaviors, ?_, htasks, hfollows, ?_, ?_⟩
  · intro n hn
    rcases hstep.nodes hn with hold | ⟨stream, handler, options, rfl⟩
    · exact h.nodes n hold
    · exact h.fork_stages stream handler options
  · rw [hpublications, List.forall_mem_append]
    refine ⟨fun p hp a ha => hstep.attempts.subset (h.known p hp a ha), ?_⟩
    intro p hp a ha
    obtain ⟨arrival, hmem, -⟩ := (hnew p hp).1 a ha
    exact hstep.attempts.subset hmem
  · rw [hpublications, List.forall_mem_append]
    exact ⟨h.lawful, fun p hp => h.publication (hnew p hp).1 (hnew p hp).2⟩

/-- Every run keeps the law. -/
theorem run (h : s.InFlow) (deeds : List Deed) : (s.run deeds).InFlow := by
  induction deeds generalizing s with
  | nil => exact h
  | cons deed deeds ih => exact ih (h.step (s.apply_step deed))

end InFlow

/-- The messages that were published. -/
def published (s : Site) : List Message := s.publications.map (·.message)

/-- The message comes from the first one along a path of messages, each
of which was published while the one before it was being handled; the
path ends with the message that was being handled last. -/
inductive Descends (s : Site) (r : Message) : List Message → Message → Prop where
  | root : Descends s r [] r
  | next {path : List Message} {m : Message} {p : Publication} {a : Attempt}
      (h : Descends s r path m) (hp : p ∈ s.publications) (hauthor : p.author = some a)
      (hhandled : a.invocation.message = m) : Descends s r (path ++ [m]) p.message

/-- Follow causations back, so many steps. -/
def retrace (s : Site) : Nat → Message → List Message
  | 0, _ => []
  | n + 1, m =>
      match s.published.find? (·.id == m.causationId) with
      | some cause => cause :: s.retrace n cause
      | none => []

namespace Descends

variable {r m : Message} {path : List Message}

/-- A path begins with the first message. -/
theorem head (h : s.Descends r path m) : (path ++ [m]).head? = some r := by
  induction h with
  | root => rfl
  | next h hp hauthor hhandled ih => rw [List.head?_append, ih, Option.some_or]

/-- What comes from a published message is published. -/
theorem mem (h : s.Descends r path m) (hr : r ∈ s.published) : m ∈ s.published := by
  cases h with
  | root => exact hr
  | next h hp hauthor hhandled => exact List.mem_map_of_mem hp

/-- The correlation is the same all along the path, and each message names
the one before it as its cause. -/
theorem ids (hlaw : s.InFlow) (h : s.Descends r path m) :
    m.correlationId = r.correlationId ∧
      ((path ++ [m]).map (·.causationId)).tail = path.map (·.id) := by
  induction h with
  | root => exact ⟨rfl, rfl⟩
  | @next path m p a h hp hauthor hhandled ih =>
      have hlawful := hlaw.lawful p hp
      simp only [Publication.Lawful, hauthor, hhandled] at hlawful
      refine ⟨hlawful.1.trans ih.1, ?_⟩
      have hsome : (path ++ [m]).map (·.causationId) ≠ [] := by simp
      rw [List.map_append, List.tail_append_of_ne_nil hsome, ih.2]
      simp [hlawful.2]

/-- When ids are not given twice, following causations leads back along
the path. -/
theorem retrace (hlaw : s.InFlow) (h : s.Descends r path m) (hr : r ∈ s.published)
    (hunique : (s.published.map (·.id)).Nodup) : s.retrace path.length m = path.reverse := by
  induction h with
  | root => rfl
  | @next path m p a h hp hauthor hhandled ih =>
      have hlawful := hlaw.lawful p hp
      simp only [Publication.Lawful, hauthor, hhandled] at hlawful
      have hcause : s.published.find? (·.id == m.id) = some m :=
        Keyed.find?_of_mem hunique (h.mem hr)
      rw [List.length_append, List.length_singleton, Site.retrace, hlawful.2, hcause,
        List.reverse_append, ← ih]
      rfl

end Descends

/-- **Every message stays in its flow.**  In every run of a hub whose
stages put handlers into the flow of their messages, what is published
from outside has the ids of its context or its own, and what is published
while a message is being handled has the correlation of that message and
names it as its cause.  So a message has the correlation of the first one
that it comes from, and following causations from it leads back along the
messages that were handled, to the first. -/
theorem flow_run (hub : Hub Unit Unit) (config : BusConfig) (tokens : Tokens)
    (deeds : List Deed) (hbehaviors : .correlation ∈ hub.behaviors) (hnodes : hub.nodes = []) :
    let final := (initial hub config tokens).run deeds
    (∀ p ∈ final.publications, p.Lawful ∧ ∀ a, p.author = some a → a ∈ final.attempts) ∧
      ∀ r path m, final.Descends r path m →
        m.correlationId = r.correlationId ∧
          (path ++ [m]).head? = some r ∧
          ((path ++ [m]).map (·.causationId)).tail = path.map (·.id) ∧
          (r ∈ final.published → (final.published.map (·.id)).Nodup →
            final.retrace path.length m = path.reverse) := by
  intro final
  have hlaw : final.InFlow := (InFlow.initial config tokens hbehaviors hnodes).run deeds
  refine ⟨fun p hp => ⟨hlaw.lawful p hp, hlaw.known p hp⟩, ?_⟩
  intro r path m h
  obtain ⟨hcorrelation, hcausation⟩ := h.ids hlaw
  exact ⟨hcorrelation, h.head, hcausation, fun hr hunique => h.retrace hlaw hr hunique⟩

/-- A hub that writes to its bus and reads from it, and gives its first
message the id `o-1` and all others `i-1`. -/
def relay : Hub Unit Unit :=
  { (Hub.blank "shop" : Hub Unit Unit) with
    writer := some ()
    readerDriver := some ()
    ids := ⟨fun n => if n = 0 then .ok "o-1" else .ok "i-1", 0⟩ }

/-- An order is published on a bus whose own context has ids, and its
handler publishes an invoice in a context derived from its own. -/
def relayDeeds : List Deed :=
  [.setStreamByKey "orders" (.ofStream "orders"),
    .setStreamByKey "invoices" (.ofStream "invoices"),
    .read "orders" "bill" .unset, .launch,
    .bus (.start ⟨[0], none, some "root", some "root"⟩),
    .publish (.outside ⟨[1], none, none, none⟩) "orders" (Json.null.content),
    .bus (.call 0), .bus .dispatcher, .bus .dispatcher, .turn 0 (fun _ _ _ => 0) .pending false,
    .publish (.handler 0 [.child, .timeout 1000]) "invoices" (Json.null.content)]

/-- The invoice belongs to the order. -/
theorem flow_run_relay :
    let final := (initial relay ⟨8, 2⟩ ⟨2, []⟩).run relayDeeds
    ∃ order invoice, final.published = [order, invoice] ∧ order.correlationId = "o-1" ∧
      invoice.correlationId = order.correlationId ∧ final.retrace 1 invoice = [order] := by
  intro final
  obtain ⟨order, invoice, a, hpublications, hid, hids, hauthor, hhandled⟩ :
      ∃ order invoice a, final.publications = [order, invoice] ∧
        order.message.correlationId = "o-1" ∧
        final.published.map (·.id) = ["o-1", "i-1"] ∧ invoice.author = some a ∧
        a.invocation.message = order.message :=
    ⟨_, _, _, rfl, rfl, rfl, rfl, rfl⟩
  have hpublished : final.published = [order.message, invoice.message] := by
    simp [published, hpublications]
  have hdescends : final.Descends order.message ([] ++ [order.message]) invoice.message :=
    .next .root (by simp [hpublications]) hauthor hhandled
  obtain ⟨hcorrelation, -, -, hretrace⟩ :=
    (flow_run relay ⟨8, 2⟩ ⟨2, []⟩ relayDeeds (by decide) rfl).2 _ _ _ hdescends
  have hroot : order.message ∈ final.published := hpublished ▸ List.mem_cons_self
  have hunique : (final.published.map (·.id)).Nodup := by
    rw [hids]
    decide
  exact ⟨order.message, invoice.message, hpublished, hid, hcorrelation,
    hretrace hroot hunique⟩

end Site
end PubSub
