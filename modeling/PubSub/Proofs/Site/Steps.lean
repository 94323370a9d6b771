import PubSub.Proofs.Bus.Listeners
import PubSub.Proofs.Hub.Envelopes
import PubSub.Proofs.Site.Basic

/-!
# What one deed does

A deed moves the bus as the bus's own moves do, and only the hub's nodes
are ever registered.  It leaves the hub's codec, schemas and behaviors
alone.  Only turns make attempts, and only publishing adds publications.

* `Context.SameFlow`, `Context.descend_ok` — derived contexts;
* `System.LeadsTo` — moves that register tasks of one kind only;
* `Site.startNodes_system` — starting the readers, as moves;
* `Site.Turned`, `Site.Sent` — what turns leave alone, and publishing does;
* `Site.Step`, `Site.apply_step` — what a deed comes to;
* `Site.run_concat`, `Site.run_append` — runs, deed by deed.
-/

namespace PubSub

/-- The contexts carry the same ids. -/
structure Context.SameFlow (ctx ctx' : Context) : Prop where
  correlation : ctx'.correlationId = ctx.correlationId
  causation : ctx'.causationId = ctx.causationId

theorem Context.SameFlow.trans {ctx ctx' ctx'' : Context} (h : ctx.SameFlow ctx')
    (h' : ctx'.SameFlow ctx'') : ctx.SameFlow ctx'' :=
  ⟨h'.correlation.trans h.correlation, h'.causation.trans h.causation⟩

/-- A derivation keeps the ids and hands out one token. -/
theorem Derivation.derive_ok {d : Derivation} {ctx ctx' : Context} {a : Ambient}
    {tokens : Tokens} (h : d.derive ctx a = .ok (ctx', tokens)) :
    ctx.SameFlow ctx' ∧ tokens = { a.tokens with issued := a.tokens.issued + 1 } := by
  cases d with
  | child =>
      cases h
      exact ⟨⟨rfl, rfl⟩, rfl⟩
  | timeout span =>
      obtain ⟨deadline, -, hderived⟩ := Context.withTimeout_eq h
      cases hderived
      exact ⟨⟨rfl, rfl⟩, rfl⟩
  | deadline instant =>
      cases h
      exact ⟨⟨rfl, rfl⟩, rfl⟩

/-- The second system comes after the first by moves that register only
tasks of a kind. -/
def System.LeadsTo (P : Task → Prop) (s s' : System) : Prop :=
  ∃ moves, s' = (s.run moves).1 ∧ ∀ task ∈ moves.flatMap Move.registered, P task

namespace System.LeadsTo

variable {P : Task → Prop} {s s' s'' : System}

theorem refl (s : System) : LeadsTo P s s := ⟨[], rfl, by simp⟩

theorem trans (h : LeadsTo P s s') (h' : LeadsTo P s' s'') : LeadsTo P s s'' := by
  obtain ⟨moves, rfl, hP⟩ := h
  obtain ⟨later, rfl, hP'⟩ := h'
  refine ⟨moves ++ later, by rw [run_append], ?_⟩
  rw [List.flatMap_append]
  intro task hmem
  rcases List.mem_append.mp hmem with hmem | hmem
  · exact hP task hmem
  · exact hP' task hmem

/-- Tasks of a narrower kind. -/
theorem mono {Q : Task → Prop} (h : LeadsTo P s s') (himp : ∀ task, P task → Q task) :
    LeadsTo Q s s' := by
  obtain ⟨moves, heq, hP⟩ := h
  exact ⟨moves, heq, fun task hmem => himp task (hP task hmem)⟩

/-- One move. -/
theorem one (s : System) (move : Move) (h : ∀ task ∈ move.registered, P task) :
    LeadsTo P s (s.apply move).1 :=
  ⟨[move], rfl, by simpa using h⟩

/-- One move that registers nothing. -/
theorem plain (s : System) (move : Move) (h : move.registered = []) :
    LeadsTo P s (s.apply move).1 :=
  one s move (by simp [h])

/-- Soundness, and a property of all tasks of a bus, are kept. -/
theorem tasks (h : LeadsTo P s s') (hsound : s.bus.Sound) (htasks : s.bus.Tasks P) :
    s'.bus.Sound ∧ s'.bus.Tasks P := by
  obtain ⟨moves, rfl, hP⟩ := h
  induction moves generalizing s with
  | nil => exact ⟨hsound, htasks⟩
  | cons move moves ih =>
      rw [List.flatMap_cons, List.forall_mem_append] at hP
      obtain ⟨hsound', hmove⟩ := apply_sound hsound move
      have hnext : (s.apply move).1.bus.Tasks P := by
        rcases hmove with ⟨hsame, -⟩ | hchange
        · rw [hsame]
          exact htasks
        · exact htasks.change hchange (apply_forall_listeners htasks.listeners hP.1)
      exact ih hsound' hnext hP.2

end System.LeadsTo

/-- Deriving a context keeps its ids, and is as good as handing out
tokens. -/
theorem Context.descend_ok {ds : List Derivation} {ctx ctx' : Context} {a a' : Ambient}
    (bus : Bus) (h : ctx.descend ds a = .ok (ctx', a')) :
    ctx.SameFlow ctx' ∧
      (⟨bus, a'⟩ : System) = ((⟨bus, a⟩ : System).run (.replicate ds.length .issue)).1 := by
  induction ds generalizing ctx a with
  | nil =>
      cases h
      exact ⟨⟨rfl, rfl⟩, rfl⟩
  | cons d ds ih =>
      cases hd : d.derive ctx a with
      | error why => simp [descend, hd, bind, Except.bind] at h
      | ok derived =>
          obtain ⟨mid, tokens⟩ := derived
          simp only [descend, hd, bind, Except.bind] at h
          obtain ⟨hflow, rfl⟩ := Derivation.derive_ok hd
          obtain ⟨hrest, hsystem⟩ := ih h
          exact ⟨hflow.trans hrest, hsystem⟩

namespace Site

variable {s : Site} {i : Invocation} {d : Delivery} {pace : Pace} {reply : Bus.Reply}
  {cancels : Bool} {arrival : Arrival} {author : Author} {press : Press}

/-- What a turn leaves alone: the hub, what was published, the attempts
so far, and the listeners of the bus. -/
structure Turned (s s' : Site) : Prop where
  hub : s'.hub = s.hub
  publications : s'.publications = s.publications
  attempts : s.attempts <+: s'.attempts
  system : ∀ P, System.LeadsTo P s.system s'.system

namespace Turned

variable {s' s'' : Site}

theorem refl (s : Site) : s.Turned s := ⟨rfl, rfl, List.prefix_rfl, fun _ => .refl _⟩

theorem trans (h : s.Turned s') (h' : s'.Turned s'') : s.Turned s'' :=
  ⟨h'.hub.trans h.hub, h'.publications.trans h.publications, h.attempts.trans h'.attempts,
    fun P => (h.system P).trans (h'.system P)⟩

/-- A move that registers nothing. -/
theorem move (s : Site) {m : Move} (h : m.registered = []) : s.Turned (s.move m) :=
  ⟨rfl, rfl, List.prefix_rfl, fun _ => .plain s.system m h⟩

theorem forget (h : s.Turned s') (id : Nat) : s.Turned (s'.forget id) :=
  ⟨h.hub, h.publications, h.attempts, h.system⟩

theorem settle (h : s.Turned s') (i : Invocation) (d : Delivery) : s.Turned (s'.settle i d) := by
  unfold Site.settle
  split
  · exact (h.trans (.move s' rfl)).forget i.id
  · exact ⟨h.hub, h.publications, h.attempts, h.system⟩

theorem attempt (h : s.Turned s') (i : Invocation) (d : Delivery) :
    s.Turned (s'.attempt i d) := by
  let a : Attempt := ⟨i, d.progress⟩
  have hnoted : s.Turned { s' with attempts := s'.attempts ++ [a] } :=
    ⟨h.hub, h.publications, h.attempts.trans (List.prefix_append _ _), h.system⟩
  exact hnoted.settle i d

theorem cancelFor (h : s.Turned s') (arrival : Arrival) (cancels : Bool) :
    s.Turned (s'.cancelFor arrival cancels) := by
  unfold Site.cancelFor
  split
  · exact h.trans (.move s' rfl)
  · exact h

end Turned

/-- Going on with a delivery is part of a turn. -/
theorem goOn_turned : s.Turned (s.goOn i d pace reply cancels) := by
  unfold goOn
  split
  · exact .refl s
  · exact ((Turned.refl s).settle i _).cancelFor _ cancels
  · exact ((Turned.move s rfl).forget i.id).cancelFor _ cancels
  · split
    · exact (Turned.refl s).settle i _
    · split
      · exact (Turned.refl s).attempt i _
      · exact .refl s
  · exact (Turned.refl s).settle i d

/-- What a turn leaves alone. -/
theorem turn_turned : s.Turned (s.turn i pace reply cancels) := by
  unfold turn
  split
  · exact (Turned.move s rfl).forget i.id
  · exact (Turned.move s rfl).attempt i _
  · exact goOn_turned

/-- A press makes messages that are in their context, and uses up
identifiers only. -/
structure Press.Faithful (press : Press) : Prop where
  hub : ∀ hub ctx now, ∃ ids, (press hub ctx now).2 = { hub with ids }
  inContext : ∀ {hub ctx now messages}, (press hub ctx now).1 = .ok messages →
    ∀ m ∈ messages, m.InContext ctx

theorem single_faithful (key : String) (content : Content) : Press.Faithful (single key content)
    where
  hub hub ctx now := hub.publish_hub ctx now key content
  inContext := by
    intro hub ctx now messages hmade
    cases hpublish : (hub.publish ctx now key content).1 with
    | error e => simp [single, hpublish, Except.map] at hmade
    | ok made =>
        obtain ⟨json, m, data, id, -, -, hmessage⟩ := Hub.publish_ok hpublish
        simp only [single, hpublish, Except.map, Except.ok.injEq] at hmade
        rw [← hmade, List.forall_mem_singleton, hmessage]
        exact hub.assemble_inContext ctx now m data id content.subject

theorem batch_faithful (items : List Hub.Item) : Press.Faithful (batch items) where
  hub hub ctx now := hub.publishBatch_hub ctx now items
  inContext := by
    intro hub ctx now messages hmade
    cases hpublish : (hub.publishBatch ctx now items).1 with
    | error e => simp [batch, hpublish, Except.map] at hmade
    | ok made =>
        simp only [batch, hpublish, Except.map, Except.ok.injEq] at hmade
        exact hmade ▸ Hub.publishBatch_inContext hpublish

/-- An author publishes in the attempt and in the flow that it stands
in. -/
def Stands (s : Site) (author : Option Attempt) (ctx : Context) : Prop :=
  ∀ a, author = some a → ∃ arrival, a ∈ s.attempts ∧ a.arrival? = some arrival ∧
    arrival.ctx.SameFlow ctx

/-- The stance of an author is one of an attempt that has reached its
handler, or an outside one.  Taking it hands out tokens only. -/
theorem stance_stands {P : Task → Prop} {attempt : Option Attempt} {ctx : Context}
    {ambient : Ambient} (h : s.stance author = some (attempt, ctx, ambient)) :
    s.Stands attempt ctx ∧ System.LeadsTo P s.system { s.system with ambient } := by
  cases author with
  | outside outer =>
      simp only [stance, Option.some.injEq, Prod.mk.injEq] at h
      obtain ⟨rfl, rfl, rfl⟩ := h
      exact ⟨by simp [Stands], .refl _⟩
  | handler n derivations =>
      cases ha : s.attempts[n]? with
      | none => simp [stance, ha] at h
      | some a =>
          cases harrival : a.arrival? with
          | none => simp [stance, ha, harrival] at h
          | some arrival =>
              cases hd : arrival.ctx.descend derivations s.system.ambient with
              | error why => simp [stance, ha, harrival, hd, Except.toOption] at h
              | ok derived =>
                  obtain ⟨ctx', ambient'⟩ := derived
                  simp only [stance, ha, harrival, hd, Except.toOption, Option.bind_eq_bind,
                    Option.bind_some, Option.some.injEq, Prod.mk.injEq] at h
                  obtain ⟨rfl, rfl, rfl⟩ := h
                  obtain ⟨hflow, hsystem⟩ := Context.descend_ok s.system.bus hd
                  refine ⟨?_, _, hsystem, by simp [List.mem_replicate, Move.registered]⟩
                  rintro _ ⟨⟩
                  exact ⟨arrival, List.mem_of_getElem? ha, harrival, hflow⟩

/-- What publishing does: new publications stand behind the old ones, each
in its author's stance. -/
structure Sent (s s' : Site) : Prop where
  hub : ∃ ids, s'.hub = { s.hub with ids }
  attempts : s'.attempts = s.attempts
  ongoing : s'.ongoing = s.ongoing
  system : ∀ P, System.LeadsTo P s.system s'.system
  publications : ∃ new, s'.publications = s.publications ++ new ∧
    ∀ p ∈ new, s.Stands p.author p.ctx ∧ p.message.InContext p.ctx

theorem send_sent (hpress : Press.Faithful press) : s.Sent (s.send author press) := by
  unfold send
  split
  · exact ⟨⟨s.hub.ids, rfl⟩, rfl, rfl, fun _ => .refl _, [], by simp, by simp⟩
  · rename_i attempt ctx ambient hstance
    dsimp only
    obtain ⟨ids, hids⟩ := hpress.hub s.hub ctx ambient.now
    split
    · rename_i e hub hmade
      rw [hmade] at hids
      exact ⟨⟨ids, hids⟩, rfl, rfl, fun P => (stance_stands hstance).2, [], by simp, by simp⟩
    · rename_i messages hub hmade
      rw [hmade] at hids
      refine ⟨⟨ids, hids⟩, rfl, rfl, ?_, messages.map (⟨attempt, ctx, ·⟩), rfl, ?_⟩
      · intro P
        exact (stance_stands hstance).2.trans (.plain _ (.write ctx messages) rfl)
      · intro p hp
        obtain ⟨m, hm, rfl⟩ := List.mem_map.mp hp
        exact ⟨(stance_stands (P := fun _ => True) hstance).1,
          hpress.inContext (congrArg Prod.fst hmade) m hm⟩

/-- The calls of a node register its task. -/
def callMoves (calls : List (Unit × Task)) : List Move := calls.map fun call => .register call.2

/-- Calls of the bus come down to registrations. -/
theorem callAll_system (calls : List (Unit × Task)) (s : System) :
    Hub.callAll execute calls s = (.ok (), (s.run (callMoves calls)).1) := by
  induction calls generalizing s with
  | nil => rfl
  | cons call calls ih => exact ih (s.apply (.register call.2)).1

/-- So does starting the readers. -/
theorem startNodes_system (nodes : List (Node Unit)) (s : System) :
    (Hub.startNodes execute (fun s _ => s) nodes s).2 =
      (s.run (nodes.flatMap fun n => callMoves n.calls)).1 := by
  induction nodes generalizing s with
  | nil => rfl
  | cons n nodes ih =>
      rw [List.flatMap_cons, System.run_append, ← ih, Hub.startNodes, callAll_system]

/-- Nodes that are handed to the bus register their tasks. -/
theorem startNodes_leadsTo {P : Task → Prop} {nodes : List (Node Unit)} {s : System}
    (h : ∀ n ∈ nodes, P n.task) :
    System.LeadsTo P s (Hub.startNodes execute (fun s _ => s) nodes s).2 := by
  refine ⟨_, startNodes_system nodes s, ?_⟩
  have hcalls (n : Node Unit) (hn : n ∈ nodes) : ∀ call ∈ n.calls, P call.2 := by
    intro call hcall
    unfold Node.calls at hcall
    split at hcall
    · rw [List.eq_of_mem_replicate hcall]
      exact h n hn
    · cases hcall
  simpa [callMoves, Move.registered] using fun task n hn _ hcall => hcalls n hn (_, task) hcall

/-- What a deed comes to. -/
inductive Step (s : Site) : Site → Prop where
  /-- An invocation has had its turn. -/
  | turn {i : Invocation} (hi : i ∈ s.system.bus.running) (pace : Pace) (reply : Bus.Reply)
      (cancels : Bool) : Step s (s.turn i pace reply cancels)
  /-- Somebody has published. -/
  | send {s' : Site} (hsent : s.Sent s') : Step s s'
  /-- The bus has moved, and only nodes were registered. -/
  | moved {system : System}
      (hsystem : System.LeadsTo (fun task => ∃ n ∈ s.hub.nodes, n.task = task) s.system system) :
      Step s { s with system }
  /-- A stream was bound or a reader registered. -/
  | arranged {hub : Hub Unit Unit} (hkept : s.hub.Kept hub)
      (hnodes : ∀ n ∈ hub.nodes, n ∈ s.hub.nodes ∨
        ∃ stream handler options, n = s.hub.fork stream handler options) :
      Step s { s with hub }

/-- Every deed is one of the steps. -/
theorem apply_step (s : Site) (deed : Deed) : s.Step (s.apply deed) := by
  have hstill : s.Step s := .moved (.refl s.system)
  cases deed with
  | bus move =>
      simp only [apply]
      split
      · rename_i hopen
        refine .moved (.plain s.system move ?_)
        cases move with
        | register task => cases hopen
        | _ => rfl
      · exact hstill
  | setStream type m => exact .arranged ⟨rfl, rfl, rfl⟩ fun n hn => .inl hn
  | setStreamByKey key m => exact .arranged ⟨rfl, rfl, rfl⟩ fun n hn => .inl hn
  | read key handler options =>
      simp only [apply]
      split
      · rename_i hub notes hread
        obtain ⟨m, -, rfl⟩ := Hub.read_ok hread
        refine .arranged ⟨rfl, rfl, rfl⟩ ?_
        intro n hn
        rcases List.mem_append.mp hn with hold | hnew
        · exact .inl hold
        · split at hnew
          · cases hnew
          · exact .inr ⟨_, _, _, List.mem_singleton.mp hnew⟩
      · exact hstill
  | launch => exact .moved (startNodes_leadsTo fun n hn => ⟨n, hn, rfl⟩)
  | publish author key content => exact .send (send_sent (single_faithful key content))
  | publishBatch author items => exact .send (send_sent (batch_faithful items))
  | turn id pace reply cancels =>
      simp only [apply]
      split
      · rename_i i hi
        exact .turn (List.mem_of_find?_eq_some hi) pace reply cancels
      · exact hstill

namespace Step

variable {s' : Site}

/-- The bus moves, and only nodes are registered. -/
theorem system (h : s.Step s') :
    System.LeadsTo (fun task => ∃ n ∈ s.hub.nodes, n.task = task) s.system s'.system := by
  cases h with
  | turn hi pace reply cancels => exact turn_turned.system _
  | send hsent => exact hsent.system _
  | moved hsystem => exact hsystem
  | arranged hkept hnodes => exact .refl s.system

/-- Attempts are only added. -/
theorem attempts (h : s.Step s') : s.attempts <+: s'.attempts := by
  cases h with
  | turn hi pace reply cancels => exact turn_turned.attempts
  | send hsent => exact hsent.attempts ▸ List.prefix_rfl
  | moved hsystem => exact List.prefix_rfl
  | arranged hkept hnodes => exact List.prefix_rfl

/-- Publications are only added, and every new one stands in its author's
stance. -/
theorem publications (h : s.Step s') :
    ∃ new, s'.publications = s.publications ++ new ∧
      ∀ p ∈ new, s.Stands p.author p.ctx ∧ p.message.InContext p.ctx := by
  have hnone : s.publications = s.publications ++ [] := (List.append_nil _).symm
  cases h with
  | turn hi pace reply cancels => exact ⟨[], turn_turned.publications.trans hnone, by simp⟩
  | send hsent => exact hsent.publications
  | moved hsystem => exact ⟨[], hnone, by simp⟩
  | arranged hkept hnodes => exact ⟨[], hnone, by simp⟩

/-- Codec, schemas and behaviors of the hub stay. -/
theorem kept (h : s.Step s') : s.hub.Kept s'.hub := by
  cases h with
  | turn hi pace reply cancels => exact turn_turned.hub ▸ .refl s.hub
  | send hsent =>
      obtain ⟨ids, hids⟩ := hsent.hub
      exact hids ▸ ⟨rfl, rfl, rfl⟩
  | moved hsystem => exact .refl s.hub
  | arranged hkept hnodes => exact hkept

/-- A new node is a fork of the hub. -/
theorem nodes (h : s.Step s') {n : Node Unit} (hn : n ∈ s'.hub.nodes) :
    n ∈ s.hub.nodes ∨ ∃ stream handler options, n = s.hub.fork stream handler options := by
  cases h with
  | turn hi pace reply cancels => exact .inl (turn_turned.hub ▸ hn)
  | send hsent =>
      obtain ⟨ids, hids⟩ := hsent.hub
      rw [hids] at hn
      exact .inl hn
  | moved hsystem => exact .inl hn
  | arranged hkept hnodes => exact hnodes n hn

end Step

/-- One more deed. -/
theorem run_concat (s : Site) (deeds : List Deed) (deed : Deed) :
    s.run (deeds ++ [deed]) = (s.run deeds).apply deed := by
  simp [run]

/-- Some more deeds. -/
theorem run_append (s : Site) (deeds later : List Deed) :
    s.run (deeds ++ later) = (s.run deeds).run later := by
  simp [run]

/-- Codec, schemas and behaviors of the hub stay through a run. -/
theorem run_kept (s : Site) (deeds : List Deed) : s.hub.Kept (s.run deeds).hub := by
  induction deeds generalizing s with
  | nil => exact .refl s.hub
  | cons deed deeds ih => exact (s.apply_step deed).kept.trans (ih (s.apply deed))

end Site
end PubSub
