import Mathlib.Algebra.GroupWithZero.Nat
import PubSub.Proofs.Bus.Listeners
import PubSub.Proofs.Hub.Snapshot
import PubSub.Proofs.Site.Scenario
import PubSub.Scenario.Program

/-!
# Registering readers and starting them

Streams are bound and readers registered in any order.  A reader gets a node for
the stream that its key is bound to at that time, and keeps it.  To start a hub is
to hand its nodes to their drivers, one after the other and each as often as its
concurrency says, up to the first failure.

* `Arrangement`, `Hub.arrangeAll` — binding streams and registering readers;
* `Hub.ReadLaw`, `Hub.arranged` — what a registration comes to;
* `Hub.CalledUpTo`, `Hub.started` — which calls are made;
* `Scenario.counted` — the listeners of a bus that has been started often;
* `Hub.readers_run` — all of it.
-/

namespace PubSub

/-- What a program says to its hub before it starts. -/
inductive Arrangement (δ : Type) where
  | register (op : Registration)
  | read (key handler : String) (options : ReaderOptions δ)

/-- The binding of a stream, if it is one. -/
def Arrangement.registration? {δ : Type} : Arrangement δ → Option Registration
  | .register op => some op
  | .read .. => none

namespace Hub

variable {ω δ σ : Type}

/-- The answer of a hub, and the hub afterwards. -/
def arrange (h : Hub ω δ) : Arrangement δ → Except Error Unit × Hub ω δ
  | .register op => (.ok (), h.register op)
  | .read key handler options =>
      match h.read key handler options with
      | .ok (h, _) => (.ok (), h)
      | .error e => (.error e, h)

/-- The hub after many arrangements. -/
def arrangeAll (h : Hub ω δ) (steps : List (Arrangement δ)) : Hub ω δ :=
  steps.foldl (fun h step => (h.arrange step).2) h

/-- What a key is bound to after some arrangements: what was bound last, or else
what the hub knew before. -/
def boundAfter (h : Hub ω δ) (steps : List (Arrangement δ)) (key : String) : Option Metadata :=
  latest (steps.filterMap Arrangement.registration?) key <|> h.registry.entry? key

/-- What the registration of a reader comes to when its key is bound so. -/
inductive ReadLaw (h : Hub ω δ) (bound : Option Metadata) (key handler : String)
    (options : ReaderOptions δ) : Except Error Unit × Hub ω δ → Prop
  | missing (hbound : bound = none) :
      ReadLaw h bound key handler options (.error (.missingStream key), h)
  | unnamed {m : Metadata} (hbound : bound = some m) (hempty : m.stream = "") :
      ReadLaw h bound key handler options (.ok (), h)
  /-- One node is added.  What an option is comes from the registration, or else
  from the hub's own options, or else from its defaults. -/
  | appended {m : Metadata} (n : Node δ) (hbound : bound = some m) (hnamed : m.stream ≠ "")
      (hfork : n = h.fork m.stream handler options) (hstream : n.stream = m.stream)
      (hdriver : n.driver = (options.driver <|> h.baseOptions.driver <|> h.readerDriver))
      (hconcurrency : n.concurrency =
        (options.concurrency <|> h.baseOptions.concurrency).getD ReaderOptions.defaultConcurrency) :
      ReadLaw h bound key handler options (.ok (), { h with nodes := h.nodes ++ [n] })

/-- What holds of the arrangements that a hub is given. -/
structure Arranged (h : Hub ω δ) (steps : List (Arrangement δ)) : Prop where
  /-- A reader is registered for the stream that its key is bound to then. -/
  read : ∀ before key handler options after, steps = before ++ .read key handler options :: after →
    (h.arrangeAll before).ReadLaw (h.boundAfter before key) key handler options
      ((h.arrangeAll before).arrange (.read key handler options))
  /-- Binding a stream does not touch the nodes. -/
  register : ∀ before op after, steps = before ++ .register op :: after →
    (h.arrangeAll (before ++ [.register op])).nodes = (h.arrangeAll before).nodes
  /-- Nodes stay as they are. -/
  kept : ∀ before after, steps = before ++ after →
    (h.arrangeAll before).nodes <+: (h.arrangeAll steps).nodes

variable {h h' : Hub ω δ} {steps : List (Arrangement δ)} {key handler : String}
  {options : ReaderOptions δ}

theorem arrangeAll_append (h : Hub ω δ) (before after : List (Arrangement δ)) :
    h.arrangeAll (before ++ after) = (h.arrangeAll before).arrangeAll after :=
  List.foldl_append ..

/-- A reader is registered for what the hub finds under its key. -/
theorem arrange_read (h : Hub ω δ) (key handler : String) (options : ReaderOptions δ)
    {bound : Option Metadata} (hbound : h.registry.entry? key = bound) :
    h.ReadLaw bound key handler options (h.arrange (.read key handler options)) := by
  cases bound with
  | none =>
      simp only [arrange, read, Registry.get, hbound, bind, Except.bind]
      exact .missing rfl
  | some m =>
      simp only [arrange, read, Registry.get, hbound, bind, Except.bind]
      by_cases hempty : m.stream = ""
      · simp only [if_pos hempty]
        exact .unnamed rfl hempty
      · simp only [if_neg hempty]
        refine .appended _ rfl hempty rfl rfl ?_ ?_
        · simp only [fork, Node.fork, ReaderOptions.overlay, ReaderOptions.builtIn]
        · simp only [fork, Node.fork, ReaderOptions.overlay, ReaderOptions.builtIn]
          cases options.concurrency <;> cases h.baseOptions.concurrency <;> rfl

/-- An arrangement adds nodes, if anything, and a reader binds no stream. -/
theorem arrange_frame (h : Hub ω δ) (step : Arrangement δ) :
    h.nodes <+: (h.arrange step).2.nodes ∧
      (h.arrange step).2.registry =
        (step.registration?.elim h.registry h.registry.register) := by
  cases step with
  | register op => cases op <;> exact ⟨List.prefix_refl _, rfl⟩
  | read key handler options =>
      have hlaw := h.arrange_read key handler options rfl
      generalize h.arrange (.read key handler options) = outcome at hlaw
      cases hlaw with
      | missing _ => exact ⟨List.prefix_refl _, rfl⟩
      | unnamed _ _ => exact ⟨List.prefix_refl _, rfl⟩
      | appended n _ _ _ _ _ _ => exact ⟨List.prefix_append _ _, rfl⟩

/-- Every key is bound to what it was bound to last. -/
theorem entry?_arrangeAll (h : Hub ω δ) (steps : List (Arrangement δ)) (key : String) :
    Registry.entry? (h.arrangeAll steps).registry key = h.boundAfter steps key := by
  induction steps using List.reverseRecOn with
  | nil => simp [arrangeAll, boundAfter, latest]
  | append_singleton steps step ih =>
      rw [arrangeAll_append]
      change Registry.entry? ((h.arrangeAll steps).arrange step).2.registry key = _
      rw [((h.arrangeAll steps).arrange_frame step).2]
      cases step with
      | read _ _ _ =>
          rw [boundAfter, List.filterMap_append]
          change _ = (latest (steps.filterMap Arrangement.registration? ++ []) key <|> _)
          rw [List.append_nil]
          exact ih
      | register op =>
          rw [boundAfter, List.filterMap_append]
          change Registry.entry? ((h.arrangeAll steps).registry.register op) key =
            (latest (steps.filterMap Arrangement.registration? ++ [op]) key <|> _)
          rw [latest_concat, Registry.register_eq, Registry.entry?_set, ih]
          by_cases hkey : key = op.key
          · simp [hkey]
          · simp [hkey, Ne.symm hkey, boundAfter]

/-- Nodes stay. -/
theorem nodes_arrangeAll (h : Hub ω δ) (steps : List (Arrangement δ)) :
    h.nodes <+: (h.arrangeAll steps).nodes := by
  induction steps generalizing h with
  | nil => exact List.prefix_refl _
  | cons step steps ih => exact (h.arrange_frame step).1.trans (ih _)

/-- Readers get the nodes that they were registered for. -/
theorem arranged (h : Hub ω δ) (steps : List (Arrangement δ)) : h.Arranged steps where
  read before key handler options after _ :=
    (h.arrangeAll before).arrange_read key handler options (h.entry?_arrangeAll before key)
  register before op after _ := by
    rw [arrangeAll_append]
    cases op <;> rfl
  kept before after hsteps := by
    rw [hsteps, arrangeAll_append]
    exact nodes_arrangeAll _ after

/-- A call of a driver, and what it came to. -/
abbrev Called (δ : Type) := (δ × Task) × Except Error Unit

/-- Making calls, which are written down. -/
def recorded (execute : σ → δ → Task → Except Error Unit × σ) :
    σ × List (Called δ) → δ → Task → Except Error Unit × (σ × List (Called δ)) :=
  fun (s, log) driver task =>
    let (result, s) := execute s driver task
    (result, (s, log ++ [((driver, task), result)]))

/-- All the calls for some nodes: for each that has a driver, its task as often as
its concurrency says. -/
def callsFor (nodes : List (Node δ)) : List (δ × Task) :=
  (nodes.filterMap fun n => n.driver.map fun driver =>
    List.replicate n.concurrency (driver, n.task)).flatten

/-- The calls were made in order, up to the first that failed, which decides the
result. -/
inductive CalledUpTo (calls : List (δ × Task)) : List (Called δ) → Except Error Unit → Prop
  | all : CalledUpTo calls (calls.map (·, .ok ())) (.ok ())
  | failed (before after : List (δ × Task)) {call : δ × Task} {e : Error}
      (hcalls : calls = before ++ call :: after) :
      CalledUpTo calls (before.map (·, .ok ()) ++ [(call, .error e)]) (.error e)

/-- What holds of the start of a hub, with any drivers: the record shows the calls
that it should. -/
def Started (h : Hub ω δ) (execute : σ → δ → Task → Except Error Unit × σ)
    (report : σ → LogEvent → σ) (s : σ) : Prop :=
  ∃ log, h.startWith (recorded execute) (fun (s, log) e => (report s e, log)) (s, []) =
      ((h.startWith execute report s).1, ((h.startWith execute report s).2, log)) ∧
    CalledUpTo (callsFor h.nodes) log (h.startWith execute report s).1

variable {execute : σ → δ → Task → Except Error Unit × σ} {report : σ → LogEvent → σ}
  {calls later : List (δ × Task)} {log log' : List (Called δ)} {result : Except Error Unit}
  {nodes : List (Node δ)}

/-- After calls that all succeed, more can be made. -/
theorem CalledUpTo.append (calls : List (δ × Task)) (h : CalledUpTo later log result) :
    CalledUpTo (calls ++ later) (calls.map (·, .ok ()) ++ log) result := by
  cases h with
  | all =>
      rw [← List.map_append]
      exact .all
  | @failed before after call e hcalls =>
      rw [← List.append_assoc, ← List.map_append]
      refine .failed _ after ?_
      rw [hcalls, List.append_assoc]

/-- After a call that failed, no more are made. -/
theorem CalledUpTo.failed_append {e : Error} (h : CalledUpTo calls log (.error e)) :
    CalledUpTo (calls ++ later) log (.error e) := by
  cases h with
  | @failed before after call e hcalls =>
      refine .failed before (after ++ later) ?_
      rw [hcalls, List.append_assoc, List.cons_append]

/-- Calls that all succeeded. -/
theorem CalledUpTo.of_ok (h : CalledUpTo calls log (.ok ())) : log = calls.map (·, .ok ()) := by
  cases h
  rfl

/-- Calls are made up to the first failure, whether they are written down or
not. -/
theorem callAll_called (execute : σ → δ → Task → Except Error Unit × σ) (calls : List (δ × Task))
    (s : σ) (past : List (Called δ)) :
    ∃ log, callAll (recorded execute) calls (s, past) =
        ((callAll execute calls s).1, ((callAll execute calls s).2, past ++ log)) ∧
      CalledUpTo calls log (callAll execute calls s).1 := by
  induction calls generalizing s past with
  | nil => exact ⟨[], by rw [List.append_nil]; rfl, .all⟩
  | cons call calls ih =>
      obtain ⟨driver, task⟩ := call
      cases hfirst : execute s driver task with
      | mk result s' =>
          cases result with
          | error e =>
              refine ⟨[((driver, task), .error e)], ?_, ?_⟩
              · simp only [callAll, recorded, hfirst]
              · simp only [callAll, hfirst]
                exact .failed [] calls rfl
          | ok u =>
              obtain ⟨log, hrest, hcalled⟩ := ih s' (past ++ [((driver, task), .ok ())])
              refine ⟨((driver, task), .ok ()) :: log, ?_, ?_⟩
              · simp only [callAll, recorded, hfirst]
                rw [hrest, List.append_assoc, List.singleton_append]
              · simp only [callAll, hfirst]
                exact hcalled.append [(driver, task)]

/-- The calls for nodes, node by node. -/
theorem callsFor_cons (n : Node δ) (nodes : List (Node δ)) :
    callsFor (n :: nodes) = n.calls ++ callsFor nodes := by
  unfold callsFor Node.calls
  cases hdriver : n.driver with
  | none => simp [hdriver]
  | some driver => simp [hdriver]

/-- Nodes are handed to their drivers up to the first failure. -/
theorem startNodes_called (execute : σ → δ → Task → Except Error Unit × σ)
    (report : σ → LogEvent → σ) (nodes : List (Node δ)) (s : σ) (past : List (Called δ)) :
    ∃ log, startNodes (recorded execute) (fun (s, log) e => (report s e, log)) nodes (s, past) =
        ((startNodes execute report nodes s).1,
          ((startNodes execute report nodes s).2, past ++ log)) ∧
      CalledUpTo (callsFor nodes) log (startNodes execute report nodes s).1 := by
  induction nodes generalizing s past with
  | nil => exact ⟨[], by rw [List.append_nil]; rfl, .all⟩
  | cons n nodes ih =>
      obtain ⟨log, hcalls, hcalled⟩ := callAll_called execute n.calls s past
      rw [callsFor_cons]
      simp only [startNodes, hcalls]
      cases hresult : callAll execute n.calls s with
      | mk result s' =>
          rw [hresult] at hcalled
          cases result with
          | error e => exact ⟨log, rfl, hcalled.failed_append⟩
          | ok u =>
              obtain ⟨log', hrest, hcalled'⟩ := ih (report s' (startedEvent n)) (past ++ log)
              refine ⟨log ++ log', ?_, ?_⟩
              · simp only [hrest, List.append_assoc]
              · rw [hcalled.of_ok]
                exact hcalled'.append n.calls

/-- A hub starts as it should. -/
theorem started (h : Hub ω δ) (execute : σ → δ → Task → Except Error Unit × σ)
    (report : σ → LogEvent → σ) (s : σ) : h.Started execute report s := by
  obtain ⟨log, hstart, hcalled⟩ :=
    startNodes_called execute report h.nodes (report s h.startingEvent) []
  exact ⟨log, hstart, hcalled⟩

end Hub

namespace Scenario

/-- What is observed does not touch the hub. -/
theorem observe_hub (s : Scenario) (events : List BusEvent) :
    (events.foldl observe s).hub = s.hub := by
  induction events generalizing s with
  | nil => rfl
  | cons e events ih =>
      refine (ih (s.observe e)).trans ?_
      cases e <;> rfl

/-- A move of the bus does not touch the hub. -/
theorem moved_hub (s : Scenario) (m : Move) : (s.moved m).hub = s.hub :=
  observe_hub _ _

/-- A move of the bus registers at most its own listener. -/
theorem moved_listeners (s : Scenario) (m : Move) :
    (s.moved m).bus.listeners = s.bus.listeners ++ m.registered := by
  have hsystem := (s.moved_stage m).1
  rw [bus, hsystem, System.apply_listeners]
  rfl

/-- Calls of the bus register their tasks. -/
theorem callAll_bus (s : Scenario) (calls : List (Feed × Task))
    (h : ∀ call ∈ calls, call.1 = .bus) :
    (Hub.callAll execute calls s).1 = .ok () ∧ (Hub.callAll execute calls s).2.hub = s.hub ∧
      (Hub.callAll execute calls s).2.bus.listeners = s.bus.listeners ++ calls.map (·.2) := by
  induction calls generalizing s with
  | nil => exact ⟨rfl, rfl, (List.append_nil _).symm⟩
  | cons call calls ih =>
      obtain ⟨feed, task⟩ := call
      have hfeed : feed = .bus := h _ List.mem_cons_self
      subst hfeed
      obtain ⟨hok, hhub, hlisteners⟩ :=
        ih (s.moved (.register task)) fun call hcall => h call (List.mem_cons_of_mem _ hcall)
      refine ⟨hok, hhub.trans (s.moved_hub _), hlisteners.trans ?_⟩
      rw [moved_listeners, List.append_assoc]
      rfl

/-- The tasks for nodes, each as often as its concurrency says. -/
def tasksFor {δ : Type} (nodes : List (Node δ)) : List Task :=
  nodes.flatMap fun n => List.replicate n.concurrency n.task

/-- Nodes that are handed to the bus become listeners. -/
theorem startNodes_bus (s : Scenario) (nodes : List (Node Feed))
    (h : ∀ n ∈ nodes, n.driver = some .bus) :
    (Hub.startNodes execute report nodes s).1 = .ok () ∧
      (Hub.startNodes execute report nodes s).2.hub = s.hub ∧
      (Hub.startNodes execute report nodes s).2.bus.listeners =
        s.bus.listeners ++ tasksFor nodes := by
  induction nodes generalizing s with
  | nil => exact ⟨rfl, rfl, (List.append_nil _).symm⟩
  | cons n nodes ih =>
      have hcalls : n.calls = List.replicate n.concurrency (.bus, n.task) := by
        rw [Node.calls, h n List.mem_cons_self]
      have hbus : ∀ call ∈ n.calls, call.1 = Feed.bus := by
        intro call hcall
        rw [hcalls] at hcall
        rw [List.eq_of_mem_replicate hcall]
      obtain ⟨hok, hhub, hlisteners⟩ := s.callAll_bus n.calls hbus
      cases hresult : Hub.callAll execute n.calls s with
      | mk result s' =>
          rw [hresult] at hok hhub hlisteners
          cases hok
          simp only [Hub.startNodes, hresult]
          obtain ⟨hok', hhub', hlisteners'⟩ := ih (s'.report (Hub.startedEvent n))
            fun n hn => h n (List.mem_cons_of_mem _ hn)
          refine ⟨hok', hhub'.trans hhub, hlisteners'.trans ?_⟩
          change s'.bus.listeners ++ tasksFor nodes = _
          rw [hlisteners, hcalls, List.map_replicate, List.append_assoc]
          rfl

/-- A start of the readers, or a move of the bus. -/
abbrev Stir := Option Move

/-- What becomes of a scenario when its readers are started now and then, and the
bus moves meanwhile. -/
def stir (s : Scenario) (stirs : List Stir) : Scenario :=
  stirs.foldl (fun s x => x.elim s.startReaders.1 s.moved) s

/-- What holds of a scenario whose bus has no listeners yet and is the driver of
all nodes.  Its readers are started now and then, and in between the bus moves
without anybody else registering anything: then every start succeeds, and every
stream has as many listeners as its nodes have units of concurrency, for each
start. -/
def Counted (s : Scenario) : Prop :=
  s.bus.listeners = [] → (∀ n ∈ s.hub.nodes, n.driver = some .bus) →
    ∀ stirs : List Stir, (∀ m, some m ∈ stirs → m.registered = []) →
      (s.stir stirs).startReaders.2 = .ok () ∧
        ∀ stream, (s.stir stirs).bus.listenerCount stream =
          stirs.countP Option.isNone *
            ((s.hub.nodes.filter (·.stream == stream)).map (·.concurrency)).sum

variable {s : Scenario}

/-- The start of the readers makes all nodes listeners. -/
theorem startReaders_bus (h : ∀ n ∈ s.hub.nodes, n.driver = some .bus) :
    s.startReaders.2 = .ok () ∧ s.startReaders.1.hub = s.hub ∧
      s.startReaders.1.bus.listeners = s.bus.listeners ++ tasksFor s.hub.nodes :=
  startNodes_bus (s.report s.hub.startingEvent) s.hub.nodes h

/-- After some starts, all nodes are listeners as often. -/
theorem stir_listeners (h : ∀ n ∈ s.hub.nodes, n.driver = some .bus) (stirs : List Stir)
    (hmoves : ∀ m, some m ∈ stirs → m.registered = []) :
    (s.stir stirs).hub = s.hub ∧
      (s.stir stirs).bus.listeners = s.bus.listeners ++
        (List.replicate (stirs.countP Option.isNone) (tasksFor s.hub.nodes)).flatten := by
  induction stirs generalizing s with
  | nil => exact ⟨rfl, (List.append_nil _).symm⟩
  | cons x stirs ih =>
      have hrest : ∀ m, some m ∈ stirs → m.registered = [] :=
        fun m hm => hmoves m (List.mem_cons_of_mem _ hm)
      cases x with
      | none =>
          obtain ⟨-, hhub, hlisteners⟩ := startReaders_bus h
          obtain ⟨hhub', hlisteners'⟩ := ih (s := s.startReaders.1) (hhub ▸ h) hrest
          refine ⟨hhub'.trans hhub, hlisteners'.trans ?_⟩
          rw [hlisteners, hhub, List.append_assoc]
          simp [List.replicate_succ]
      | some m =>
          have hhub := s.moved_hub m
          obtain ⟨hhub', hlisteners'⟩ := ih (s := s.moved m) (hhub ▸ h) hrest
          refine ⟨hhub'.trans hhub, hlisteners'.trans ?_⟩
          rw [moved_listeners, hmoves m List.mem_cons_self, List.append_nil, hhub]
          simp

/-- The tasks for nodes, counted by their stream. -/
theorem tasksFor_count {δ : Type} (nodes : List (Node δ)) (stream : String) :
    ((tasksFor nodes).filter (·.stream == stream)).length =
      ((nodes.filter (·.stream == stream)).map (·.concurrency)).sum := by
  induction nodes with
  | nil => rfl
  | cons n nodes ih =>
      have htask : n.task.stream = n.stream := rfl
      unfold tasksFor at ih ⊢
      rw [List.flatMap_cons, List.filter_append, List.length_append, ih]
      by_cases hstream : n.stream = stream
      · simp [htask, hstream]
      · simp [htask, hstream]

/-- The listeners are counted as they should be. -/
theorem counted (s : Scenario) : s.Counted := by
  intro hempty hdrivers stirs hmoves
  obtain ⟨hhub, hlisteners⟩ := stir_listeners hdrivers stirs hmoves
  refine ⟨(startReaders_bus (hhub ▸ hdrivers)).1, ?_⟩
  intro stream
  rw [Bus.listenerCount, hlisteners, hempty, List.nil_append, List.filter_flatten,
    List.map_replicate, List.length_flatten, List.map_replicate, List.sum_replicate_nat,
    tasksFor_count]

end Scenario

namespace Scenario

/-- Notes do not touch the hub. -/
theorem notes_hub (s : Scenario) (ns : List Note) : (s.notes ns).hub = s.hub := by
  induction ns generalizing s with
  | nil => rfl
  | cons n ns ih =>
      refine (ih (s.note n)).trans ?_
      cases n <;> rfl

/-- A program that registers a reader gets the answer of its hub. -/
theorem read_arrange (s : Scenario) (key handler : String) (options : ReaderOptions Feed) :
    ((s.read key handler options).2.map fun _ => ()) =
        (s.hub.arrange (.read key handler options)).1 ∧
      (s.read key handler options).1.hub = (s.hub.arrange (.read key handler options)).2 := by
  unfold read
  simp only [Hub.arrange]
  cases s.hub.read key handler options with
  | error e => exact ⟨rfl, rfl⟩
  | ok read => exact ⟨rfl, notes_hub _ _⟩

end Scenario

/-- **Readers from their registration to the bus.**  Streams are bound and readers
registered in any order; then every reader has the node for the stream that its
key was bound to when it was registered, if that stream has a name, and a reader
whose key was not bound has failed and changed nothing.  However the drivers
behave, the start of such a hub makes the calls for its nodes in order, up to the
first that fails.  On a bus that is the driver of all nodes, each start adds as
many listeners to a stream as its nodes have units of concurrency. -/
theorem Hub.readers_run {ω δ σ : Type} (h : Hub ω δ) (steps : List (Arrangement δ))
    (execute : σ → δ → Task → Except Error Unit × σ) (report : σ → LogEvent → σ) (s : σ)
    (program : Scenario) :
    h.Arranged steps ∧ (h.arrangeAll steps).Started execute report s ∧ program.Counted :=
  ⟨h.arranged steps, started _ execute report s, program.counted⟩

/-- A reader of a stream that is bound anew, one of the new stream, and one of a
stream that is not known. -/
def sampleArrangements : List (Arrangement Feed) :=
  [.register (.set "orders" (.ofStream "orders")),
    .read "orders" "bill" { ReaderOptions.unset with concurrency := some 2 },
    .register (.set "orders" (.ofStream "returns")), .read "orders" "restock" .unset,
    .read "parcels" "ship" .unset]

/-- They are started twice, on a bus that moves in between. -/
theorem Hub.readers_run_rebound :
    let shop : Hub Sink Feed := { Hub.blank "shop" with readerDriver := some .bus }
    let stirs : List Scenario.Stir := [none, some .dispatcher, none]
    ∃ program, Scenario.start (shop.arrangeAll sampleArrangements) .standard [] = .ok program ∧
      shop.Arranged sampleArrangements ∧
      program.hub.nodes.map (fun n => (n.stream, n.concurrency)) =
        [("orders", 2), ("returns", 1)] ∧
      (program.stir stirs).startReaders.2 = .ok () ∧
      (program.stir stirs).bus.listenerCount "orders" = 4 ∧
      (program.stir stirs).bus.listenerCount "returns" = 2 := by
  intro shop stirs
  obtain ⟨program, hprogram⟩ : ∃ program,
      Scenario.start (shop.arrangeAll sampleArrangements) .standard [] = .ok program := ⟨_, rfl⟩
  have hhub : program.hub = shop.arrangeAll sampleArrangements := by
    cases hprogram
    rfl
  have hempty : program.bus.listeners = [] := by
    cases hprogram
    rfl
  have hdrivers : ∀ n ∈ program.hub.nodes, n.driver = some .bus := by
    rw [hhub]
    intro n hn
    rcases List.mem_pair.mp hn with rfl | rfl <;> rfl
  have hmoves : ∀ m, some m ∈ stirs → m.registered = [] := by
    intro m hm
    have hdispatcher : m = .dispatcher := by simpa [stirs] using hm
    rw [hdispatcher]
    rfl
  obtain ⟨harranged, -, hcounted⟩ :=
    shop.readers_run sampleArrangements Scenario.execute Scenario.report program program
  obtain ⟨hok, hcount⟩ := hcounted hempty hdrivers stirs hmoves
  refine ⟨program, hprogram, harranged, ?_, hok, ?_, ?_⟩
  · rw [hhub]
    rfl
  · rw [hcount, hhub]
    rfl
  · rw [hcount, hhub]
    rfl

end PubSub
