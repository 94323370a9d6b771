import PubSub.Proofs.Config
import PubSub.Proofs.Hub.Readers
import PubSub.Proofs.Reader.Layers

/-!
# The options of a node

When a reader is registered, its node is forked with the options of three
layers: those of the reader over those of the hub over the built-in ones.  Each
option of the node comes from the highest of the layers that sets it, whatever
the layers say of other options.  The spans between attempts and the timeout
are then handed on: attempts are repeated within the timeout, and it is the
timeout of the task too.

* `Node.get`, `Setting.standard` — an option of a node, and what it is unless set;
* `Hub.get_fork`, `Hub.get_fork_congr` — where an option of a node comes from;
* `Hub.Settled`, `Hub.fork_settled` — what holds of a node with its options;
* `Hub.arrangeAll_settled` — all nodes of a hub;
* `Hub.options_resolve` — all of it.
-/

namespace PubSub

/-- What an option is unless it is set, in a hub whose readers use `driver`
unless they name their own. -/
def Setting.standard {δ : Type} (driver : Option δ) : (k : Setting) → Option (k.Value δ)
  | .group => some ""
  | .concurrency => some 1
  | .initialInterval => some (Span.ofSeconds 3)
  | .maxInterval | .timeout => some (Span.ofSeconds 15)
  | .poolSize => some 10
  | .driver => driver
  | .driverConfig => none

/-- How a stage repeats attempts, if it does. -/
def Stage.policy? : Stage → Option RetryPolicy
  | .retry policy => some policy
  | _ => none

namespace Node

variable {δ : Type}

/-- What an option of a node is. -/
def get (n : Node δ) : (k : Setting) → Option (k.Value δ)
  | .group => some n.group
  | .concurrency => some n.concurrency
  | .initialInterval => some n.initialInterval
  | .maxInterval => some n.maxInterval
  | .timeout => some n.timeout
  | .poolSize => some n.poolSize
  | .driver => n.driver
  | .driverConfig => n.driverConfig

/-- What no layer has set is filled in, where something has to be. -/
theorem get_fork (stream handler : String) (decoding : Decoding) (behaviors : List Behavior)
    (o : ReaderOptions δ) (k : Setting) :
    (fork stream handler decoding behaviors o).get k = (o.get k).or (k.standard none) := by
  cases k with
  | driver | driverConfig => exact Option.or_none.symm
  | _ => exact Option.or_some.symm

/-- Behaviors that are made ready for a node repeat attempts with its spans. -/
theorem policies_ready (n : Node δ) (decoding : Decoding) (behaviors : List Behavior) :
    (behaviors.map (n.ready decoding)).filterMap Stage.policy? =
      List.replicate (behaviors.count .retry)
        (.ofSpans n.initialInterval n.maxInterval n.timeout) := by
  induction behaviors with
  | nil => rfl
  | cons behavior behaviors ih =>
      cases behavior with
      | retry =>
          rw [List.map_cons, List.count_cons_self, List.replicate_succ, ← ih]
          rfl
      | _ =>
          rw [List.map_cons, List.count_cons_of_ne (by simp), ← ih]
          rfl

/-- So a node repeats attempts as often as its behaviors say. -/
theorem policies_fork (stream handler : String) (decoding : Decoding)
    (behaviors : List Behavior) (o : ReaderOptions δ) :
    let n := fork stream handler decoding behaviors o
    n.target.stages.filterMap Stage.policy? = List.replicate (behaviors.count .retry)
      (.ofSpans n.initialInterval n.maxInterval n.timeout) := by
  intro n
  rw [fork_stages stream handler decoding behaviors o, policies_ready, List.count_reverse]

/-- A driver is handed the task of a node that names it. -/
theorem of_mem_calls {n : Node δ} {call : δ × Task} (h : call ∈ n.calls) :
    n.driver = some call.1 ∧ call.2 = n.task := by
  unfold calls at h
  split at h
  · next driver hdriver =>
      obtain rfl := List.eq_of_mem_replicate h
      exact ⟨hdriver, rfl⟩
  · cases h

end Node

namespace Hub

variable {ω δ : Type}

/-- The lowest layer and what is filled in after all layers come to what options
are unless they are set.  Only the driver is in one and not in the other, and
the group is filled in though no layer sets it. -/
theorem get_builtIn_or (driver : Option δ) (k : Setting) :
    ((ReaderOptions.builtIn driver).get k).or (k.standard none) = k.standard driver := by
  cases k with
  | driver => exact Option.or_none
  | _ => rfl

/-- **An option of a node is what its reader says, or else what its hub says, or
else what it is unless set.** -/
theorem get_fork (h : Hub ω δ) (stream handler : String) (options : ReaderOptions δ)
    (k : Setting) :
    (h.fork stream handler options).get k =
      (options.get k).or ((h.baseOptions.get k).or (k.standard h.readerDriver)) := by
  rw [fork, Node.get_fork, ReaderOptions.get_overlay, ReaderOptions.get_overlay,
    Option.or_assoc, Option.or_assoc, get_builtIn_or]

/-- An option of a node does not depend on the other options of any layer, nor
on anything else. -/
theorem get_fork_congr {h h' : Hub ω δ} {options options' : ReaderOptions δ} {k : Setting}
    (hreader : options'.get k = options.get k) (hhub : h'.baseOptions.get k = h.baseOptions.get k)
    (hdriver : k = .driver → h'.readerDriver = h.readerDriver)
    (stream stream' handler handler' : String) :
    (h'.fork stream' handler' options').get k = (h.fork stream handler options).get k := by
  have hstandard : k.standard h'.readerDriver = k.standard h.readerDriver := by
    cases k with
    | driver => exact hdriver rfl
    | _ => rfl
  rw [get_fork, get_fork, hreader, hhub, hstandard]

/-- What holds of a node that was forked with the options of its reader. -/
structure Settled (h : Hub ω δ) (options : ReaderOptions δ) (n : Node δ) : Prop where
  /-- Every option is what the reader says, or else what the hub says, or else what
  it is unless set. -/
  option : ∀ k : Setting,
    n.get k = (options.get k).or ((h.baseOptions.get k).or (k.standard h.readerDriver))
  /-- Attempts are repeated as often as the hub says, with the spans of the node. -/
  repeats : n.target.stages.filterMap Stage.policy? = List.replicate (h.behaviors.count .retry)
    (.ofSpans n.initialInterval n.maxInterval n.timeout)
  /-- The timeout is that of the task, and all the time that there is for attempts. -/
  timeout : n.task.timeout = n.timeout ∧
    ∀ policy, .retry policy ∈ n.task.target.stages → policy.budget = n.timeout
  /-- Whatever is handed to a driver is this task, and the driver is that of the node. -/
  handed : ∀ call ∈ n.calls, n.driver = some call.1 ∧ call.2 = n.task
  /-- The task takes over the group and what the driver is to know. -/
  passed : n.task.group = n.group ∧ n.task.driverConfig = n.driverConfig

/-- A node that is forked has its options from three layers. -/
theorem fork_settled (h : Hub ω δ) (stream handler : String) (options : ReaderOptions δ) :
    h.Settled options (h.fork stream handler options) := by
  let n := h.fork stream handler options
  have hrepeats : n.target.stages.filterMap Stage.policy? =
      List.replicate (h.behaviors.count .retry)
        (.ofSpans n.initialInterval n.maxInterval n.timeout) :=
    Node.policies_fork stream handler h.decoding h.behaviors _
  have hbudget : ∀ policy, .retry policy ∈ n.target.stages → policy.budget = n.timeout := by
    intro policy hpolicy
    have hmem : policy ∈ n.target.stages.filterMap Stage.policy? :=
      List.mem_filterMap.mpr ⟨_, hpolicy, rfl⟩
    rw [hrepeats] at hmem
    rw [List.eq_of_mem_replicate hmem]
    rfl
  exact ⟨h.get_fork stream handler options, hrepeats, ⟨rfl, hbudget⟩, fun _ => Node.of_mem_calls,
    rfl, rfl⟩

/-- What a node has its options from, in another hub. -/
theorem Settled.congr {h h' : Hub ω δ} {options : ReaderOptions δ} {n : Node δ}
    (hn : h.Settled options n) (hbase : h'.baseOptions = h.baseOptions)
    (hdriver : h'.readerDriver = h.readerDriver) (hbehaviors : h'.behaviors = h.behaviors) :
    h'.Settled options n where
  option k := by
    rw [hbase, hdriver]
    exact hn.option k
  repeats := by
    rw [hbehaviors]
    exact hn.repeats
  timeout := hn.timeout
  handed := hn.handed
  passed := hn.passed

end Hub

/-- The options of a reader, if one is registered. -/
def Arrangement.options? {δ : Type} : Arrangement δ → Option (ReaderOptions δ)
  | .register _ => none
  | .read _ _ options => some options

namespace Hub

variable {ω δ : Type}

/-- Binding streams and registering readers leaves the layers of a hub alone, and
the nodes are those of some of the readers, in their order. -/
structure ArrangedWith (h h' : Hub ω δ) (readers : List (ReaderOptions δ)) : Prop where
  baseOptions : h'.baseOptions = h.baseOptions
  readerDriver : h'.readerDriver = h.readerDriver
  behaviors : h'.behaviors = h.behaviors
  nodes : ∃ added chosen, h'.nodes = h.nodes ++ added ∧ chosen.Sublist readers ∧
    List.Forall₂ h.Settled chosen added

/-- Readers that got no node may be among them. -/
theorem ArrangedWith.mono {h h' : Hub ω δ} {readers more : List (ReaderOptions δ)}
    (harranged : h.ArrangedWith h' readers) (hsub : readers.Sublist more) :
    h.ArrangedWith h' more := by
  obtain ⟨added, chosen, hnodes, hchosen, hsettled⟩ := harranged.nodes
  exact { harranged with nodes := ⟨added, chosen, hnodes, hchosen.trans hsub, hsettled⟩ }

/-- One arrangement. -/
theorem ArrangedWith.arrange {h h' : Hub ω δ} {readers : List (ReaderOptions δ)}
    (harranged : h.ArrangedWith h' readers) (step : Arrangement δ) :
    h.ArrangedWith (h'.arrange step).2 (readers ++ step.options?.toList) := by
  have hsame := harranged.mono (List.sublist_append_left readers step.options?.toList)
  cases step with
  | register op => cases op <;> exact { hsame with }
  | read key handler options =>
      have hlaw := h'.arrange_read key handler options rfl
      generalize h'.arrange (.read key handler options) = outcome at hlaw
      cases hlaw with
      | missing _ => exact hsame
      | unnamed _ _ => exact hsame
      | appended n _ _ hfork _ _ _ =>
          -- The hub that forks the node still has the layers of `h`.
          have hn : h.Settled options n := by
            rw [hfork]
            exact (h'.fork_settled _ handler options).congr harranged.baseOptions.symm
              harranged.readerDriver.symm harranged.behaviors.symm
          obtain ⟨added, chosen, hnodes, hchosen, hsettled⟩ := harranged.nodes
          refine { harranged with nodes := ⟨added ++ [n], chosen ++ [options], ?_,
            hchosen.append (List.Sublist.refl _), List.rel_append hsettled (.cons hn .nil)⟩ }
          rw [hnodes, List.append_assoc]

/-- Whatever is arranged, every reader that has got a node has its options from
its own layer, that of the hub, and the built-in one. -/
theorem arrangeAll_settled (h : Hub ω δ) (steps : List (Arrangement δ)) :
    h.ArrangedWith (h.arrangeAll steps) (steps.filterMap Arrangement.options?) := by
  induction steps using List.reverseRecOn with
  | nil => exact ⟨rfl, rfl, rfl, [], [], (List.append_nil _).symm, List.nil_sublist _, .nil⟩
  | append_singleton steps step ih =>
      have hstep := ih.arrange step
      rw [arrangeAll_append, List.filterMap_append]
      cases step <;> exact hstep

/-- **Options resolve layer by layer, each on its own.**  Any number of layers
come to the last setting of each option.  A node has each option from its reader,
or else from its hub, or else from the built-in layer, whatever becomes of the
other options, and its timeout is both the limit of its task and the time for all
attempts.  That holds of every node of a hub, however streams were bound and
readers registered; and a configured span is exactly as long as it says. -/
theorem options_resolve (ω δ : Type) :
    ReaderOptions.Layered δ ∧
      (∀ (h : Hub ω δ) (stream handler : String) (options : ReaderOptions δ),
        h.Settled options (h.fork stream handler options)) ∧
      (∀ (h h' : Hub ω δ) (options options' : ReaderOptions δ) (k : Setting),
        options'.get k = options.get k → h'.baseOptions.get k = h.baseOptions.get k →
        (k = .driver → h'.readerDriver = h.readerDriver) →
        ∀ stream stream' handler handler',
          (h'.fork stream' handler' options').get k = (h.fork stream handler options).get k) ∧
      (∀ (h : Hub ω δ) (steps : List (Arrangement δ)),
        h.ArrangedWith (h.arrangeAll steps) (steps.filterMap Arrangement.options?)) ∧
      ∀ c : HubConfig, c.reader.Gives (ofConfig c : Hub ω δ).baseOptions ∧
        ∀ text, HubConfig.ofText text = .ok c → c.reader.Fits :=
  ⟨ReaderOptions.layered δ, fork_settled, fun _ _ _ _ _ => get_fork_congr, arrangeAll_settled,
    fun c => ⟨c.reader.options_gives, fun _ => HubConfig.ofText_fits⟩⟩

/-- Settings with the longest timeout that can be configured. -/
def patientSettings : String :=
  "\x7b\"reader\": \x7b\"group\": \"billing\", \"retry_timeout_ms\": 18446744073709551615\x7d\x7d"

/-- What they say. -/
def patientConfig : HubConfig where
  name := ""
  reader := { ReaderConfig.blank with
    group := some "billing", timeoutMs := some 18446744073709551615 }

/-- A hub with these settings. -/
def patientShop : Hub Sink Feed := { ofConfig patientConfig with readerDriver := some .bus }

/-- A reader that names no group and waits for nothing. -/
def eager : ReaderOptions Feed :=
  { ReaderOptions.unset with group := some "", initialInterval := some 0 }

/-- The empty group of the reader wins over the group of the hub.  The timeout is
that of the hub, also for a reader that does name a group. -/
theorem options_resolve_patient :
    let n := patientShop.fork "orders" "bill" eager
    let named := patientShop.fork "orders" "ship" { eager with group := some "shipping" }
    HubConfig.ofText patientSettings = .ok patientConfig ∧ patientConfig.reader.Fits ∧
      (ReaderOptions.resolve [patientConfig.reader.options, eager, .unset]).get .group = some "" ∧
      n.group = "" ∧ n.initialInterval = 0 ∧ n.maxInterval = Span.ofSeconds 15 ∧
      n.timeout = 18446744073709551615000000 ∧ n.driver = some .bus ∧
      n.target.stages.filterMap Stage.policy? =
        [.ofSpans 0 (Span.ofSeconds 15) 18446744073709551615000000] ∧
      n.task.timeout = 18446744073709551615000000 ∧ named.timeout = n.timeout := by
  intro n named
  obtain ⟨hlayered, hsettled, hcongr, -, hconfig⟩ := options_resolve Sink Feed
  obtain ⟨hoption, hrepeats, ⟨htask, -⟩, -, -⟩ := hsettled patientShop "orders" "bill" eager
  have hread : HubConfig.ofText patientSettings = .ok patientConfig := by rfl
  have hlast : ReaderOptions.LastSet .group [patientConfig.reader.options, eager, .unset]
      (some "") := .last [patientConfig.reader.options] (o := eager) rfl (by simp)
  have hgroup : n.group = "" := Option.some.inj (hoption .group)
  have hinitial : n.initialInterval = 0 := Option.some.inj (hoption .initialInterval)
  have hmax : n.maxInterval = Span.ofSeconds 15 := Option.some.inj (hoption .maxInterval)
  have htimeout : n.timeout = 18446744073709551615000000 := Option.some.inj (hoption .timeout)
  have hnamed : some named.timeout = some n.timeout :=
    hcongr patientShop patientShop eager _ .timeout rfl rfl nofun "orders" "orders" "bill" "ship"
  refine ⟨hread, (hconfig patientConfig).2 _ hread, (hlayered.last _ _ _).mpr hlast, hgroup,
    hinitial, hmax, htimeout, hoption .driver, ?_, htask.trans htimeout, Option.some.inj hnamed⟩
  rw [hrepeats, hinitial, hmax, htimeout]
  rfl

end Hub
end PubSub
