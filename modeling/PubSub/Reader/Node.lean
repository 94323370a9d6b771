import PubSub.Chain.Stage
import PubSub.Reader.Options

/-!
# Reader nodes and their tasks

A node is a standing wish to handle the messages of one stream.  When a
hub is started, a node is handed to its driver as a task, once for every
unit of its concurrency.

* `Node.fork` — a node from its resolved options;
* `Node.task` — what a driver gets;
* `Node.calls` — all that a node asks of its driver.
-/

namespace PubSub

/-- What handles the messages of a task: the name of the handler, and the
stages before it, the outermost first. -/
structure Target where
  stages : List Stage
  handler : String

/-- A node.  Spans are in nanoseconds; `δ` names drivers. -/
structure Node (δ : Type) where
  stream : String
  target : Target
  group : String
  concurrency : Nat
  initialInterval : Nat
  maxInterval : Nat
  timeout : Nat
  poolSize : Nat
  driver : Option δ
  driverConfig : Option String

/-- What a driver gets of a node.  The timeout bounds one delivery,
repeats included. -/
structure Task where
  stream : String
  target : Target
  group : String
  timeout : Nat
  driverConfig : Option String

namespace Node

variable {δ : Type}

/-- A node with options that have been resolved over all layers.  Its
behaviors, given the innermost first, are made ready for it. -/
def fork (stream handler : String) (decoding : Decoding) (behaviors : List Behavior)
    (o : ReaderOptions δ) : Node δ :=
  let group := o.group.getD ""
  let initialInterval := o.initialInterval.getD ReaderOptions.defaultInitialInterval
  let maxInterval := o.maxInterval.getD ReaderOptions.defaultMaxInterval
  let timeout := o.timeout.getD ReaderOptions.defaultTimeout
  let policy := RetryPolicy.ofSpans initialInterval maxInterval timeout
  { stream
    target := ⟨(behaviors.map (Behavior.ready decoding group policy)).reverse, handler⟩
    group
    concurrency := o.concurrency.getD ReaderOptions.defaultConcurrency
    initialInterval
    maxInterval
    timeout
    poolSize := o.poolSize.getD ReaderOptions.defaultPoolSize
    driver := o.driver
    driverConfig := o.driverConfig }

/-- The task for a node's driver. -/
def task (n : Node δ) : Task :=
  ⟨n.stream, n.target, n.group, n.timeout, n.driverConfig⟩

/-- What a node asks of drivers: its task, once per unit of concurrency,
or nothing without a driver. -/
def calls (n : Node δ) : List (δ × Task) :=
  match n.driver with
  | some driver => List.replicate n.concurrency (driver, n.task)
  | none => []

/-- How a node is listed. -/
def listing (n : Node δ) : String :=
  Text.listedRecord "ReaderNode"
    [("stream", Text.quoted n.stream), ("group", Text.quoted n.group),
      ("concurrency_level", toString n.concurrency),
      ("retry_initial_interval", Span.text n.initialInterval),
      ("retry_max_interval", Span.text n.maxInterval),
      ("retry_timeout", Span.text n.timeout),
      ("handler_pool_size", toString n.poolSize),
      ("driver", toString n.driver.isSome)]

end Node

/-- How a task is listed. -/
def Task.listing (t : Task) : String :=
  Text.listedRecord "ReaderTask"
    [("stream", Text.quoted t.stream), ("group", Text.quoted t.group),
      ("timeout", Span.text t.timeout)]

end PubSub
