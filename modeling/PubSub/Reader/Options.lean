import PubSub.Text.Character
import PubSub.Time.Span

/-!
# Options of readers

Options come in layers: built-in ones, those of the hub, those given
where a reader is registered.  Each layer may leave any option unset; a
later layer wins wherever it sets one.

* `ReaderOptions.overlay` — one layer over another;
* `ReaderOptions.resolve` — many layers;
* `ReaderOptions.builtIn` — the lowest layer.
-/

namespace PubSub

/-- A layer of options.  Spans are in nanoseconds; `δ` is what names a
driver. -/
structure ReaderOptions (δ : Type) where
  group : Option String
  concurrency : Option Nat
  initialInterval : Option Nat
  maxInterval : Option Nat
  timeout : Option Nat
  poolSize : Option Nat
  driver : Option δ
  driverConfig : Option String
  deriving DecidableEq, Repr

namespace ReaderOptions

variable {δ : Type}

/-- The layer that sets nothing. -/
def unset : ReaderOptions δ := ⟨none, none, none, none, none, none, none, none⟩

/-- The layer `upper` over the layer `lower`. -/
def overlay (lower upper : ReaderOptions δ) : ReaderOptions δ where
  group := upper.group <|> lower.group
  concurrency := upper.concurrency <|> lower.concurrency
  initialInterval := upper.initialInterval <|> lower.initialInterval
  maxInterval := upper.maxInterval <|> lower.maxInterval
  timeout := upper.timeout <|> lower.timeout
  poolSize := upper.poolSize <|> lower.poolSize
  driver := upper.driver <|> lower.driver
  driverConfig := upper.driverConfig <|> lower.driverConfig

/-- All layers, from the lowest to the highest. -/
def resolve (layers : List (ReaderOptions δ)) : ReaderOptions δ :=
  layers.foldl overlay unset

/-- How many times a node is handed to its driver, unless set. -/
def defaultConcurrency : Nat := 1

/-- The pause after a first failure, unless set. -/
def defaultInitialInterval : Nat := Span.ofSeconds 3

/-- The longest pause between attempts, unless set. -/
def defaultMaxInterval : Nat := Span.ofSeconds 15

/-- The time for one delivery, repeats included, unless set. -/
def defaultTimeout : Nat := Span.ofSeconds 15

/-- The size of the pool of handlers, unless set. -/
def defaultPoolSize : Nat := 10

/-- The lowest layer of a hub whose readers use `driver` unless they name
their own. -/
def builtIn (driver : Option δ) : ReaderOptions δ where
  group := none
  concurrency := some defaultConcurrency
  initialInterval := some defaultInitialInterval
  maxInterval := some defaultMaxInterval
  timeout := some defaultTimeout
  poolSize := some defaultPoolSize
  driver
  driverConfig := none

/-- How options are listed.  A driver and its configuration are only said
to be there. -/
def listing (o : ReaderOptions δ) : String :=
  let number : Option Nat → String := Text.listedOption toString
  let span : Option Nat → String := Text.listedOption Span.text
  Text.listedRecord "ReaderOptions"
    [("group", Text.listedOption Text.quoted o.group),
      ("concurrency_level", number o.concurrency),
      ("retry_initial_interval", span o.initialInterval),
      ("retry_max_interval", span o.maxInterval),
      ("retry_timeout", span o.timeout),
      ("handler_pool_size", number o.poolSize),
      ("driver", toString o.driver.isSome),
      ("driver_config", toString o.driverConfig.isSome)]

end ReaderOptions
end PubSub
