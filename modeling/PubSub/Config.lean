import PubSub.Error
import PubSub.Json.Record
import PubSub.Reader.Options

/-!
# Configuration

Settings of a hub and of a bus, as JSON.  Every member may be left out.

* `HubConfig.ofText`, `HubConfig.options` — a hub's settings, and the
  layer of reader options that they give;
* `BusConfig.ofText`, `BusConfig.effective` — a bus's settings, and the
  bounds that a bus with them has.
-/

namespace PubSub

open Json

/-- Settings for readers; spans are in whole milliseconds. -/
structure ReaderConfig where
  group : Option String
  concurrency : Option Nat
  initialIntervalMs : Option Nat
  maxIntervalMs : Option Nat
  timeoutMs : Option Nat
  poolSize : Option Nat
  deriving DecidableEq, Repr

/-- Settings of a hub. -/
structure HubConfig where
  name : String
  reader : ReaderConfig
  deriving DecidableEq, Repr

namespace ReaderConfig

/-- No settings. -/
def blank : ReaderConfig := ⟨none, none, none, none, none, none⟩

/-- The members of the JSON form. -/
def shape : Shape ReaderConfig where
  name := "ReaderConfig"
  blank
  slots :=
    [.of "group" false (readOptional readText) fun c v => { c with group := v },
      .of "concurrency_level" false (readOptional (readUnsigned "usize" 64))
        fun c v => { c with concurrency := v },
      .of "retry_initial_interval_ms" false (readOptional (readUnsigned "u64" 64))
        fun c v => { c with initialIntervalMs := v },
      .of "retry_max_interval_ms" false (readOptional (readUnsigned "u64" 64))
        fun c v => { c with maxIntervalMs := v },
      .of "retry_timeout_ms" false (readOptional (readUnsigned "u64" 64))
        fun c v => { c with timeoutMs := v },
      .of "handler_pool_size" false (readOptional (readUnsigned "usize" 64))
        fun c v => { c with poolSize := v }]

/-- The layer of options that the settings give. -/
def options {δ : Type} (c : ReaderConfig) : ReaderOptions δ where
  group := c.group
  concurrency := c.concurrency
  initialInterval := c.initialIntervalMs.map Span.ofMillis
  maxInterval := c.maxIntervalMs.map Span.ofMillis
  timeout := c.timeoutMs.map Span.ofMillis
  poolSize := c.poolSize
  driver := none
  driverConfig := none

end ReaderConfig

namespace HubConfig

/-- No settings. -/
def blank : HubConfig := ⟨"", .blank⟩

/-- The members of the JSON form. -/
def shape : Shape HubConfig where
  name := "HubConfig"
  blank
  slots :=
    [.of "instance_name" false readText fun c v => { c with name := v },
      .of "reader" false (readRecord ReaderConfig.shape) fun c v => { c with reader := v }]

/-- The settings of a JSON text. -/
def ofText (text : String) : Except PubSub.Error HubConfig :=
  (recordOfText shape text).mapError fun e => .codec (.json e)

end HubConfig

/-- Bounds of a bus: messages that wait, and handlers that run at once. -/
structure BusConfig where
  queueCapacity : Nat
  maxInFlight : Nat
  deriving DecidableEq, Repr

namespace BusConfig

/-- The bounds of a bus without settings. -/
def standard : BusConfig := ⟨1024, 100⟩

/-- The members of the JSON form. -/
def shape : Shape BusConfig where
  name := "BusConfig"
  blank := standard
  slots :=
    [.of "queue_capacity" false (readUnsigned "usize" 64)
        fun c v => { c with queueCapacity := v },
      .of "max_in_flight" false (readUnsigned "u32" 32)
        fun c v => { c with maxInFlight := v }]

/-- The settings of a JSON text. -/
def ofText (text : String) : Except PubSub.Error BusConfig :=
  (recordOfText shape text).mapError fun e => .codec (.json e)

/-- The bounds of a bus: one at least of each. -/
def effective (c : BusConfig) : BusConfig :=
  ⟨max c.queueCapacity 1, max c.maxInFlight 1⟩

/-- The bounds of a bus, unless no queue can be so large. -/
def checked (c : BusConfig) : Except Abort BusConfig :=
  if Abort.largestQueue < c.queueCapacity then .error .queueTooLarge
  else .ok c.effective

end BusConfig
end PubSub
