import PubSub.Config
import PubSub.Proofs.Json.Record

/-!
# What a configuration gives

The settings for readers become a layer of options.  Spans are configured in
milliseconds; each of them is as long as it says to the nanosecond, and there
is no number of 64 bits for which it would be too long.  All numbers of a
configuration that was read have 64 bits.

* `Span.Counts`, `Span.ofMillis_counts` — a span of so many milliseconds;
* `ReaderConfig.Gives`, `ReaderConfig.options_gives` — the layer of a
  configuration;
* `ReaderConfig.Fits`, `HubConfig.ofText_fits` — the numbers of one that was read.
-/

namespace PubSub

/-- A span of exactly so many milliseconds, as whole seconds and nanoseconds
beside them.  It is not too long if their number has 64 bits. -/
structure Span.Counts (span ms : Nat) : Prop where
  seconds : span / Span.second = ms / 1000
  nanos : span % Span.second = ms % 1000 * Span.milli
  short : ms < 2 ^ 64 → span ≤ Span.longest

/-- Milliseconds are counted without loss. -/
theorem Span.ofMillis_counts (ms : Nat) : Span.Counts (Span.ofMillis ms) ms where
  seconds := by
    unfold ofMillis milli second
    omega
  nanos := by
    unfold ofMillis milli second
    omega
  short hms := by
    have hlongest : longest = 2 ^ 64 * second - 1 := rfl
    rw [hlongest]
    unfold ofMillis milli second
    omega

namespace ReaderConfig

variable {δ : Type}

/-- The options say what is configured, and nothing of drivers. -/
structure Gives (c : ReaderConfig) (o : ReaderOptions δ) : Prop where
  group : o.group = c.group
  concurrency : o.concurrency = c.concurrency
  initialInterval : Option.Rel Span.Counts o.initialInterval c.initialIntervalMs
  maxInterval : Option.Rel Span.Counts o.maxInterval c.maxIntervalMs
  timeout : Option.Rel Span.Counts o.timeout c.timeoutMs
  poolSize : o.poolSize = c.poolSize
  driver : o.driver = none
  driverConfig : o.driverConfig = none

/-- A span is set where milliseconds are. -/
theorem ofMillis_rel (ms : Option Nat) : Option.Rel Span.Counts (ms.map Span.ofMillis) ms := by
  cases ms with
  | none => exact .none
  | some n => exact .some (Span.ofMillis_counts n)

/-- The options of a configuration say what is configured. -/
theorem options_gives (c : ReaderConfig) : c.Gives (c.options : ReaderOptions δ) where
  group := rfl
  concurrency := rfl
  initialInterval := ofMillis_rel _
  maxInterval := ofMillis_rel _
  timeout := ofMillis_rel _
  poolSize := rfl
  driver := rfl
  driverConfig := rfl

/-- All numbers have 64 bits. -/
structure Fits (c : ReaderConfig) : Prop where
  concurrency : ∀ n ∈ c.concurrency, n < 2 ^ 64
  initialIntervalMs : ∀ n ∈ c.initialIntervalMs, n < 2 ^ 64
  maxIntervalMs : ∀ n ∈ c.maxIntervalMs, n < 2 ^ 64
  timeoutMs : ∀ n ∈ c.timeoutMs, n < 2 ^ 64
  poolSize : ∀ n ∈ c.poolSize, n < 2 ^ 64

/-- A number that may be left out has at most its bits. -/
theorem lt_of_readOptional {expected : String} {bits : Nat} {bs rest : Bytes} {v : Option Nat}
    (h : Json.readOptional (Json.readUnsigned expected bits) bs = .ok (v, rest)) :
    ∀ n ∈ v, n < 2 ^ bits := by
  rintro n rfl
  obtain ⟨_, hnumber⟩ := Json.of_readOptional h
  exact Json.of_readUnsigned hnumber

/-- Whatever member is read, the numbers have 64 bits. -/
theorem slots_keep_fits : ∀ slot ∈ shape.slots, slot.Keeps Fits := by
  simp only [shape, List.forall_mem_cons]
  refine ⟨?_, ?_, ?_, ?_, ?_, ?_, List.forall_mem_nil _⟩
  · exact Json.Slot.keeps_of fun h _ => { h with }
  · exact Json.Slot.keeps_of fun h hread => { h with concurrency := lt_of_readOptional hread }
  · exact Json.Slot.keeps_of fun h hread =>
      { h with initialIntervalMs := lt_of_readOptional hread }
  · exact Json.Slot.keeps_of fun h hread => { h with maxIntervalMs := lt_of_readOptional hread }
  · exact Json.Slot.keeps_of fun h hread => { h with timeoutMs := lt_of_readOptional hread }
  · exact Json.Slot.keeps_of fun h hread => { h with poolSize := lt_of_readOptional hread }

/-- Where nothing is set, no number is too large. -/
theorem blank_fits : blank.Fits where
  concurrency := by simp [blank]
  initialIntervalMs := by simp [blank]
  maxIntervalMs := by simp [blank]
  timeoutMs := by simp [blank]
  poolSize := by simp [blank]

end ReaderConfig

/-- **All numbers of a configuration that was read have 64 bits.** -/
theorem HubConfig.ofText_fits {text : String} {c : HubConfig} (h : ofText text = .ok c) :
    c.reader.Fits := by
  unfold ofText at h
  cases hread : Json.recordOfText shape text with
  | error e => rw [hread] at h; cases h
  | ok c' =>
      rw [hread] at h
      cases h
      refine Json.recordOfText_keeps (P := fun c => c.reader.Fits) ReaderConfig.blank_fits ?_ hread
      simp only [shape, List.forall_mem_cons]
      refine ⟨Json.Slot.keeps_of fun h _ => h, Json.Slot.keeps_of fun _ hreader => ?_,
        List.forall_mem_nil _⟩
      exact Json.readRecord_keeps ReaderConfig.blank_fits ReaderConfig.slots_keep_fits hreader

end PubSub
