/-!
# Log events

Parts of the library report what they do as events of four levels of
severity.  An event has fields, and the spans in which it happened, the
outermost first.

* `LogEvent` — an event;
* `LogLevel.shows` — which events a reader of a level sees.
-/

namespace PubSub

/-- How severe an event is. -/
inductive LogLevel where
  | debug
  | info
  | warn
  | error
  deriving DecidableEq, Repr

/-- The rank of a level among the four. -/
def LogLevel.rank : LogLevel → Nat
  | .debug => 0
  | .info => 1
  | .warn => 2
  | .error => 3

/-- Does a reader of level `least` see events of this level? -/
def LogLevel.shows (least level : LogLevel) : Bool :=
  least.rank ≤ level.rank

/-- The value of a field. -/
inductive FieldValue where
  | text (s : String)
  | number (n : Nat)
  deriving DecidableEq, Repr

/-- The fields of an event or a span. -/
abbrev Fields := List (String × FieldValue)

/-- A stretch of work in which events happen. -/
structure LogSpan where
  name : String
  fields : Fields
  deriving DecidableEq, Repr

/-- Something that was reported. -/
structure LogEvent where
  level : LogLevel
  message : String
  fields : Fields
  spans : List LogSpan
  deriving DecidableEq, Repr

namespace LogEvent

/-- An event outside all spans. -/
def plain (level : LogLevel) (message : String) (fields : Fields) : LogEvent :=
  ⟨level, message, fields, []⟩

end LogEvent
end PubSub
