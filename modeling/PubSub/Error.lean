import PubSub.Json.Fault

/-!
# Errors

Every failure of the library has one of these causes.  Two of them say
that a context ended, and nothing about the work that was done under it.
Some uses of the library are so wrong that no error is returned for them:
the work that made them is given up on the spot.

* `CodecError`, `Error` — the causes;
* `Error.message` — their wording;
* `Error.isContextEnd` — the two causes that are no fault of the work;
* `Abort` — why work is given up.
-/

namespace PubSub

/-- Why a payload could not be encoded or decoded. -/
inductive CodecError where
  | json (e : Json.Error)
  /-- The payload does not have the form that its schema gives. -/
  | schemaMismatch (detail : String)
  | other (detail : String)
  deriving Repr

/-- The wording of a codec failure. -/
def CodecError.message : CodecError → String
  | .json e => "json codec: " ++ e.message
  | .schemaMismatch detail => "schema mismatch: " ++ detail
  | .other detail => "codec error: " ++ detail

/-- Why an operation failed. -/
inductive Error where
  /-- No stream is registered under the key. -/
  | missingStream (key : String)
  | missingWriter
  | missingSchema (name : String) (version : Nat)
  | codec (e : CodecError)
  | identifier (reason : String)
  | busNotStarted
  | busClosed
  | lockPoisoned (during : String)
  | cancelled
  | deadlineExceeded
  /-- The application's own failure. -/
  | handler (reason : String)
  /-- A failure of a transport. -/
  | driver (reason : String)
  deriving Repr

namespace Error

/-- The wording of an error. -/
def message : Error → String
  | .missingStream key => s!"missing stream metadata for key `{key}`"
  | .missingWriter => "no writer configured on hub"
  | .missingSchema name version =>
      s!"missing schema definition `{name}` (version {version})"
  | .codec e => e.message
  | .identifier reason => "identifier factory: " ++ reason
  | .busNotStarted => "in-memory bus not started"
  | .busClosed => "in-memory bus closed"
  | .lockPoisoned during => "lock poisoned during " ++ during
  | .cancelled => "context cancelled"
  | .deadlineExceeded => "context deadline exceeded"
  | .handler reason => "handler: " ++ reason
  | .driver reason => "driver: " ++ reason

/-- The wording of the error behind this one, if there is one. -/
def source? : Error → Option String
  | .codec (.json e) => some e.message
  | .identifier reason | .handler reason | .driver reason => some reason
  | _ => none

/-- Did the context end, rather than the work itself fail? -/
def isContextEnd : Error → Bool
  | .cancelled | .deadlineExceeded => true
  | _ => false

/-- The failure of converting a value that is not text. -/
def ofMismatch (m : Json.Mismatch) : Error := .codec (.json m.toError)

end Error

/-- Why work is given up. -/
inductive Abort where
  /-- A queue larger than any queue can be. -/
  | queueTooLarge
  /-- A deadline beyond the end of time. -/
  | deadlineOverflow
  /-- The application gives up by itself. -/
  | application (text : String)
  deriving DecidableEq, Repr

namespace Abort

/-- The largest capacity of a queue. -/
def largestQueue : Nat := 2305843009213693951

/-- The wording of an abort. -/
def message : Abort → String
  | .queueTooLarge =>
      s!"a semaphore may not have more than MAX_PERMITS permits ({largestQueue})"
  | .deadlineOverflow => "overflow when adding duration to instant"
  | .application text => text

end Abort
end PubSub
