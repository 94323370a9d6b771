import PubSub.Error
import PubSub.Time.Span

/-!
# Scripts

In a scenario, handlers do what a script says.  An act takes some time,
then may cancel its context, then gives up, fails or succeeds.

* `Act` — what a handler does once it is called;
* `Script.act` — the act for the next call.
-/

namespace PubSub

/-- What a handler does in one call. -/
structure Act where
  /-- The time it takes, in nanoseconds. -/
  duration : Nat
  /-- Does it cancel the context it was given, after that time? -/
  cancels : Bool
  /-- What it says when it gives up in mid-air. -/
  collapse : Option String
  /-- How it fails, given the number of the call. -/
  failure : Option (Nat → Error)

namespace Act

/-- Succeed at once. -/
def succeed : Act := ⟨0, false, none, none⟩

/-- How the call number `n` ends, if it is not given up. -/
def outcome (a : Act) (n : Nat) : Except Error Unit :=
  match a.failure with
  | some error => .error (error n)
  | none => .ok ()

/-- Put digits in place of each `n` in braces. -/
def fillIn (digits : List Char) : List Char → List Char
  | '\x7b' :: 'n' :: '\x7d' :: rest => digits ++ fillIn digits rest
  | c :: rest => c :: fillIn digits rest
  | [] => []

/-- A text that names the number of the call. -/
def numbered (template : String) (n : Nat) : String :=
  String.ofList (fillIn (Nat.toDigits 10 n) template.toList)

end Act

/-- The acts of a handler, one for each call for the same message; the
last one is repeated.  Some messages have acts of their own. -/
structure Script where
  acts : List Act
  special : List (String × List Act)

namespace Script

/-- The script of a handler that always succeeds. -/
def blank : Script := ⟨[], []⟩

/-- The act for the call number `n`, counted from one, for a message. -/
def act (s : Script) (messageId : String) (n : Nat) : Act :=
  let acts := (s.special.lookup messageId).getD s.acts
  (acts[min n acts.length - 1]?).getD .succeed

end Script
end PubSub
