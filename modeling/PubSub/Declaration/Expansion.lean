import PubSub.Declaration.Basic
import PubSub.Declaration.Generics

/-!
# What a declaration expands to

The implementations for a declared type name the key of its streams and its
subject, and repeat its parameters.  Without a key of its own, a type takes
the path of its module and its name.

* `KeyExpression` — the key as it is written;
* `Declaration.expand` — the expansion, or what is wrong.
-/

namespace PubSub.Declaration

/-- The key of a type. -/
inductive KeyExpression where
  | literal (key : String)
  /-- The path of the module and this name. -/
  | qualified (name : String)
  deriving DecidableEq, Repr

/-- The key of a type that stands in a module. -/
def KeyExpression.value (path : String) : KeyExpression → String
  | .literal key => key
  | .qualified name => path ++ "::" ++ name

/-- What is generated for a declaration. -/
structure Expansion where
  key : KeyExpression
  /-- The member that is the subject; without one there is none. -/
  subject : Option String
  parameters : List Parameter
  deriving DecidableEq, Repr

/-- The expansion of a declaration with these parameters. -/
def expand (d : Declaration) (parameters : List String) : Except Flaw Expansion := do
  let b ← d.binding
  .ok
    { key := (b.key.map KeyExpression.literal).getD (.qualified d.name)
      subject := b.subject
      parameters := parameters.map Parameter.ofText }

end PubSub.Declaration
