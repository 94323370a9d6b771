import PubSub.Error

/-!
# Schema definitions

Definitions are looked up by name and version, wherever they are kept.

* `Schemas` — any way to look them up;
* `SchemaTable` — definitions that are kept in memory.
-/

namespace PubSub

/-- A way to look up schema definitions.  It may fail in any way. -/
structure Schemas where
  get : (name : String) → (version : Nat) → Except Error String

/-- Schema definitions by name and version. -/
structure SchemaTable where
  definitions : List ((String × Nat) × String)

namespace SchemaTable

/-- No definitions. -/
def empty : SchemaTable := ⟨[]⟩

/-- Register a definition in place of any other of its name and
version. -/
def register (t : SchemaTable) (name : String) (version : Nat) (definition : String) :
    SchemaTable :=
  ⟨((name, version), definition) :: t.definitions.filter (·.1 != (name, version))⟩

/-- The definition of a name and version. -/
def get (t : SchemaTable) (name : String) (version : Nat) : Except Error String :=
  match t.definitions.lookup (name, version) with
  | some definition => .ok definition
  | none => .error (.missingSchema name version)

/-- The number of definitions. -/
def size (t : SchemaTable) : Nat := t.definitions.length

/-- Looking definitions up in the table. -/
def schemas (t : SchemaTable) : Schemas := ⟨t.get⟩

end SchemaTable
end PubSub
