/-!
# JSON values

Numbers are whole or floating; the two are never equal.  The members of
an object are kept in increasing order of their names, each name once,
so two objects with the same members are the same value.

* `Json` — the values;
* `Members.put`, `Members.ofList` — building objects, where the last
  member of a name wins;
* `Json.nesting` — how deep arrays and objects are nested.
-/

namespace PubSub

/-- A JSON value. -/
inductive Json where
  | null
  | bool (b : Bool)
  | int (n : Int)
  | float (x : Float)
  | str (s : String)
  | arr (items : List Json)
  | obj (members : List (String × Json))
  deriving Repr, Inhabited

namespace Members

/-- Set a member, at its place in the order of the names. -/
def put {α : Type} (name : String) (value : α) :
    List (String × α) → List (String × α)
  | [] => [(name, value)]
  | (k, v) :: rest =>
      if name < k then (name, value) :: (k, v) :: rest
      else if name = k then (name, value) :: rest
      else (k, v) :: put name value rest

/-- The members of a sequence in which later ones replace earlier ones of
the same name. -/
def ofList {α : Type} (members : List (String × α)) : List (String × α) :=
  members.foldl (fun sorted (name, value) => put name value sorted) []

/-- The member of a name. -/
def get? {α : Type} (members : List (String × α)) (name : String) : Option α :=
  members.lookup name

end Members

namespace Json

mutual

/-- How many arrays and objects enclose the innermost value. -/
def nesting : Json → Nat
  | arr items => nestingItems items + 1
  | obj members => nestingMembers members + 1
  | _ => 0

/-- The deepest nesting among the items of an array. -/
def nestingItems : List Json → Nat
  | [] => 0
  | v :: rest => max v.nesting (nestingItems rest)

/-- The deepest nesting among the members of an object. -/
def nestingMembers : List (String × Json) → Nat
  | [] => 0
  | (_, v) :: rest => max v.nesting (nestingMembers rest)

end

end Json
end PubSub
