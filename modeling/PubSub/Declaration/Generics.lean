import PubSub.Text.Character

/-!
# Headings of generic declarations

An implementation for a generic type declares the parameters of the type
again, without their defaults, and then applies the type to them.
Lifetimes come before all other parameters.  Blanks are left out.

* `Parameter.ofText` — a parameter as it is declared;
* `heading` — the two places where the parameters stand.
-/

namespace PubSub.Declaration

/-- A parameter: how it is declared, and how it is applied. -/
structure Parameter where
  isLifetime : Bool
  declared : List Char
  applied : List Char
  deriving DecidableEq, Repr

/-- The part of a declared parameter before its default.  An equals sign
between angle brackets belongs to a bound. -/
def beforeDefault : (depth : Nat) → List Char → List Char
  | _, [] => []
  | depth, '-' :: '>' :: rest => '-' :: '>' :: beforeDefault depth rest
  | depth, '<' :: rest => '<' :: beforeDefault (depth + 1) rest
  | depth, '>' :: rest => '>' :: beforeDefault (depth - 1) rest
  | 0, '=' :: _ => []
  | depth, c :: rest => c :: beforeDefault depth rest

/-- The text without its blanks. -/
def squeezed (cs : List Char) : List Char :=
  cs.filter fun c => !Text.isBlank c

/-- What stands before the colon of a declared parameter. -/
def beforeColon (cs : List Char) : List Char := cs.takeWhile (· ≠ ':')

/-- The word that makes a parameter a constant. -/
def constWord : List Char := "const".toList

/-- A parameter as it is declared. -/
def Parameter.ofText (text : String) : Parameter :=
  let declared := beforeDefault 0 (Text.skipBlanks text.toList)
  let words := beforeColon declared
  let applied :=
    if (words.take 5 == constWord) && (words.drop 5).head?.any Text.isBlank then
      words.drop 5
    else words
  { isLifetime := declared.head? == some '\''
    declared := squeezed declared
    applied := squeezed applied }

/-- Parameters between angle brackets, or nothing if there are none. -/
def angled (parts : List (List Char)) : String :=
  match parts with
  | [] => ""
  | _ => "<" ++ ",".intercalate (parts.map String.ofList) ++ ">"

/-- The heading of the implementation of `what` for a type. -/
def heading (what name : String) (parameters : List Parameter) : String :=
  let ordered := parameters.filter (·.isLifetime) ++ parameters.filter (!·.isLifetime)
  "impl" ++ angled (ordered.map (·.declared)) ++ " " ++ what ++ " for " ++ name
    ++ angled (ordered.map (·.applied))

end PubSub.Declaration
