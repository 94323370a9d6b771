import PubSub.Json.Reader

/-!
# Reading records from JSON text

A record is read straight from text into a draft.  It is written as an
object, whose members may come in any order and may be joined by others
that are passed over, or as an array of the values in the declared
order.  Every value is checked where it stands, so a fault has the place
of the value; a member that is missing or repeated is noticed only
between values, and has the place at which the record can be closed.

* `Shape` — the members of a record;
* `readRecord` — a record of a shape;
* `readText`, `readUnsigned`, `readOptional` — readers for members.
-/

namespace PubSub.Json

/-- One member of a record whose draft is a `σ`. -/
structure Slot (σ : Type) where
  name : String
  required : Bool
  read : σ → Reader σ

/-- The members of a record, and the draft before any is read. -/
structure Shape (σ : Type) where
  name : String
  blank : σ
  slots : List (Slot σ)

/-- A count of elements in words. -/
def elements (n : Nat) : String :=
  if n = 1 then "1 element" else s!"{n} elements"

/-- What a record of this shape is called in a mismatch. -/
def Shape.title {σ : Type} (shape : Shape σ) : String := "struct " ++ shape.name

/-- A value of another type than `expected`.  A scalar is read before it
is refused; an array or an object is refused at its first byte. -/
def mistyped {α : Type} (expected : String) : Bytes → Except Fault α
  | [] => failOn .eofValue []
  | b :: rest =>
      let refuse (found : Found) (rest : Bytes) : Except Fault α :=
        mismatchBefore (.wrongType found expected) rest
      if b = Ascii.letterN then do refuse .null (← readWord wordNull rest)
      else if b = Ascii.letterT then do refuse (.bool true) (← readWord wordTrue rest)
      else if b = Ascii.letterF then do refuse (.bool false) (← readWord wordFalse rest)
      else if b = Ascii.minus then do
        let (n, rest) ← readNumber true rest
        refuse n.toFound rest
      else if Ascii.isDigit b then do
        let (n, rest) ← readNumber false (b :: rest)
        refuse n.toFound rest
      else if b = Ascii.quote then do
        let (s, rest) ← readString rest
        refuse (.str s) rest
      else if b = Ascii.openBracket then refuse .sequence (b :: rest)
      else if b = Ascii.openBrace then refuse .map (b :: rest)
      else failOn .expectedValue (b :: rest)

/-- A string called `expected`, accepted by `accept` or refused at its
end. -/
def readTextAs {α : Type} (expected : String) (accept : String → Except Mismatch α) :
    Reader α := fun bs =>
  match skipBlanks bs with
  | [] => failOn .eofValue []
  | b :: rest =>
      if b = Ascii.quote then do
        let (s, rest) ← readString rest
        match accept s with
        | .ok a => .ok (a, rest)
        | .error m => mismatchBefore m rest
      else mistyped expected (b :: rest)

/-- A string. -/
def readText : Reader String := readTextAs "a string" .ok

/-- Accept a number as a whole number below `2^bits`. -/
def acceptUnsigned (expected : String) (bits : Nat) : Number → Except Mismatch Nat
  | .int (.ofNat n) =>
      if n < Nat.pow 2 bits then .ok n
      else .error (.wrongValue (.int n) expected)
  | .int n => .error (.wrongValue (.int n) expected)
  | .float x => .error (.wrongType (.float x) expected)

/-- A whole number below `2^bits`. -/
def readUnsigned (expected : String) (bits : Nat) : Reader Nat := fun bs =>
  let accept (n : Number) (rest : Bytes) : Except Fault (Nat × Bytes) :=
    match acceptUnsigned expected bits n with
    | .ok n => .ok (n, rest)
    | .error m => mismatchBefore m rest
  match skipBlanks bs with
  | [] => failOn .eofValue []
  | b :: rest =>
      if b = Ascii.minus then do
        let (n, rest) ← readNumber true rest
        accept n rest
      else if Ascii.isDigit b then do
        let (n, rest) ← readNumber false (b :: rest)
        accept n rest
      else mistyped expected (b :: rest)

/-- A value, or `null` for none. -/
def readOptional {α : Type} (reader : Reader α) : Reader (Option α) := fun bs =>
  match skipBlanks bs with
  | b :: rest =>
      if b = Ascii.letterN then do .ok (none, ← readWord wordNull rest)
      else do
        let (a, rest) ← reader (b :: rest)
        .ok (some a, rest)
  | [] => do
      let (a, rest) ← reader []
      .ok (some a, rest)

/-- A slot whose value is put into the draft by `set`. -/
def Slot.of {σ α : Type} (name : String) (required : Bool) (reader : Reader α)
    (set : σ → α → σ) : Slot σ where
  name
  required
  read draft bs := do
    let (a, rest) ← reader bs
    .ok (set draft a, rest)

/-- Where reading an object stops when it is closed early: after its
brace, if that is next. -/
def closeObject (rest : Bytes) : Bytes :=
  match skipBlanks rest with
  | b :: after => if b = Ascii.closeBrace then after else b :: after
  | [] => []

/-- Where reading an array stops when it is closed early: after its
bracket, or before what follows a comma. -/
def closeArray (rest : Bytes) : Bytes :=
  match skipBlanks rest with
  | b :: after =>
      if b = Ascii.closeBracket then after
      else if b = Ascii.comma then skipBlanks after
      else b :: after
  | [] => []

/-- Give a fault without a place the place at which its record closes. -/
def placedAt {α : Type} (close : Bytes → Bytes) (result : Except Fault α) :
    Except Fault α :=
  result.mapError fun
    | .placed cause left => .placed cause left
    | .unplaced m rest => .placed (.mismatch m) (close rest).length

/-- The members of an object, from the next name on.  `seen` holds the
names that have been read. -/
def readSlots {σ : Type} (shape : Shape σ) :
    (steps : Nat) → (seen : List String) → (draft : σ) → (first : Bool) → Reader σ
  | 0, _, _, _, bs => failBefore .eofObject bs
  | steps + 1, seen, draft, first, bs => do
      match ← nextName first bs with
      | (rest, false) =>
          match shape.slots.find? fun s => s.required && !seen.contains s.name with
          | some slot => .error (.unplaced (.missingField slot.name) rest)
          | none => .ok (draft, rest.drop 1)
      | (rest, true) =>
          let (name, rest) ← readString (rest.drop 1)
          match shape.slots.find? (·.name == name) with
          | none =>
              let rest ← readColon rest
              readSlots shape steps seen draft false (← skipValue rest)
          | some slot =>
              if seen.contains name then .error (.unplaced (.duplicateField name) rest)
              else
                let rest ← readColon rest
                let (draft, rest) ← slot.read draft rest
                readSlots shape steps (name :: seen) draft false rest

/-- The values of an array for the slots from number `index` on. -/
def readItemsInto {σ : Type} (shape : Shape σ) :
    List (Slot σ) → (index : Nat) → (first : Bool) → (draft : σ) → Reader σ
  | [], _, _, draft, bs => .ok (draft, bs)
  | slot :: slots, index, first, draft, bs => do
      match ← nextItem first bs with
      | (rest, false) =>
          if slot.required then
            .error (.unplaced
              (.wrongLength index s!"{shape.title} with {elements shape.slots.length}")
              rest)
          else readItemsInto shape slots (index + 1) first draft rest
      | (rest, true) =>
          let (draft, rest) ← slot.read draft rest
          readItemsInto shape slots (index + 1) false draft rest

/-- The end of an array that holds nothing more. -/
def readArrayEnd (bs : Bytes) : Except Fault Bytes :=
  match skipBlanks bs with
  | [] => failOn .eofList []
  | b :: rest =>
      if b = Ascii.closeBracket then .ok rest
      else if b = Ascii.comma then
        match skipBlanks rest with
        | c :: rest =>
            if c = Ascii.closeBracket then failOn .trailingComma (c :: rest)
            else failOn .trailingCharacters (c :: rest)
        | [] => failOn .trailingCharacters []
      else failOn .trailingCharacters (b :: rest)

/-- A record. -/
def readRecord {σ : Type} (shape : Shape σ) : Reader σ := fun bs =>
  match skipBlanks bs with
  | [] => failOn .eofValue []
  | b :: rest =>
      if b = Ascii.openBrace then
        placedAt closeObject
          (readSlots shape (rest.length + 1) [] shape.blank true rest)
      else if b = Ascii.openBracket then
        placedAt closeArray do
          let (draft, rest) ← readItemsInto shape shape.slots 0 true shape.blank rest
          .ok (draft, ← readArrayEnd rest)
      else mistyped shape.title (b :: rest)

/-- A record from a whole text. -/
def recordOfText {σ : Type} (shape : Shape σ) (text : String) : Except Error σ :=
  readAll (readRecord shape) (Utf8.ofString text)

end PubSub.Json
