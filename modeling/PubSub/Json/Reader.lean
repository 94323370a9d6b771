import PubSub.Json.Lexeme.Number
import PubSub.Json.Lexeme.Str

/-!
# Reading JSON text

Values are read from bytes, by recursion on a bound that twice the
length of the text always meets.  Arrays and objects nest at most
`nestingLimit` deep.  A value nobody asked for is passed over without
being built, to any depth.

* `readValue` — a value, and what follows it;
* `skipValue` — what follows a value;
* `parse` — the value of a whole text, or what is wrong and where.
-/

namespace PubSub.Json

/-- How deep arrays and objects may nest. -/
def nestingLimit : Nat := 127

/-- A bound on the steps that reading `bs` takes. -/
def stepsFor (bs : Bytes) : Nat := 2 * bs.length + 2

/-- What follows the colon between a name and its value. -/
def readColon (bs : Bytes) : Except Fault Bytes :=
  match skipBlanks bs with
  | [] => failOn .eofObject []
  | b :: rest =>
      if b = Ascii.colon then .ok rest else failOn .expectedColon (b :: rest)

/-- Move to the next item of an array: `none` at its end, else where the
item begins. -/
def nextItem (first : Bool) (bs : Bytes) : Except Fault (Bytes × Bool) :=
  match skipBlanks bs with
  | [] => failOn .eofList []
  | b :: rest =>
      if b = Ascii.closeBracket then .ok (b :: rest, false)
      else if first then .ok (b :: rest, true)
      else if b = Ascii.comma then
        match skipBlanks rest with
        | [] => failOn .eofValue []
        | c :: rest =>
            if c = Ascii.closeBracket then failOn .trailingComma (c :: rest)
            else .ok (c :: rest, true)
      else failOn .expectedListCommaOrEnd (b :: rest)

/-- Move to the next name of an object: where it begins, or the end. -/
def nextName (first : Bool) (bs : Bytes) : Except Fault (Bytes × Bool) :=
  match skipBlanks bs with
  | [] => failOn .eofObject []
  | b :: rest =>
      if b = Ascii.closeBrace then .ok (b :: rest, false)
      else if first then
        if b = Ascii.quote then .ok (b :: rest, true)
        else failOn .keyMustBeString (b :: rest)
      else if b = Ascii.comma then
        match skipBlanks rest with
        | [] => failOn .eofValue []
        | c :: rest =>
            if c = Ascii.quote then .ok (c :: rest, true)
            else if c = Ascii.closeBrace then failOn .trailingComma (c :: rest)
            else failOn .keyMustBeString (c :: rest)
      else failOn .expectedObjectCommaOrEnd (b :: rest)

/-- The words `null`, `true` and `false` without their first letters. -/
def wordNull : Bytes := [0x75, 0x6C, 0x6C]

/-- The word `true` without its first letter. -/
def wordTrue : Bytes := [0x72, 0x75, 0x65]

/-- The word `false` without its first letter. -/
def wordFalse : Bytes := [0x61, 0x6C, 0x73, 0x65]

mutual

/-- A value, with `depth` more levels of nesting allowed. -/
def readValue : (steps depth : Nat) → Reader Json
  | 0, _, bs => failBefore .eofValue bs
  | steps + 1, depth, bs =>
      match skipBlanks bs with
      | [] => failOn .eofValue []
      | b :: rest =>
          if b = Ascii.letterN then do
            .ok (.null, ← readWord wordNull rest)
          else if b = Ascii.letterT then do
            .ok (.bool true, ← readWord wordTrue rest)
          else if b = Ascii.letterF then do
            .ok (.bool false, ← readWord wordFalse rest)
          else if b = Ascii.minus then do
            let (n, rest) ← readNumber true rest
            .ok (n.toJson, rest)
          else if Ascii.isDigit b then do
            let (n, rest) ← readNumber false (b :: rest)
            .ok (n.toJson, rest)
          else if b = Ascii.quote then do
            let (s, rest) ← readString rest
            .ok (.str s, rest)
          else if b = Ascii.openBracket then
            if depth = 0 then failOn .tooDeep (b :: rest)
            else do
              let (items, rest) ← readItems steps (depth - 1) true rest
              .ok (.arr items, rest)
          else if b = Ascii.openBrace then
            if depth = 0 then failOn .tooDeep (b :: rest)
            else do
              let (members, rest) ← readMembers steps (depth - 1) true rest
              .ok (.obj (Members.ofList members), rest)
          else failOn .expectedValue (b :: rest)

/-- The items of an array, up to and with its closing bracket. -/
def readItems : (steps depth : Nat) → (first : Bool) → Reader (List Json)
  | 0, _, _, bs => failBefore .eofList bs
  | steps + 1, depth, first, bs => do
      match ← nextItem first bs with
      | (rest, false) => .ok ([], rest.drop 1)
      | (rest, true) =>
          let (v, rest) ← readValue steps depth rest
          let (items, rest) ← readItems steps depth false rest
          .ok (v :: items, rest)

/-- The members of an object, up to and with its closing brace, in the
order of the text. -/
def readMembers : (steps depth : Nat) → (first : Bool) → Reader (List (String × Json))
  | 0, _, _, bs => failBefore .eofObject bs
  | steps + 1, depth, first, bs => do
      match ← nextName first bs with
      | (rest, false) => .ok ([], rest.drop 1)
      | (rest, true) =>
          let (name, rest) ← readString (rest.drop 1)
          let rest ← readColon rest
          let (v, rest) ← readValue steps depth rest
          let (members, rest) ← readMembers steps depth false rest
          .ok ((name, v) :: members, rest)

end

mutual

/-- Pass over a value. -/
def skipValueIn : (steps : Nat) → Bytes → Except Fault Bytes
  | 0, bs => failBefore .eofValue bs
  | steps + 1, bs =>
      match skipBlanks bs with
      | [] => failOn .eofValue []
      | b :: rest =>
          if b = Ascii.letterN then readWord wordNull rest
          else if b = Ascii.letterT then readWord wordTrue rest
          else if b = Ascii.letterF then readWord wordFalse rest
          else if b = Ascii.minus then skipNumber rest
          else if Ascii.isDigit b then skipNumber (b :: rest)
          else if b = Ascii.quote then skipString rest
          else if b = Ascii.openBracket then skipItems steps true rest
          else if b = Ascii.openBrace then skipMembers steps true rest
          else failOn .expectedValue (b :: rest)

/-- Pass over the items of an array and its closing bracket. -/
def skipItems : (steps : Nat) → (first : Bool) → Bytes → Except Fault Bytes
  | 0, _, bs => failBefore .eofList bs
  | steps + 1, first, bs =>
      match skipBlanks bs with
      | [] => failOn .eofList []
      | b :: rest =>
          if b = Ascii.closeBracket then .ok rest
          else if first then do
            skipItems steps false (← skipValueIn steps (b :: rest))
          else if b = Ascii.comma then do
            skipItems steps false (← skipValueIn steps rest)
          else failOn .expectedListCommaOrEnd (b :: rest)

/-- Pass over the members of an object and its closing brace. -/
def skipMembers : (steps : Nat) → (first : Bool) → Bytes → Except Fault Bytes
  | 0, _, bs => failBefore .eofObject bs
  | steps + 1, first, bs =>
      match skipBlanks bs with
      | [] => failOn .eofObject []
      | b :: rest =>
          if b = Ascii.closeBrace then .ok rest
          else if first then skipMember steps (b :: rest)
          else if b = Ascii.comma then skipMember steps rest
          else failOn .expectedObjectCommaOrEnd (b :: rest)

/-- Pass over one member, and over those after it. -/
def skipMember : (steps : Nat) → Bytes → Except Fault Bytes
  | 0, bs => failBefore .eofObject bs
  | steps + 1, bs =>
      match skipBlanks bs with
      | [] => failOn .eofObject []
      | b :: rest =>
          if b = Ascii.quote then do
            let rest ← skipString rest
            let rest ← readColon rest
            skipMembers steps false (← skipValueIn steps rest)
          else failOn .keyMustBeString (b :: rest)

end

/-- Pass over a value. -/
def skipValue (bs : Bytes) : Except Fault Bytes :=
  skipValueIn (stepsFor bs) bs

/-- Run a reader over a whole text; only blanks may follow. -/
def readAll {α : Type} (reader : Reader α) (text : Bytes) : Except Error α :=
  let result := do
    let (a, rest) ← reader text
    match skipBlanks rest with
    | [] => .ok a
    | rest => failOn .trailingCharacters rest
  result.mapError (Fault.toError text)

/-- The value of a whole text. -/
def parse (text : Bytes) : Except Error Json :=
  readAll (readValue (stepsFor text) nestingLimit) text

/-- The value of a whole text given as a string. -/
def ofText (text : String) : Except Error Json :=
  parse (Utf8.ofString text)

end PubSub.Json
