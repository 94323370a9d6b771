import PubSub.Json.Fault
import PubSub.Text.Ascii

/-!
# Words and strings of JSON text

Both readers of a string are small machines that take one byte at a
time.  `readString` builds the bytes of the string and checks everything;
`skipString` passes over a string whose value nobody asked for, and
checks only what it must to find the end.
-/

namespace PubSub.Json

/-- The four blanks of the grammar. -/
def isBlank (b : UInt8) : Bool :=
  b = 0x20 || b = 0x0A || b = 0x09 || b = 0x0D

/-- The text from its first byte that is not a blank. -/
def skipBlanks (bs : Bytes) : Bytes :=
  bs.dropWhile isBlank

/-- The rest of a word, letter by letter. -/
def readWord : Bytes → Bytes → Except Fault Bytes
  | [], rest => .ok rest
  | _ :: _, [] => failBefore .eofValue []
  | e :: word, b :: rest =>
      if b = e then readWord word rest else failBefore .expectedIdent rest

/-- Where the reader stands inside a string. -/
inductive Inside where
  | plain
  /-- After a backslash. -/
  | escape
  /-- After `\u` and some of its four digits; `lead` is the first half of
  a surrogate pair, if it has been read. -/
  | hex (lead : Option Nat) (digits : Bytes)
  /-- After a first half, before its backslash. -/
  | halfway (lead : Nat)
  /-- After a first half and the backslash. -/
  | halfwayEscape (lead : Nat)

/-- The character of a one-letter escape. -/
def escapedChar? (b : UInt8) : Option Char :=
  if b = Ascii.quote then some '"'
  else if b = Ascii.backslash then some '\\'
  else if b = Ascii.slash then some '/'
  else if b = Ascii.letterB then some '\x08'
  else if b = Ascii.letterF then some '\x0c'
  else if b = Ascii.letterN then some '\n'
  else if b = Ascii.letterR then some '\r'
  else if b = Ascii.letterT then some '\t'
  else none

/-- The number that hexadecimal digits write. -/
def hexNumber? (digits : Bytes) : Option Nat :=
  digits.foldl (fun n? b => do return (← n?) * 16 + (← Ascii.hexValue? b)) (some 0)

/-- The first half of a surrogate pair. -/
def isLeadingSurrogate (n : Nat) : Bool := 0xD800 ≤ n && n ≤ 0xDBFF

/-- The second half of a surrogate pair. -/
def isTrailingSurrogate (n : Nat) : Bool := 0xDC00 ≤ n && n ≤ 0xDFFF

/-- What four hexadecimal digits add to a string, or where they leave the
reader; a flaw if the halves of a pair do not meet. -/
def closeHex (lead : Option Nat) (n : Nat) : Except Flaw (Bytes × Inside) :=
  match lead with
  | none =>
      if isTrailingSurrogate n then .error .loneSurrogate
      else if isLeadingSurrogate n then .ok ([], .halfway n)
      else .ok (Utf8.encode [Char.ofNat n], .plain)
  | some first =>
      if isTrailingSurrogate n then
        let n := (first - 0xD800) * 0x400 + (n - 0xDC00) + 0x10000
        .ok (Utf8.encode [Char.ofNat n], .plain)
      else .error .loneSurrogate

/-- The bytes of a string up to and without its closing quote. -/
def readStringBytes : Inside → Reader Bytes
  | _, [] => failBefore .eofString []
  | .plain, b :: rest =>
      if b = Ascii.quote then .ok ([], rest)
      else if b = Ascii.backslash then readStringBytes .escape rest
      else if b < 0x20 then failBefore .controlCharacter rest
      else do
        let (bytes, rest) ← readStringBytes .plain rest
        .ok (b :: bytes, rest)
  | .escape, b :: rest =>
      match escapedChar? b with
      | some c => do
          let (bytes, rest) ← readStringBytes .plain rest
          .ok (Utf8.encode [c] ++ bytes, rest)
      | none =>
          if b = Ascii.letterU then readStringBytes (.hex none []) rest
          else failBefore .invalidEscape rest
  | .hex lead digits, b :: rest =>
      let digits := digits ++ [b]
      if digits.length < 4 then readStringBytes (.hex lead digits) rest
      else
        match hexNumber? digits with
        | none => failBefore .invalidEscape rest
        | some n =>
            match closeHex lead n with
            | .error flaw => failBefore flaw rest
            | .ok (added, inside) => do
                let (bytes, rest) ← readStringBytes inside rest
                .ok (added ++ bytes, rest)
  | .halfway lead, b :: rest =>
      if b = Ascii.backslash then readStringBytes (.halfwayEscape lead) rest
      else failBefore .unexpectedEndOfHexEscape rest
  | .halfwayEscape lead, b :: rest =>
      if b = Ascii.letterU then readStringBytes (.hex (some lead) []) rest
      else failBefore .unexpectedEndOfHexEscape rest

/-- The rest of a string after its opening quote.  Malformed bytes are
noticed when the string is complete; since escapes are ASCII, the first
malformed character of the text is the first one of the string. -/
def readString : Reader String := fun bs => do
  let (bytes, rest) ← readStringBytes .plain bs
  match Utf8.toString? bytes with
  | some s => .ok (s, rest)
  | none => failOn .invalidCodePoint (Utf8.malformed bs)

/-- Pass over the rest of a string.  `owed` counts the hexadecimal digits
still to come, once `\u` has been read. -/
def skipStringFrom (owed : Option Nat) (escaped : Bool) (digits : Bytes) :
    Bytes → Except Fault Bytes
  | [] => failBefore .eofString []
  | b :: rest =>
      match owed with
      | some n =>
          if 1 < n then skipStringFrom (some (n - 1)) false (digits ++ [b]) rest
          else if (hexNumber? (digits ++ [b])).isSome then
            skipStringFrom none false [] rest
          else failBefore .invalidEscape rest
      | none =>
          if escaped then
            if (escapedChar? b).isSome then skipStringFrom none false [] rest
            else if b = Ascii.letterU then skipStringFrom (some 4) false [] rest
            else failBefore .invalidEscape rest
          else if b = Ascii.quote then .ok rest
          else if b = Ascii.backslash then skipStringFrom none true [] rest
          else if b < 0x20 then failBefore .controlCharacter (b :: rest)
          else skipStringFrom none false [] rest

/-- Pass over the rest of a string after its opening quote. -/
def skipString (bs : Bytes) : Except Fault Bytes :=
  skipStringFrom none false [] bs

end PubSub.Json
