import PubSub.Text.Character
import PubSub.Time.Calendar
import PubSub.Time.Span

/-!
# Timestamps

An instant in universal time, kept as its civil fields, with its RFC
3339 text.

Written, a timestamp has a fraction of three, six or nine digits, or
none, as its nanoseconds need, and always the zone `Z`.  Read, the text
may be looser: blanks may stand between the parts of the date and of the
time, the zone may be any offset, and digits of the fraction past the
ninth are dropped.  An offset is removed by moving the fields.

* `Timestamp.write` — the written form;
* `Timestamp.read` — the instant of a text, or the first flaw in it;
* `Timestamp.afterStart` — the instant of a clock reading.
-/

namespace PubSub

/-- A date and a time of day in universal time.  During a leap second
`second` is 60. -/
structure Timestamp where
  date : Date
  hour : Nat
  minute : Nat
  second : Nat
  nano : Nat
  deriving DecidableEq, Repr

namespace Timestamp

/-- Every field is in its range. -/
def isValid (t : Timestamp) : Bool :=
  t.date.isValid && t.hour < 24 && t.minute < 60 && t.second ≤ 60
    && t.nano < Span.second

/-- The clock starts with the year 2024. -/
def start : Date := ⟨2024, 1, 1⟩

/-- The instant at which the clock reads `now`. -/
def afterStart (now : Nat) : Timestamp where
  date := start.addDays (now / 86400000)
  hour := now / 3600000 % 24
  minute := now / 60000 % 60
  second := now / 1000 % 60
  nano := Span.ofMillis (now % 1000)

/-- A number in at least `width` digits. -/
def padded (width n : Nat) : List Char :=
  let digits := Nat.toDigits 10 n
  List.replicate (width - digits.length) '0' ++ digits

/-- A year has four digits, or a sign when it does not fit in four. -/
def writeYear (year : Int) : List Char :=
  if 0 ≤ year ∧ year ≤ 9999 then padded 4 year.natAbs
  else (if year < 0 then '-' else '+') :: padded 4 year.natAbs

/-- As many digits after the point as the nanoseconds need, in groups of
three. -/
def writeFraction (nano : Nat) : List Char :=
  if nano = 0 then []
  else if nano % 1000000 = 0 then '.' :: padded 3 (nano / 1000000)
  else if nano % 1000 = 0 then '.' :: padded 6 (nano / 1000)
  else '.' :: padded 9 nano

/-- The written form of a timestamp. -/
def write (t : Timestamp) : String :=
  String.ofList <|
    writeYear t.date.year ++ '-' :: padded 2 t.date.month ++ '-' :: padded 2 t.date.day
      ++ 'T' :: padded 2 t.hour ++ ':' :: padded 2 t.minute ++ ':' :: padded 2 t.second
      ++ writeFraction t.nano ++ ['Z']

/-- What can be wrong with the text of a timestamp. -/
inductive Flaw where
  /-- The text ends too early. -/
  | tooShort
  /-- A character cannot stand where it stands. -/
  | invalid
  /-- A field has no such value. -/
  | outOfRange
  /-- Something follows the zone. -/
  | tooLong
  /-- Without its offset the instant is outside the calendar. -/
  | impossible
  deriving DecidableEq, Repr

/-- The wording of a flaw. -/
def Flaw.message : Flaw → String
  | .tooShort => "premature end of input"
  | .invalid => "input contains invalid characters"
  | .outOfRange => "input is out of range"
  | .tooLong => "trailing input"
  | .impossible => "no possible date and time matching input"

/-- A reader takes what it needs from the front of a text. -/
abbrev Reader (α : Type) := List Char → Except Flaw (α × List Char)

/-- The value of a run of digits. -/
def digitsValue (cs : List Char) : Nat :=
  cs.foldl (fun n c => n * 10 + (c.toNat - '0'.toNat)) 0

/-- One digit at least, and at most `width` of them. -/
def readDigits (width : Nat) : Reader (List Char)
  | [] => .error .tooShort
  | cs =>
      match (cs.take width).takeWhile Char.isDigit with
      | [] => .error .invalid
      | digits => .ok (digits, cs.drop digits.length)

/-- A field of at most two digits, which may follow blanks, between
`low` and `high`. -/
def readField (low high : Nat) : Reader Nat := fun cs => do
  let (digits, rest) ← readDigits 2 (Text.skipBlanks cs)
  let n := digitsValue digits
  if low ≤ n ∧ n ≤ high then .ok (n, rest) else .error .outOfRange

/-- A number of years of any length, up to `limit`. -/
def readLongYear (limit : Nat) : Reader Nat := fun cs => do
  let (digits, rest) ← readDigits cs.length cs
  if digitsValue digits ≤ limit then .ok (digitsValue digits, rest)
  else .error .outOfRange

/-- A year has at most four digits unless it bears a sign.  With a sign
it must fit a word of 32 bits. -/
def readYear : Reader Int := fun cs =>
  match Text.skipBlanks cs with
  | '-' :: rest => do
      let (n, rest) ← readLongYear (Nat.pow 2 31) rest
      .ok (-Int.ofNat n, rest)
  | '+' :: rest => do
      let (n, rest) ← readLongYear (Nat.pow 2 31 - 1) rest
      .ok (Int.ofNat n, rest)
  | rest => do
      let (digits, rest) ← readDigits 4 rest
      .ok (Int.ofNat (digitsValue digits), rest)

/-- The mark between two fields, with blanks on either side. -/
def readMark (mark : Char) : List Char → Except Flaw (List Char) := fun cs =>
  match Text.skipBlanks cs with
  | [] => .error .tooShort
  | c :: rest => if c = mark then .ok (Text.skipBlanks rest) else .error .invalid

/-- The mark between date and time. -/
def readSeparator : List Char → Except Flaw (List Char)
  | [] => .error .tooShort
  | c :: rest =>
      if c = 'T' ∨ c = 't' ∨ c = ' ' then .ok rest else .error .invalid

/-- The nanoseconds after the point, if there is a point. -/
def readFraction : Reader Nat
  | '.' :: cs => do
      let (digits, rest) ← readDigits 9 cs
      .ok (digitsValue digits * Nat.pow 10 (9 - digits.length), rest.dropWhile Char.isDigit)
  | cs => .ok (0, cs)

/-- Two digits.  Length is counted in bytes: a lone character of two or
more of them is not too short. -/
def readPair : Reader (Nat × Nat)
  | a :: b :: rest =>
      if a.isDigit && b.isDigit then .ok ((digitsValue [a], digitsValue [b]), rest)
      else .error .invalid
  | [c] => .error (if c.utf8Size < 2 then .tooShort else .invalid)
  | [] => .error .tooShort

/-- Hours and minutes of an offset, as minutes.  Colons and blanks may
stand between them. -/
def readOffset : Reader Nat := fun cs => do
  let ((h₁, h₂), rest) ← readPair cs
  let rest := rest.dropWhile fun c => c = ':' || Text.isBlank c
  let ((m₁, m₂), rest) ← readPair rest
  if m₁ < 6 then .ok ((h₁ * 10 + h₂) * 60 + (m₁ * 10 + m₂), rest)
  else .error .outOfRange

/-- Is this the letter, in either case? -/
def isLetter (letter c : Char) : Bool :=
  c = letter || c = letter.toLower

/-- The zone, as minutes east of universal time. -/
def readZone : Reader Int
  | [] => .error .tooShort
  | 'Z' :: rest | 'z' :: rest => .ok (0, rest)
  | '+' :: rest => do
      let (minutes, rest) ← readOffset rest
      .ok (Int.ofNat minutes, rest)
  | '-' :: rest | '−' :: rest => do
      let (minutes, rest) ← readOffset rest
      .ok (-Int.ofNat minutes, rest)
  | u :: t :: c :: rest =>
      if isLetter 'U' u && isLetter 'T' t && isLetter 'C' c then .ok (0, rest)
      else .error .invalid
  | _ => .error .invalid

/-- The years that the calendar covers. -/
def yearInRange (year : Int) : Bool :=
  -262143 ≤ year && year ≤ 262142

/-- Move a local time by less than a day to universal time. -/
def toUniversal (t : Timestamp) (east : Int) : Timestamp :=
  let minutes := Int.ofNat (t.hour * 60 + t.minute) - east
  let date :=
    if minutes < 0 then t.date.previous
    else if 1440 ≤ minutes then t.date.next
    else t.date
  let ofDay := (minutes % 1440).toNat
  { t with date, hour := ofDay / 60, minute := ofDay % 60 }

/-- The fields of a local time and its zone, with what follows them. -/
def readFields : Reader (Timestamp × Int) := fun cs => do
  let (year, cs) ← readYear cs
  let cs ← readMark '-' cs
  let (month, cs) ← readField 1 12 cs
  let cs ← readMark '-' cs
  let (day, cs) ← readField 1 31 cs
  let cs ← readSeparator cs
  let (hour, cs) ← readField 0 23 cs
  let cs ← readMark ':' cs
  let (minute, cs) ← readField 0 59 cs
  let cs ← readMark ':' cs
  let (second, cs) ← readField 0 60 cs
  let (nano, cs) ← readFraction cs
  let (east, cs) ← readZone (Text.skipBlanks cs)
  .ok ((⟨⟨year, month, day⟩, hour, minute, second, nano⟩, east), cs)

/-- The instant that a text names. -/
def read (s : String) : Except Flaw Timestamp := do
  let ((t, east), rest) ← readFields s.toList
  if Text.skipBlanks rest ≠ [] then .error .tooLong
  else if !(yearInRange t.date.year && t.date.isValid) then .error .outOfRange
  else if 1440 ≤ east.natAbs then .error .outOfRange
  else
    let universal := t.toUniversal east
    if yearInRange universal.date.year then .ok universal else .error .impossible

end Timestamp
end PubSub
