import PubSub.Json.Lexeme.Number
import PubSub.Json.Lexeme.Str
import PubSub.Json.Writer
import PubSub.Proofs.Text.Utf8

/-!
# Reading what was written: strings and numbers

A written string ends with the first quote that is not escaped, and a
written whole number ends with the last of its digits, so both are read
back whatever follows them, as long as no digit, point or exponent
follows a number.

* `readString_writeString` — strings;
* `readNumber_digits` — whole numbers.
-/

namespace PubSub.Json

open Utf8 (encode encode_append encode_cons)

/-- A byte that stands for itself inside a string. -/
def IsPlain (b : UInt8) : Prop := b ≠ Ascii.quote ∧ b ≠ Ascii.backslash ∧ ¬b < 0x20

/-- Put bytes before those that were read. -/
def behind (bytes : Bytes) (result : Except Fault (Bytes × Bytes)) :
    Except Fault (Bytes × Bytes) :=
  result.map fun (more, rest) => (bytes ++ more, rest)

/-- Plain bytes are read as they are. -/
theorem readStringBytes_plain {bytes : Bytes} (h : ∀ b ∈ bytes, IsPlain b) (rest : Bytes) :
    readStringBytes .plain (bytes ++ rest) = behind bytes (readStringBytes .plain rest) := by
  induction bytes with
  | nil =>
      rw [List.nil_append]
      cases readStringBytes .plain rest <;> rfl
  | cons b bytes ih =>
      obtain ⟨hquote, hbackslash, hcontrol⟩ := h b List.mem_cons_self
      have hrest := ih fun b hb => h b (List.mem_cons_of_mem _ hb)
      rw [List.cons_append, readStringBytes, if_neg hquote, if_neg hbackslash, if_neg hcontrol,
        hrest]
      cases readStringBytes .plain rest <;> rfl

/-- The bytes of a character that is not escaped are plain. -/
theorem isPlain_of_mem_encodeChar {c : Char} (hquote : c ≠ '"') (hbackslash : c ≠ '\\')
    (hcontrol : ¬c.toNat < 0x20) {b : UInt8} (hb : b ∈ String.utf8EncodeChar c) : IsPlain b := by
  by_cases hascii : c.toNat < 0x80
  · rw [Utf8.encodeChar_of_ascii hascii] at hb
    rw [List.mem_singleton.mp hb]
    have hbyte : (UInt8.ofNat c.toNat).toNat = c.toNat :=
      UInt8.toNat_ofNat_of_lt' (by unfold UInt8.size; omega)
    refine ⟨?_, ?_, ?_⟩
    · intro heq
      rw [heq] at hbyte
      exact hquote (Char.toNat_inj.mp hbyte.symm)
    · intro heq
      rw [heq] at hbyte
      exact hbackslash (Char.toNat_inj.mp hbyte.symm)
    · rw [UInt8.lt_iff_toNat_lt, hbyte]
      exact hcontrol
  · have hhigh := Utf8.le_of_mem_encodeChar (by omega) hb
    refine ⟨?_, ?_, ?_⟩
    · rintro rfl
      revert hhigh
      decide
    · rintro rfl
      revert hhigh
      decide
    · rw [UInt8.lt_iff_toNat_lt]
      change ¬b.toNat < 0x20
      omega

/-- A control is read back from its hexadecimal digits. -/
theorem readStringBytes_control {c : Char} (hc : c.toNat < 0x20) (rest : Bytes) :
    readStringBytes .plain (encode (escapeControl c) ++ rest) =
      behind (encode [c]) (readStringBytes .plain rest) := by
  have hchar : Char.ofNat c.toNat = c := Char.ofNat_toNat c
  generalize c.toNat = n at hc hchar
  subst hchar
  interval_cases n <;> rfl

/-- A character with a one-letter escape. -/
theorem readStringBytes_escape {letter : UInt8} {c : Char} (h : escapedChar? letter = some c)
    (rest : Bytes) :
    readStringBytes .plain (Ascii.backslash :: letter :: rest) =
      behind (encode [c]) (readStringBytes .plain rest) := by
  rw [readStringBytes, if_neg (by decide), if_pos rfl, readStringBytes, h]
  cases readStringBytes .plain rest <;> rfl

/-- A character is read back, whether it was escaped or not. -/
theorem readStringBytes_escapeChar (c : Char) (rest : Bytes) :
    readStringBytes .plain (encode (escapeChar c) ++ rest) =
      behind (encode [c]) (readStringBytes .plain rest) := by
  unfold escapeChar
  split
  · subst c
    exact readStringBytes_escape rfl rest
  split
  · subst c
    exact readStringBytes_escape rfl rest
  split
  · subst c
    exact readStringBytes_escape rfl rest
  split
  · subst c
    exact readStringBytes_escape rfl rest
  split
  · subst c
    exact readStringBytes_escape rfl rest
  split
  · subst c
    exact readStringBytes_escape rfl rest
  split
  · subst c
    exact readStringBytes_escape rfl rest
  split
  · exact readStringBytes_control (by assumption) rest
  · rename_i hquote hbackslash _ _ _ _ _ hcontrol
    refine readStringBytes_plain ?_ rest
    intro b hb
    rw [encode_cons, Utf8.encode, List.flatMap_nil, List.append_nil] at hb
    exact isPlain_of_mem_encodeChar hquote hbackslash hcontrol hb

/-- All characters of a string are read back, up to the closing quote. -/
theorem readStringBytes_escaped (cs : List Char) (rest : Bytes) :
    readStringBytes .plain (encode (cs.flatMap escapeChar) ++ Ascii.quote :: rest) =
      .ok (encode cs, rest) := by
  induction cs with
  | nil => rfl
  | cons c cs ih =>
      rw [List.flatMap_cons, encode_append, List.append_assoc, readStringBytes_escapeChar, ih]
      simp [behind, Except.map, encode]

/-- A written string is read back. -/
theorem readString_writeString (s : String) (rest : Bytes) :
    ∃ body, encode (writeString s) ++ rest = Ascii.quote :: body ∧
      readString body = .ok (s, rest) := by
  refine ⟨encode (s.toList.flatMap escapeChar) ++ Ascii.quote :: rest, ?_, ?_⟩
  · unfold writeString
    rw [List.cons_append, encode_cons, encode_append, List.append_assoc]
    simp only [List.append_assoc]
    rfl
  · have hread := Utf8.toString?_ofString s
    unfold Utf8.ofString at hread
    unfold readString
    rw [readStringBytes_escaped]
    simp only [bind, Except.bind, hread]

/-- The byte of a digit. -/
def digitByte (d : Nat) : UInt8 := UInt8.ofNat (0x30 + d)

/-- A digit is written as its byte. -/
theorem encode_digitChar {d : Nat} (hd : d < 10) : encode [d.digitChar] = [digitByte d] := by
  interval_cases d <;> rfl

/-- The byte of a digit is one, and has its value. -/
theorem digitByte_spec {d : Nat} (hd : d < 10) :
    Ascii.isDigit (digitByte d) = true ∧ Ascii.digitValue (digitByte d) = d ∧
      (digitByte d = Ascii.zero ↔ d = 0) := by
  interval_cases d <;> exact ⟨rfl, rfl, by decide⟩

/-- The bytes of a number that is written in decimal. -/
def digitBytes (n : Nat) : Bytes := encode (Nat.toDigits 10 n)

/-- A number of one digit. -/
theorem digitBytes_small {n : Nat} (hn : n < 10) : digitBytes n = [digitByte n] := by
  unfold digitBytes
  rw [Nat.toDigits_of_lt_base hn, encode_digitChar hn]

/-- A number of several digits. -/
theorem digitBytes_large {n : Nat} (hn : 10 ≤ n) :
    digitBytes n = digitBytes (n / 10) ++ [digitByte (n % 10)] := by
  unfold digitBytes
  rw [Nat.toDigits_of_base_le (by omega) hn, encode_append,
    encode_digitChar (Nat.mod_lt n (by omega))]

/-- One more digit is appended if the number still fits. -/
theorem appendDigits_snoc {m n taken : Nat} {digits : Bytes} {d : UInt8}
    (h : appendDigits m digits = (n, taken, 0))
    (hfit : n * 10 + Ascii.digitValue d < Nat.pow 2 64) :
    appendDigits m (digits ++ [d]) = (n * 10 + Ascii.digitValue d, taken + 1, 0) := by
  induction digits generalizing m n taken with
  | nil =>
      cases h
      rw [List.nil_append, appendDigits, if_pos hfit]
      rfl
  | cons b digits ih =>
      rw [appendDigits] at h
      rw [List.cons_append, appendDigits]
      split at h
      · rename_i hm
        cases hrest : appendDigits (m * 10 + Ascii.digitValue b) digits with
        | mk n' more =>
            obtain ⟨taken', left⟩ := more
            rw [hrest] at h
            cases h
            rw [if_pos hm, ih hrest hfit]
      · cases h

/-- What is known of the bytes of a number: they are digits, only zero
begins with a zero, and they are worth the number. -/
structure Writes (digits : Bytes) (n : Nat) : Prop where
  allDigits : ∀ b ∈ digits, Ascii.isDigit b = true
  lead : ∃ b rest, digits = b :: rest ∧ (b = Ascii.zero → n = 0 ∧ rest = [])
  value : n < 2 ^ 64 → ∃ taken, appendDigits 0 digits = (n, taken, 0)

/-- The bytes of a number write it. -/
theorem digitBytes_writes (n : Nat) : Writes (digitBytes n) n := by
  induction n using Nat.strongRecOn with
  | ind n ih =>
      by_cases hn : n < 10
      · obtain ⟨hdigit, hvalue, hzero⟩ := digitByte_spec hn
        rw [digitBytes_small hn]
        refine ⟨by simpa using hdigit, ⟨_, [], rfl, fun h => ⟨hzero.mp h, rfl⟩⟩, ?_⟩
        intro hfit
        refine ⟨1, ?_⟩
        have hfirst : 0 * 10 + n < Nat.pow 2 64 := by rwa [zero_mul, zero_add]
        rw [appendDigits, hvalue, if_pos hfirst]
        simp [appendDigits]
      · obtain ⟨hall, ⟨b, rest, hlead, hzero⟩, hvalue⟩ := ih (n / 10) (by omega)
        obtain ⟨hdigit, hlast, -⟩ := digitByte_spec (d := n % 10) (by omega)
        rw [digitBytes_large (by omega)]
        refine ⟨?_, ⟨b, rest ++ [digitByte (n % 10)], by rw [hlead]; rfl, ?_⟩, ?_⟩
        · intro d hd
          rcases List.mem_append.mp hd with hd | hd
          · exact hall d hd
          · rw [List.mem_singleton.mp hd]
            exact hdigit
        · intro hb
          have := (hzero hb).1
          omega
        · intro hfit
          obtain ⟨taken, htaken⟩ := hvalue (by omega)
          refine ⟨taken + 1, ?_⟩
          have hnumber : n / 10 * 10 + n % 10 = n := by omega
          have hmore := appendDigits_snoc htaken (d := digitByte (n % 10))
            (by rw [hlast, hnumber]; exact hfit)
          rw [hlast, hnumber] at hmore
          exact hmore

/-- What may follow a whole number: neither a digit, nor a point, nor an
exponent. -/
def EndsNumber (rest : Bytes) : Prop :=
  ∀ b ∈ rest.head?, Ascii.isDigit b = false ∧ b ≠ Ascii.point ∧
    Ascii.isExponentMark b = false

/-- After all digits of a whole number. -/
theorem readAfterWhole_ends (negative : Bool) (n : Nat) {rest : Bytes} (h : EndsNumber rest) :
    readAfterWhole negative n 0 rest = .ok (wholeNumber negative n, rest) := by
  cases rest with
  | nil => rfl
  | cons b rest =>
      obtain ⟨-, hpoint, hmark⟩ := h b rfl
      simp [readAfterWhole, hpoint, hmark]

/-- What may follow digits: no further digit. -/
def Stops (rest : Bytes) : Prop := ∀ b ∈ rest.head?, Ascii.isDigit b = false

/-- The end of a number stops its digits. -/
theorem EndsNumber.stops {rest : Bytes} (h : EndsNumber rest) : Stops rest :=
  fun b hb => (h b hb).1

/-- The digits end where something else begins. -/
theorem spanDigits_append {digits rest : Bytes} (hall : ∀ b ∈ digits, Ascii.isDigit b = true)
    (h : Stops rest) : spanDigits (digits ++ rest) = (digits, rest) := by
  have hstop : rest.takeWhile Ascii.isDigit = [] ∧ rest.dropWhile Ascii.isDigit = rest := by
    cases rest with
    | nil => exact ⟨rfl, rfl⟩
    | cons b rest => simp [h b rfl]
  unfold spanDigits
  rw [List.takeWhile_append_of_pos hall, List.dropWhile_append_of_pos hall, hstop.1, hstop.2,
    List.append_nil]

/-- A written whole number is read back. -/
theorem readNumber_digits (negative : Bool) {n : Nat} (hn : n < 2 ^ 64) {rest : Bytes}
    (h : EndsNumber rest) :
    readNumber negative (digitBytes n ++ rest) = .ok (wholeNumber negative n, rest) := by
  obtain ⟨hall, ⟨b, more, hlead, hzero⟩, hvalue⟩ := digitBytes_writes n
  obtain ⟨taken, htaken⟩ := hvalue hn
  have hspan := spanDigits_append hall h.stops
  have hdigit : Ascii.isDigit b = true := hall b (by rw [hlead]; exact List.mem_cons_self)
  rw [hlead] at hspan htaken ⊢
  rw [List.cons_append] at hspan ⊢
  by_cases hb : b = Ascii.zero
  · obtain ⟨rfl, rfl⟩ := hzero hb
    cases rest with
    | nil =>
        simp only [List.nil_append, readNumber, if_pos hb]
        exact readAfterWhole_ends negative 0 h
    | cons d rest =>
        simp only [List.nil_append, readNumber, if_pos hb, (h d rfl).1]
        exact readAfterWhole_ends negative 0 h
  · simp only [readNumber, if_neg hb, hdigit, hspan, htaken, if_true]
    exact readAfterWhole_ends negative n h

end PubSub.Json
