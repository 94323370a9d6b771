import Mathlib.Tactic.IntervalCases
import PubSub.Text.Utf8

/-!
# Decoding what was encoded

A character is encoded in one to four bytes.  The first one tells how
many follow and in which range the second one lies; each further one adds
six bits.  The decoder takes them back one by one.

* `decodeFrom?_encodeChar` — one character;
* `decode?_encode`, `toString?_ofString` — whole texts;
* `encodeChar_of_ascii`, `encode_ascii`, `le_of_mem_encodeChar` — which bytes
  there are.
-/

namespace PubSub.Utf8

/-- The first of two bytes. -/
theorem begin_two {k : Nat} (hlow : 2 ≤ k) (hhigh : k < 32) :
    begin (UInt8.ofNat (k + 0xC0)) = .more ⟨1, k, 0x80, 0xBF⟩ := by
  interval_cases k <;> rfl

/-- The first of three bytes: overlong forms and surrogates are ruled out
by the range of the second one. -/
theorem begin_three {k : Nat} (hk : k < 16) :
    begin (UInt8.ofNat (k + 0xE0)) =
      .more ⟨2, k, if k = 0 then 0xA0 else 0x80, if k = 13 then 0x9F else 0xBF⟩ := by
  interval_cases k <;> rfl

/-- The first of four bytes: overlong forms and too large code points are
ruled out by the range of the second one. -/
theorem begin_four {k : Nat} (hk : k < 5) :
    begin (UInt8.ofNat (k + 0xF0)) =
      .more ⟨3, k, if k = 0 then 0x90 else 0x80, if k = 4 then 0x8F else 0xBF⟩ := by
  interval_cases k <;> rfl

/-- A byte that continues a character. -/
theorem extend_ofNat {p : Pending} {d : Nat} (hd : d < 64) (hlow : p.low ≤ d + 0x80)
    (hhigh : d + 0x80 ≤ p.high) :
    extend p (UInt8.ofNat (d + 0x80)) =
      if p.need ≤ 1 then .char (Char.ofNat (p.value * 64 + d))
      else .more ⟨p.need - 1, p.value * 64 + d, 0x80, 0xBF⟩ := by
  have hbyte : (UInt8.ofNat (d + 0x80)).toNat = d + 0x80 :=
    UInt8.toNat_ofNat_of_lt' (by unfold UInt8.size; omega)
  unfold extend
  rw [hbyte]
  simp only [Nat.add_sub_cancel]
  rw [if_neg (by omega)]

/-- A code point is no surrogate and not too large. -/
theorem scalar_range (c : Char) : c.toNat < 0xD800 ∨ 0xDFFF < c.toNat ∧ c.toNat < 0x110000 :=
  c.valid

/-- Taking back one byte that completes a character. -/
theorem decodeFrom?_char {pending : Option Pending} {b : UInt8} {c : Char} {rest : Bytes}
    (h : pending.elim (begin b) (extend · b) = .char c) :
    decodeFrom? pending (b :: rest) = (decodeFrom? none rest).map (c :: ·) := by
  cases pending <;> simp only [decodeFrom?, h]

/-- Taking back one byte that leaves a character unfinished. -/
theorem decodeFrom?_more {pending : Option Pending} {b : UInt8} {p : Pending} {rest : Bytes}
    (h : pending.elim (begin b) (extend · b) = .more p) :
    decodeFrom? pending (b :: rest) = decodeFrom? (some p) rest := by
  cases pending <;> simp only [decodeFrom?, h]

/-- The first byte of a character of several bytes. -/
theorem decodeFrom?_first {b : UInt8} {p : Pending} {rest : Bytes} (h : begin b = .more p) :
    decodeFrom? none (b :: rest) = decodeFrom? (some p) rest :=
  decodeFrom?_more h

/-- The last byte of a character. -/
theorem decodeFrom?_last {value low high : Nat} {d : Nat} {rest : Bytes} (hd : d < 64)
    (hlow : low ≤ d + 0x80) (hhigh : d + 0x80 ≤ high) :
    decodeFrom? (some ⟨1, value, low, high⟩) (UInt8.ofNat (d + 0x80) :: rest) =
      (decodeFrom? none rest).map (Char.ofNat (value * 64 + d) :: ·) := by
  refine decodeFrom?_char ?_
  exact extend_ofNat (p := ⟨1, value, low, high⟩) hd hlow hhigh

/-- A byte in the middle of a character. -/
theorem decodeFrom?_middle {need value low high : Nat} {d : Nat} {rest : Bytes} (hd : d < 64)
    (hlow : low ≤ d + 0x80) (hhigh : d + 0x80 ≤ high) :
    decodeFrom? (some ⟨need + 2, value, low, high⟩) (UInt8.ofNat (d + 0x80) :: rest) =
      decodeFrom? (some ⟨need + 1, value * 64 + d, 0x80, 0xBF⟩) rest := by
  refine decodeFrom?_more ?_
  exact extend_ofNat (p := ⟨need + 2, value, low, high⟩) hd hlow hhigh

/-- The decoder takes back the bytes of a character. -/
theorem decodeFrom?_encodeChar (c : Char) (rest : Bytes) :
    decodeFrom? none (String.utf8EncodeChar c ++ rest) =
      (decodeFrom? none rest).map (c :: ·) := by
  have hrange := scalar_range c
  have hchar : Char.ofNat c.toNat = c := Char.ofNat_toNat c
  unfold String.utf8EncodeChar
  generalize hn : c.toNat = n at hrange hchar
  have hval : c.val.toNat = n := hn
  simp only [hval]
  by_cases h1 : n ≤ 0x7f
  · rw [if_pos h1]
    refine decodeFrom?_char ?_
    have hbyte : (UInt8.ofNat n).toNat = n :=
      UInt8.toNat_ofNat_of_lt' (by unfold UInt8.size; omega)
    simp only [Option.elim, begin, hbyte]
    rw [if_pos (by omega), hchar]
  · rw [if_neg h1]
    by_cases h2 : n ≤ 0x7ff
    · rw [if_pos h2, Nat.mod_eq_of_lt (a := n / 64) (by omega)]
      simp only [List.cons_append, List.nil_append]
      rw [decodeFrom?_first (begin_two (k := n / 64) (by omega) (by omega)),
        decodeFrom?_last (by omega) (by omega) (by omega)]
      rw [show n / 64 * 64 + n % 0x40 = n by omega, hchar]
    · rw [if_neg h2]
      by_cases h3 : n ≤ 0xffff
      · rw [if_pos h3, Nat.mod_eq_of_lt (a := n / 4096) (by omega)]
        simp only [List.cons_append, List.nil_append]
        rw [decodeFrom?_first (begin_three (k := n / 4096) (by omega)),
          decodeFrom?_middle (by omega) (by split <;> omega) (by split <;> omega),
          decodeFrom?_last (by omega) (by omega) (by omega)]
        rw [show (n / 4096 * 64 + n / 64 % 0x40) * 64 + n % 0x40 = n by omega, hchar]
      · rw [if_neg h3, Nat.mod_eq_of_lt (a := n / 262144) (by omega)]
        simp only [List.cons_append, List.nil_append]
        rw [decodeFrom?_first (begin_four (k := n / 262144) (by omega)),
          decodeFrom?_middle (by omega) (by split <;> omega) (by split <;> omega),
          decodeFrom?_middle (by omega) (by omega) (by omega),
          decodeFrom?_last (by omega) (by omega) (by omega)]
        rw [show ((n / 262144 * 64 + n / 4096 % 0x40) * 64 + n / 64 % 0x40) * 64 + n % 0x40 = n
          by omega, hchar]

/-- The bytes of one character and those of the others. -/
theorem encode_cons (c : Char) (cs : List Char) :
    encode (c :: cs) = String.utf8EncodeChar c ++ encode cs := rfl

/-- The bytes of a text in two parts. -/
theorem encode_append (cs ds : List Char) : encode (cs ++ ds) = encode cs ++ encode ds :=
  List.flatMap_append

/-- The decoder takes back the bytes of a text. -/
theorem decode?_encode (cs : List Char) : decode? (encode cs) = some cs := by
  unfold decode?
  induction cs with
  | nil => rfl
  | cons c cs ih => rw [encode_cons, decodeFrom?_encodeChar, ih, Option.map_some]

/-- A text is taken back from its bytes. -/
theorem toString?_ofString (s : String) : toString? (ofString s) = some s := by
  unfold toString? ofString
  rw [decode?_encode, Option.map_some, String.ofList_toList]

/-- Different texts have different bytes. -/
theorem ofString_inj {s s' : String} (h : ofString s = ofString s') : s = s' := by
  have hsame := toString?_ofString s
  rw [h, toString?_ofString] at hsame
  exact (Option.some.inj hsame).symm

/-- An ASCII character is its own byte. -/
theorem encodeChar_of_ascii {c : Char} (hc : c.toNat < 0x80) :
    String.utf8EncodeChar c = [UInt8.ofNat c.toNat] := by
  unfold String.utf8EncodeChar
  exact if_pos (Nat.le_of_lt_succ hc)

/-- ASCII bytes are the text of the characters that they stand for. -/
theorem encode_ascii {bytes : Bytes} (h : ∀ b ∈ bytes, b.toNat < 0x80) :
    encode (bytes.map fun b => Char.ofNat b.toNat) = bytes := by
  induction bytes with
  | nil => rfl
  | cons b bytes ih =>
      have hb : b.toNat < 0x80 := h b List.mem_cons_self
      have hchar : (Char.ofNat b.toNat).toNat = b.toNat := by
        unfold Char.ofNat
        rw [dif_pos (.inl (by omega))]
        rfl
      have hbyte : UInt8.ofNat b.toNat = b := UInt8.ofNat_toNat
      rw [List.map_cons, encode_cons, ih fun c hc => h c (List.mem_cons_of_mem _ hc),
        encodeChar_of_ascii (by rw [hchar]; exact hb), hchar, hbyte]
      rfl

/-- Each byte of a character that is not ASCII has its highest bit set. -/
theorem le_of_mem_encodeChar {c : Char} (hc : 0x80 ≤ c.toNat) {b : UInt8}
    (hb : b ∈ String.utf8EncodeChar c) : 0x80 ≤ b.toNat := by
  have hbyte : ∀ n, 0x80 ≤ n → n < 256 → 0x80 ≤ (UInt8.ofNat n).toNat := by
    intro n hlow hhigh
    rw [UInt8.toNat_ofNat_of_lt' (by unfold UInt8.size; omega)]
    exact hlow
  have hrange := scalar_range c
  unfold String.utf8EncodeChar at hb
  have hval : c.val.toNat = c.toNat := rfl
  simp only [hval] at hb
  rw [if_neg (by omega)] at hb
  split at hb
  · simp only [List.mem_cons, List.not_mem_nil, or_false] at hb
    rcases hb with rfl | rfl <;> exact hbyte _ (by omega) (by omega)
  · split at hb
    · simp only [List.mem_cons, List.not_mem_nil, or_false] at hb
      rcases hb with rfl | rfl | rfl <;> exact hbyte _ (by omega) (by omega)
    · simp only [List.mem_cons, List.not_mem_nil, or_false] at hb
      rcases hb with rfl | rfl | rfl | rfl <;> exact hbyte _ (by omega) (by omega)

end PubSub.Utf8
