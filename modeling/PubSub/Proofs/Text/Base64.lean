import Mathlib.Tactic.IntervalCases
import PubSub.Proofs.Outcome
import PubSub.Text.Base64

/-!
# Base64, there and back

Four symbols hold the bits of three bytes, each of them six.  The last group
may hold one or two bytes in two or three symbols, and padding; the bits of its
last symbol that no byte uses are zero.  So every byte sequence has one
spelling, and only that one is accepted.

* `valueOf?_symbolOf`, `symbolOf_of_value` — symbols and their values;
* `decode_encode` — what was encoded is decoded;
* `eq_encode_of_decode` — what is decoded was encoded.
-/

namespace PubSub.Base64

/-- A symbol stands for its value. -/
theorem valueOf?_symbolOf {n : Nat} (h : n < 64) : valueOf? (symbolOf n) = some n := by
  interval_cases n <;> rfl

/-- The padding is no symbol. -/
theorem symbolOf_ne_pad {n : Nat} (h : n < 64) : symbolOf n ≠ pad := by
  interval_cases n <;> decide

/-- A number below 256 is that of its byte. -/
theorem toNat_ofNat {n : Nat} (h : n < 256) : (UInt8.ofNat n).toNat = n :=
  UInt8.toNat_ofNat_of_lt' h

/-- Symbols are ASCII. -/
theorem symbolOf_lt (n : Nat) : (symbolOf n).toNat < 128 := by
  unfold symbolOf
  split
  · rw [toNat_ofNat (by omega)]
    omega
  split
  · rw [toNat_ofNat (by omega)]
    omega
  split
  · rw [toNat_ofNat (by omega)]
    omega
  split <;> decide

/-- Only a symbol has a value, and only its own. -/
theorem symbolOf_of_value {b : UInt8} {n : Nat} (h : valueOf? b = some n) :
    n < 64 ∧ symbolOf n = b := by
  have hb : UInt8.ofNat b.toNat = b := UInt8.ofNat_toNat
  unfold valueOf? at h
  dsimp only at h
  generalize b.toNat = code at h hb
  subst hb
  split at h
  · cases h
    rename_i hrange
    refine ⟨by omega, ?_⟩
    rw [symbolOf, if_pos (by omega)]
    congr 1
    omega
  split at h
  · cases h
    rename_i hrange
    refine ⟨by omega, ?_⟩
    rw [symbolOf, if_neg (by omega), if_pos (by omega)]
    congr 1
    omega
  split at h
  · cases h
    rename_i hrange
    refine ⟨by omega, ?_⟩
    rw [symbolOf, if_neg (by omega), if_neg (by omega), if_pos (by omega)]
    congr 1
    omega
  split at h
  · cases h
    subst code
    exact ⟨by decide, rfl⟩
  split at h
  · cases h
    subst code
    exact ⟨by decide, rfl⟩
  · cases h

/-- A symbol is read as its value. -/
theorem readSymbol_symbolOf {n : Nat} (h : n < 64) (offset : Nat) :
    readSymbol (symbolOf n) offset = .ok n := by
  rw [readSymbol, valueOf?_symbolOf h]

/-- What is read as a value is its symbol. -/
theorem symbolOf_of_readSymbol {b : UInt8} {offset n : Nat} (h : readSymbol b offset = .ok n) :
    n < 64 ∧ b = symbolOf n := by
  unfold readSymbol at h
  split at h
  · cases h
    rename_i hvalue
    exact ⟨(symbolOf_of_value hvalue).1, (symbolOf_of_value hvalue).2.symm⟩
  · cases h

/-- A symbol in front of the others of the last group. -/
theorem readTail_symbol {offset place n pads : Nat} (h : n < 64) {rest : Bytes}
    {values : List Nat} (hrest : readTail offset (place + 1) rest = .ok (values, pads)) :
    readTail offset place (symbolOf n :: rest) = .ok (n :: values, pads) := by
  rw [readTail, if_neg (symbolOf_ne_pad h), readSymbol_symbolOf h, hrest]
  rfl

/-- The last group is made of symbols and of padding after two symbols at
least. -/
theorem readTail_ok {offset place pads : Nat} {group : Bytes} {values : List Nat}
    (h : readTail offset place group = .ok (values, pads)) :
    group = values.map symbolOf ++ List.replicate pads pad ∧ (∀ v ∈ values, v < 64) := by
  induction group generalizing place values pads with
  | nil =>
      cases h
      simp
  | cons b rest ih =>
      rw [readTail] at h
      split at h
      · rename_i hpad
        split at h
        · rename_i hall
          cases h
          refine ⟨?_, by simp⟩
          have hrest : rest = List.replicate rest.length pad :=
            List.eq_replicate_iff.mpr ⟨rfl, by simpa using hall.2⟩
          rw [List.map_nil, List.nil_append, List.replicate_succ, ← hrest, hpad]
        · cases h
      · obtain ⟨v, hsymbol, h⟩ := of_bind_ok h
        obtain ⟨⟨values', pads'⟩, htail, h⟩ := of_bind_ok h
        cases h
        obtain ⟨hv, hb⟩ := symbolOf_of_readSymbol hsymbol
        obtain ⟨hrest, hvalues⟩ := ih htail
        refine ⟨by rw [hb, hrest]; rfl, ?_⟩
        rw [List.forall_mem_cons]
        exact ⟨hv, hvalues⟩

/-- Two symbols for one byte. -/
theorem encode_one {v w : Nat} (hv : v < 64) (hw : w < 64) (hunused : w % 16 = 0) :
    encode [UInt8.ofNat (v * 4 + w / 16)] = [symbolOf v, symbolOf w, pad, pad] := by
  have hbyte := toNat_ofNat (n := v * 4 + w / 16) (by omega)
  simp only [encode, hbyte]
  rw [show (v * 4 + w / 16) * 16 / 64 = v by omega,
    show (v * 4 + w / 16) * 16 % 64 = w by omega]

/-- Three symbols for two bytes. -/
theorem encode_two {v w x : Nat} (hv : v < 64) (hw : w < 64) (hx : x < 64)
    (hunused : x % 4 = 0) :
    encode [UInt8.ofNat (((v * 64 + w) * 16 + x / 4) / 256),
      UInt8.ofNat (((v * 64 + w) * 16 + x / 4) % 256)] =
      [symbolOf v, symbolOf w, symbolOf x, pad] := by
  generalize hn : (v * 64 + w) * 16 + x / 4 = n
  have hfirst := toNat_ofNat (n := n / 256) (by omega)
  have hsecond := toNat_ofNat (n := n % 256) (by omega)
  simp only [encode, hfirst, hsecond]
  rw [show (n / 256 * 256 + n % 256) * 4 / 4096 = v by omega,
    show (n / 256 * 256 + n % 256) * 4 / 64 % 64 = w by omega,
    show (n / 256 * 256 + n % 256) * 4 % 64 = x by omega]

/-- Four symbols for three bytes, whatever follows. -/
theorem encode_three {v w x y : Nat} (hv : v < 64) (hw : w < 64) (hx : x < 64) (hy : y < 64)
    {n : Nat} (hn : n = ((v * 64 + w) * 64 + x) * 64 + y) (rest : Bytes) :
    encode (UInt8.ofNat (n / 65536) :: UInt8.ofNat (n / 256 % 256) :: UInt8.ofNat (n % 256)
      :: rest) =
      symbolOf v :: symbolOf w :: symbolOf x :: symbolOf y :: encode rest := by
  have hfirst := toNat_ofNat (n := n / 65536) (by omega)
  have hsecond := toNat_ofNat (n := n / 256 % 256) (by omega)
  have hthird := toNat_ofNat (n := n % 256) (by omega)
  have hwhole : (n / 65536 * 256 + n / 256 % 256) * 256 + n % 256 = n := by omega
  simp only [encode, hfirst, hsecond, hthird, hwhole]
  rw [show n / 262144 = v by omega, show n / 4096 % 64 = w by omega,
    show n / 64 % 64 = x by omega, show n % 64 = y by omega]

/-- The bytes of the last group are those whose symbols it holds. -/
theorem encode_of_decodeTail {offset : Nat} {group bytes : Bytes} (hlength : group.length ≤ 4)
    (h : decodeTail offset group = .ok bytes) : encode bytes = group := by
  obtain ⟨⟨values, pads⟩, hread, hgroup⟩ := of_bind_ok h
  obtain ⟨rfl, hvalues⟩ := readTail_ok hread
  clear h hread
  rw [List.length_append, List.length_map, List.length_replicate] at hlength
  dsimp only at hgroup
  split at hgroup
  · cases hgroup
  split at hgroup
  · cases hgroup
  rename_i hmany hwhole
  split at hgroup
  · rename_i v w
    split at hgroup
    · cases hgroup
    · rename_i hunused
      cases hgroup
      obtain rfl : pads = 2 := by simp only [List.length_cons, List.length_nil] at *; omega
      exact encode_one (hvalues v (by simp)) (hvalues w (by simp)) (by omega)
  · rename_i v w x
    split at hgroup
    · cases hgroup
    · rename_i hunused
      cases hgroup
      obtain rfl : pads = 1 := by simp only [List.length_cons, List.length_nil] at *; omega
      exact encode_two (hvalues v (by simp)) (hvalues w (by simp)) (hvalues x (by simp))
        (by omega)
  · rename_i v w x y
    cases hgroup
    obtain rfl : pads = 0 := by simp only [List.length_cons, List.length_nil] at *; omega
    exact encode_three (hvalues v (by simp)) (hvalues w (by simp)) (hvalues x (by simp))
      (hvalues y (by simp)) rfl []
  · cases hgroup

/-- The last group of a byte. -/
theorem decodeTail_one (offset : Nat) {v w : Nat} (hv : v < 64) (hw : w < 64)
    (hunused : w % 16 = 0) :
    decodeTail offset [symbolOf v, symbolOf w, pad, pad] = .ok [UInt8.ofNat (v * 4 + w / 16)] := by
  have hread : readTail offset 0 [symbolOf v, symbolOf w, pad, pad] = .ok ([v, w], 2) :=
    readTail_symbol hv (readTail_symbol hw rfl)
  unfold decodeTail
  rw [hread]
  simp [bind, Except.bind, hunused]

/-- The last group of two bytes. -/
theorem decodeTail_two (offset : Nat) {v w x : Nat} (hv : v < 64) (hw : w < 64) (hx : x < 64)
    (hunused : x % 4 = 0) :
    decodeTail offset [symbolOf v, symbolOf w, symbolOf x, pad] =
      .ok [UInt8.ofNat (((v * 64 + w) * 16 + x / 4) / 256),
        UInt8.ofNat (((v * 64 + w) * 16 + x / 4) % 256)] := by
  have hread : readTail offset 0 [symbolOf v, symbolOf w, symbolOf x, pad] =
      .ok ([v, w, x], 1) :=
    readTail_symbol hv (readTail_symbol hw (readTail_symbol hx rfl))
  unfold decodeTail
  rw [hread]
  simp [bind, Except.bind, hunused]

/-- The last group of three bytes. -/
theorem decodeTail_three (offset : Nat) {v w x y : Nat} (hv : v < 64) (hw : w < 64)
    (hx : x < 64) (hy : y < 64) {n : Nat} (hn : n = ((v * 64 + w) * 64 + x) * 64 + y) :
    decodeTail offset [symbolOf v, symbolOf w, symbolOf x, symbolOf y] =
      .ok [UInt8.ofNat (n / 65536), UInt8.ofNat (n / 256 % 256), UInt8.ofNat (n % 256)] := by
  have hread : readTail offset 0 [symbolOf v, symbolOf w, symbolOf x, symbolOf y] =
      .ok ([v, w, x, y], 0) :=
    readTail_symbol hv (readTail_symbol hw (readTail_symbol hx (readTail_symbol hy rfl)))
  unfold decodeTail
  rw [hread, hn]
  simp [bind, Except.bind]

/-- A group with others after it. -/
theorem decodeFrom_group {offset : Nat} {v w x y : Nat} (hv : v < 64) (hw : w < 64)
    (hx : x < 64) (hy : y < 64) {n : Nat} (hn : n = ((v * 64 + w) * 64 + x) * 64 + y)
    {rest bytes : Bytes} (hmore : rest ≠ []) (hrest : decodeFrom (offset + 4) rest = .ok bytes) :
    decodeFrom offset (symbolOf v :: symbolOf w :: symbolOf x :: symbolOf y :: rest) =
      .ok (UInt8.ofNat (n / 65536) :: UInt8.ofNat (n / 256 % 256) :: UInt8.ofNat (n % 256)
        :: bytes) := by
  obtain ⟨e, rest, rfl⟩ := List.exists_cons_of_ne_nil hmore
  rw [decodeFrom, readSymbol_symbolOf hv, readSymbol_symbolOf hw, readSymbol_symbolOf hx,
    readSymbol_symbolOf hy, hrest, hn]
  rfl

/-- What was encoded is decoded group by group. -/
theorem decodeFrom_encode (offset : Nat) (bytes : Bytes) :
    decodeFrom offset (encode bytes) = .ok bytes := by
  have hback (b : UInt8) : UInt8.ofNat b.toNat = b := UInt8.ofNat_toNat
  fun_induction encode bytes generalizing offset with
  | case1 => rfl
  | case2 a n =>
    have ha := a.toNat_lt
    change decodeTail offset _ = _
    rw [decodeTail_one offset (by omega) (by omega) (by omega),
      show n / 64 * 4 + n % 64 / 16 = a.toNat by omega, hback]
  | case3 a b n =>
    have ha := a.toNat_lt
    have hb := b.toNat_lt
    change decodeTail offset _ = _
    rw [decodeTail_two offset (by omega) (by omega) (by omega) (by omega),
      show (n / 4096 * 64 + n / 64 % 64) * 16 + n % 64 / 4 = a.toNat * 256 + b.toNat by omega,
      show (a.toNat * 256 + b.toNat) / 256 = a.toNat by omega,
      show (a.toNat * 256 + b.toNat) % 256 = b.toNat by omega, hback, hback]
  | case4 a b c rest n ih =>
    have ha := a.toNat_lt
    have hb := b.toNat_lt
    have hc := c.toNat_lt
    have hn : n = ((n / 262144 * 64 + n / 4096 % 64) * 64 + n / 64 % 64) * 64 + n % 64 := by omega
    have hbytes : [UInt8.ofNat (n / 65536), UInt8.ofNat (n / 256 % 256), UInt8.ofNat (n % 256)] =
        [a, b, c] := by
      rw [show n / 65536 = a.toNat by omega, show n / 256 % 256 = b.toNat by omega,
        show n % 256 = c.toNat by omega, hback, hback, hback]
    cases hrest : encode rest with
    | nil =>
      have hnil := ih 0
      rw [hrest] at hnil
      cases hnil
      change decodeTail offset _ = _
      rw [decodeTail_three offset (by omega) (by omega) (by omega) (by omega) hn, hbytes]
    | cons e more =>
      rw [← hrest, decodeFrom_group (by omega) (by omega) (by omega) (by omega) hn
        (by simp [hrest]) (ih (offset + 4))]
      simpa using hbytes

/-- What is decoded group by group was encoded. -/
theorem encode_of_decodeFrom {offset : Nat} {symbols bytes : Bytes}
    (h : decodeFrom offset symbols = .ok bytes) : encode bytes = symbols := by
  fun_induction decodeFrom offset symbols generalizing bytes with
  | case1 offset a b c d e rest ih =>
    obtain ⟨v, ha, hafter⟩ := of_bind_ok h
    obtain ⟨w, hb, hafter⟩ := of_bind_ok hafter
    obtain ⟨x, hc, hafter⟩ := of_bind_ok hafter
    obtain ⟨y, hd, hafter⟩ := of_bind_ok hafter
    obtain ⟨more, hmore, hbytes⟩ := of_bind_ok hafter
    cases hbytes
    obtain ⟨hv, rfl⟩ := symbolOf_of_readSymbol ha
    obtain ⟨hw, rfl⟩ := symbolOf_of_readSymbol hb
    obtain ⟨hx, rfl⟩ := symbolOf_of_readSymbol hc
    obtain ⟨hy, rfl⟩ := symbolOf_of_readSymbol hd
    rw [encode_three hv hw hx hy rfl, ih hmore]
  | case2 offset =>
    cases h
    rfl
  | case3 offset group hmany hsome =>
    refine encode_of_decodeTail ?_ h
    match group, hmany with
    | [], _ => simp
    | [_], _ => simp
    | [_, _], _ => simp
    | [_, _, _], _ => simp
    | [_, _, _, _], _ => simp
    | a :: b :: c :: d :: e :: rest, hmany => exact (hmany a b c d e rest rfl).elim

/-- Whole groups of symbols. -/
theorem length_encode (bytes : Bytes) : (encode bytes).length % 4 = 0 := by
  fun_induction encode bytes with
  | case1 => simp
  | case2 => simp
  | case3 => simp
  | case4 a b c rest n ih =>
    simp only [List.length_cons]
    omega

/-- Symbols and padding are ASCII. -/
theorem lt_of_mem_encode {bytes : Bytes} {b : UInt8} (h : b ∈ encode bytes) : b.toNat < 128 := by
  have hpad : pad.toNat < 128 := by decide
  fun_induction encode bytes with
  | case1 => cases h
  | case2 a n =>
    simp only [List.mem_cons, List.not_mem_nil, or_false] at h
    rcases h with rfl | rfl | rfl | rfl
    · exact symbolOf_lt _
    · exact symbolOf_lt _
    · exact hpad
    · exact hpad
  | case3 a b n =>
    simp only [List.mem_cons, List.not_mem_nil, or_false] at h
    rcases h with rfl | rfl | rfl | rfl
    · exact symbolOf_lt _
    · exact symbolOf_lt _
    · exact symbolOf_lt _
    · exact hpad
  | case4 a b c rest n ih =>
    simp only [List.mem_cons] at h
    rcases h with rfl | rfl | rfl | rfl | h
    · exact symbolOf_lt _
    · exact symbolOf_lt _
    · exact symbolOf_lt _
    · exact symbolOf_lt _
    · exact ih h

/-- **What was encoded is decoded.** -/
theorem decode_encode (bytes : Bytes) : decode (encode bytes) = .ok bytes := by
  have hend : strayEnd? (encode bytes) = none := by
    have hlength := length_encode bytes
    unfold strayEnd?
    split
    · rw [if_neg (by omega)]
    · rfl
  rw [decode, hend]
  exact decodeFrom_encode 0 bytes

/-- **What is decoded was encoded.** -/
theorem eq_encode_of_decode {symbols bytes : Bytes} (h : decode symbols = .ok bytes) :
    symbols = encode bytes := by
  unfold decode at h
  split at h
  · cases h
  · exact (encode_of_decodeFrom h).symm

end PubSub.Base64
