import Mathlib.Algebra.Group.Nat.Defs
import PubSub.Proofs.Outcome
import PubSub.Time.Timestamp

/-!
# Timestamps, there and back

Every field of a written timestamp has its fixed number of digits, and a mark
or the zone after it, so the reader finds each field where it stands; the
fraction has as many digits as the nanoseconds need, and the reader makes up
for those that were left out.  And whatever text was read, once its offset is
removed all fields are in their ranges.

* `readDigits_padded`, `digitsValue_padded` — numbers of fixed width;
* `readFields_write` — the fields of a written timestamp;
* `read_write` — a written timestamp;
* `read_valid` — whatever is read.
-/

namespace PubSub

namespace Timestamp

/-- A number in digits, with zeros in front. -/
theorem digitsValue_eq (digits : List Char) :
    digitsValue digits = Nat.ofDigitChars 10 digits 0 := by
  rw [Nat.ofDigitChars_eq_foldl, digitsValue]
  congr 1
  funext n c
  rw [Nat.mul_comm]

/-- Zeros in front do not count. -/
theorem digitsValue_padded (width n : Nat) : digitsValue (padded width n) = n := by
  rw [digitsValue_eq, padded, Nat.ofDigitChars_append, Nat.ofDigitChars_replicate_zero, Nat.mul_zero,
    Nat.ofDigitChars_ten_toDigits]

/-- A padded number is made of digits. -/
theorem isDigit_of_mem_padded {width n : Nat} {c : Char} (h : c ∈ padded width n) :
    c.isDigit = true := by
  rcases List.mem_append.mp h with hzero | hdigit
  · rw [List.eq_of_mem_replicate hzero]
    rfl
  · exact Nat.isDigit_of_mem_toDigits (by omega) (by omega) hdigit

/-- It has as many of them as it should, if it fits. -/
theorem length_padded {width n : Nat} (hwidth : 0 < width) (h : n < 10 ^ width) :
    (padded width n).length = width := by
  have hlength := (Nat.length_toDigits_le_iff (b := 10) (by omega) hwidth).mpr h
  rw [padded, List.length_append, List.length_replicate]
  omega

/-- A number of some digits is below that power of ten. -/
theorem digitsValue_lt {digits : List Char} (h : ∀ c ∈ digits, c.isDigit = true) :
    digitsValue digits < 10 ^ digits.length := by
  rw [digitsValue_eq]
  induction digits with
  | nil => simp
  | cons c digits ih =>
      have hrest := ih fun d hd => h d (List.mem_cons_of_mem _ hd)
      have hc := (Char.isDigit_iff_toNat.mp (h c List.mem_cons_self)).2
      have hzero : '0'.toNat = 48 := rfl
      have hnine : '9'.toNat = 57 := rfl
      rw [Nat.ofDigitChars_cons, Nat.ofDigitChars_eq_ofDigitChars_zero, List.length_cons, Nat.pow_succ]
      have hlead : 10 * 0 + (c.toNat - '0'.toNat) ≤ 9 := by omega
      have hmost := Nat.mul_le_mul_left (10 ^ digits.length) hlead
      omega

/-- Digits are read up to the width, or to where they end. -/
theorem readDigits_append {width : Nat} {digits rest : List Char}
    (hdigits : ∀ c ∈ digits, c.isDigit = true) (hsome : digits ≠ [])
    (hwidth : digits.length ≤ width)
    (hend : digits.length = width ∨ ∀ c ∈ rest.head?, c.isDigit = false) :
    readDigits width (digits ++ rest) = .ok (digits, rest) := by
  have hspan : ((digits ++ rest).take width).takeWhile Char.isDigit = digits := by
    rw [List.take_append, List.take_of_length_le hwidth, List.takeWhile_append_of_pos hdigits]
    have hmore : (rest.take (width - digits.length)).takeWhile Char.isDigit = [] := by
      rcases hend with hfull | hstop
      · rw [hfull, Nat.sub_self, List.take_zero, List.takeWhile_nil]
      · cases rest with
        | nil => simp
        | cons c rest =>
            cases width - digits.length with
            | zero => simp
            | succ k => rw [List.take_succ_cons, List.takeWhile_cons, hstop c rfl]; rfl
    rw [hmore, List.append_nil]
  obtain ⟨d, more, rfl⟩ := List.exists_cons_of_ne_nil hsome
  rw [List.cons_append] at hspan ⊢
  simp only [readDigits, hspan, List.length_cons, List.drop_succ_cons, List.drop_left]

/-- A padded number is read back, whatever follows it. -/
theorem readDigits_padded (width : Nat) {n : Nat} (hwidth : 0 < width) (h : n < 10 ^ width)
    (rest : List Char) : readDigits width (padded width n ++ rest) = .ok (padded width n, rest) := by
  have hlength := length_padded hwidth h
  refine readDigits_append (fun c => isDigit_of_mem_padded) ?_ (Nat.le_of_eq hlength) (.inl hlength)
  intro hnil
  rw [hnil, List.length_nil] at hlength
  omega

/-- A digit is no blank. -/
theorem isBlank_of_isDigit {c : Char} (h : c.isDigit = true) : Text.isBlank c = false := by
  obtain ⟨hlow, hhigh⟩ := Char.isDigit_iff_toNat.mp h
  have hzero : '0'.toNat = 48 := rfl
  have hnine : '9'.toNat = 57 := rfl
  unfold Text.isBlank
  simp only [Bool.or_eq_false_iff, Bool.and_eq_false_iff, decide_eq_false_iff_not]
  omega

/-- A padded number begins with a digit. -/
theorem padded_lead (width : Nat) {n : Nat} (hwidth : 0 < width) (h : n < 10 ^ width) :
    ∃ c more, padded width n = c :: more ∧ c.isDigit = true := by
  have hlength := length_padded hwidth h
  cases hpadded : padded width n with
  | nil =>
      rw [hpadded, List.length_nil] at hlength
      omega
  | cons c more => exact ⟨c, more, rfl, isDigit_of_mem_padded (hpadded ▸ List.mem_cons_self)⟩

/-- No blanks are skipped in front of a character that is none. -/
theorem skipBlanks_cons {c : Char} (h : Text.isBlank c = false) (rest : List Char) :
    Text.skipBlanks (c :: rest) = c :: rest := by
  simp [Text.skipBlanks, h]

/-- No blanks are skipped in front of a padded number. -/
theorem skipBlanks_padded {width n : Nat} (hwidth : 0 < width) (h : n < 10 ^ width)
    (rest : List Char) : Text.skipBlanks (padded width n ++ rest) = padded width n ++ rest := by
  obtain ⟨c, more, hlead, hdigit⟩ := padded_lead width hwidth h
  rw [hlead, List.cons_append, skipBlanks_cons (isBlank_of_isDigit hdigit)]

/-- A field of two digits is read back. -/
theorem readField_padded (low high : Nat) {n : Nat} (hlow : low ≤ n) (hhigh : n ≤ high)
    (hfit : high < 100) (rest : List Char) :
    readField low high (padded 2 n ++ rest) = .ok (n, rest) := by
  unfold readField
  rw [skipBlanks_padded (by omega) (by omega), readDigits_padded 2 (by omega) (by omega)]
  simp only [bind, Except.bind, digitsValue_padded]
  rw [if_pos ⟨hlow, hhigh⟩]

/-- A year of four digits is read back. -/
theorem readYear_padded {n : Nat} (h : n < 10000) (rest : List Char) :
    readYear (padded 4 n ++ rest) = .ok (Int.ofNat n, rest) := by
  obtain ⟨c, more, hlead, hdigit⟩ := padded_lead 4 (by omega) h
  have hread := readDigits_padded 4 (by omega) h rest
  have hvalue := digitsValue_padded 4 n
  unfold readYear
  rw [skipBlanks_padded (by omega) h]
  rw [hlead] at hread hvalue ⊢
  rw [List.cons_append] at hread ⊢
  -- A digit is no sign, so the year has no sign either.
  split
  · rename_i heq
    cases heq
    cases hdigit
  · rename_i heq
    cases heq
    cases hdigit
  · rw [hread]
    simp only [bind, Except.bind, hvalue]

/-- A mark in front of a number of two digits. -/
theorem readMark_padded (mark : Char) (hmark : Text.isBlank mark = false) {n : Nat}
    (h : n < 100) (rest : List Char) :
    readMark mark (mark :: (padded 2 n ++ rest)) = .ok (padded 2 n ++ rest) := by
  unfold readMark
  rw [skipBlanks_cons hmark]
  simp only [if_true, skipBlanks_padded (show 0 < 2 by omega) h]

/-- A fraction of fewer than nine digits stands for that many thousandths,
millionths or billionths. -/
theorem readFraction_padded {width n : Nat} (hwidth : 0 < width) (hnine : width ≤ 9)
    (h : n < 10 ^ width) :
    readFraction ('.' :: (padded width n ++ ['Z'])) = .ok (n * 10 ^ (9 - width), ['Z']) := by
  have hlength := length_padded hwidth h
  have hsome : padded width n ≠ [] := by
    intro hnil
    rw [hnil, List.length_nil] at hlength
    omega
  have hread : readDigits 9 (padded width n ++ ['Z']) = .ok (padded width n, ['Z']) :=
    readDigits_append (fun c => isDigit_of_mem_padded) hsome (by omega)
      (.inr fun c hc => by cases hc; rfl)
  unfold readFraction
  simp only [hread, bind, Except.bind, digitsValue_padded, hlength]
  rfl

/-- The nanoseconds are read back, however many digits they need. -/
theorem readFraction_write {nano : Nat} (h : nano < Span.second) :
    readFraction (writeFraction nano ++ ['Z']) = .ok (nano, ['Z']) := by
  have hsecond : nano < 1000000000 := h
  unfold writeFraction
  split
  · rename_i hzero
    rw [hzero]
    rfl
  split
  · rename_i hmillis
    rw [List.cons_append, readFraction_padded (by omega) (by omega) (by omega)]
    rw [show nano / 1000000 * 10 ^ (9 - 3) = nano by omega]
  split
  · rename_i hmicros
    rw [List.cons_append, readFraction_padded (by omega) (by omega) (by omega)]
    rw [show nano / 1000 * 10 ^ (9 - 6) = nano by omega]
  · rw [List.cons_append, readFraction_padded (by omega) (by omega) (by omega)]
    rw [show nano * 10 ^ (9 - 9) = nano by omega]

/-- What it means that every field is in its range. -/
theorem isValid_iff {t : Timestamp} :
    t.isValid = true ↔ t.date.isValid = true ∧ t.hour < 24 ∧ t.minute < 60 ∧ t.second ≤ 60 ∧
      t.nano < Span.second := by
  simp only [isValid, Bool.and_eq_true, decide_eq_true_eq, and_assoc]

/-- The number of days of a month. -/
theorem daysIn_bounds (year : Int) (month : Nat) :
    28 ≤ Date.daysIn year month ∧ Date.daysIn year month ≤ 31 := by
  unfold Date.daysIn
  split
  · split <;> omega
  · split <;> omega

/-- The month and the day of a date that exists. -/
theorem date_bounds {d : Date} (h : d.isValid = true) :
    (1 ≤ d.month ∧ d.month ≤ 12) ∧ 1 ≤ d.day ∧ d.day ≤ 31 := by
  simp only [Date.isValid, Bool.and_eq_true, decide_eq_true_eq] at h
  have hdays := daysIn_bounds d.year d.month
  omega

/-- The fields of a written timestamp are read back. -/
theorem readFields_write {t : Timestamp} (h : t.isValid = true) (hlow : 0 ≤ t.date.year)
    (hhigh : t.date.year ≤ 9999) : readFields t.write.toList = .ok ((t, 0), []) := by
  obtain ⟨⟨year, month, day⟩, hour, minute, second, nano⟩ := t
  obtain ⟨hdate, hhour, hminute, hsecond, hnano⟩ := isValid_iff.mp h
  obtain ⟨hmonth, hday⟩ := date_bounds hdate
  dsimp only at hlow hhigh hmonth hday hhour hminute hsecond hnano
  obtain ⟨n, rfl⟩ : ∃ n, year = Int.ofNat n := ⟨year.toNat, (Int.toNat_of_nonneg hlow).symm⟩
  have hn : n < 10000 := by simp only [Int.ofNat_eq_natCast] at hhigh; omega
  have hyear : writeYear (Int.ofNat n) = padded 4 n := by
    unfold writeYear
    rw [if_pos ⟨hlow, hhigh⟩]
    rfl
  simp only [write, String.toList_ofList, hyear, List.append_assoc, List.cons_append]
  have hseparator (rest : List Char) : readSeparator ('T' :: rest) = .ok rest := rfl
  have hzone : readZone (Text.skipBlanks ['Z']) = .ok (0, []) := rfl
  unfold readFields
  rw [readYear_padded hn]
  simp only [bind, Except.bind,
    readMark_padded '-' rfl (show month < 100 by omega),
    readField_padded 1 12 hmonth.1 hmonth.2 (by omega),
    readMark_padded '-' rfl (show day < 100 by omega),
    readField_padded 1 31 hday.1 hday.2 (by omega), hseparator,
    readField_padded 0 23 (Nat.zero_le hour) (Nat.le_of_lt_succ hhour) (by omega),
    readMark_padded ':' rfl (show minute < 100 by omega),
    readField_padded 0 59 (Nat.zero_le minute) (Nat.le_of_lt_succ hminute) (by omega),
    readMark_padded ':' rfl (show second < 100 by omega),
    readField_padded 0 60 (Nat.zero_le second) hsecond (by omega),
    readFraction_write hnano, hzone]

/-- Without an offset, nothing moves. -/
theorem toUniversal_zero {t : Timestamp} (h : t.isValid = true) : t.toUniversal 0 = t := by
  obtain ⟨hdate, hhour, hminute, hsecond, hnano⟩ := isValid_iff.mp h
  obtain ⟨date, hour, minute, second, nano⟩ := t
  dsimp only at hhour hminute
  unfold toUniversal
  dsimp only
  simp only [Int.ofNat_eq_natCast]
  rw [if_neg (by omega), if_neg (by omega)]
  congr 1
  · omega
  · omega

/-- **A written timestamp is read back**, if its year has four digits. -/
theorem read_write {t : Timestamp} (h : t.isValid = true) (hlow : 0 ≤ t.date.year)
    (hhigh : t.date.year ≤ 9999) : read t.write = .ok t := by
  have hrange : yearInRange t.date.year = true := by
    simp only [yearInRange, Bool.and_eq_true, decide_eq_true_eq]
    omega
  have hdate := (isValid_iff.mp h).1
  unfold read
  rw [readFields_write h hlow hhigh]
  simp only [bind, Except.bind, toUniversal_zero h, hrange, hdate]
  rfl

/-- The day after a date that exists exists. -/
theorem next_valid {d : Date} (h : d.isValid = true) : d.next.isValid = true := by
  simp only [Date.isValid, Bool.and_eq_true, decide_eq_true_eq] at h ⊢
  unfold Date.next
  split
  · dsimp only
    omega
  split
  · have := daysIn_bounds d.year (d.month + 1)
    dsimp only
    omega
  · have := daysIn_bounds (d.year + 1) 1
    dsimp only
    omega

/-- The day before a date that exists exists. -/
theorem previous_valid {d : Date} (h : d.isValid = true) : d.previous.isValid = true := by
  simp only [Date.isValid, Bool.and_eq_true, decide_eq_true_eq] at h ⊢
  unfold Date.previous
  split
  · dsimp only
    omega
  split
  · have := daysIn_bounds d.year (d.month - 1)
    dsimp only
    omega
  · have : Date.daysIn (d.year - 1) 12 = 31 := rfl
    dsimp only
    omega

/-- Moved to universal time, the fields are still in their ranges. -/
theorem toUniversal_valid {t : Timestamp} (h : t.isValid = true) (east : Int) :
    (t.toUniversal east).isValid = true := by
  obtain ⟨hdate, hhour, hminute, hsecond, hnano⟩ := isValid_iff.mp h
  unfold toUniversal
  refine isValid_iff.mpr ⟨?_, ?_, ?_, hsecond, hnano⟩
  · dsimp only
    split
    · exact previous_valid hdate
    · split
      · exact next_valid hdate
      · exact hdate
  · dsimp only
    omega
  · dsimp only
    omega

/-- A field that was read is in its range. -/
theorem of_readField {low high n : Nat} {cs rest : List Char}
    (h : readField low high cs = .ok (n, rest)) : low ≤ n ∧ n ≤ high := by
  obtain ⟨⟨digits, rest'⟩, -, hfield⟩ := of_bind_ok h
  dsimp only at hfield
  split at hfield
  · rename_i hrange
    cases hfield
    exact hrange
  · cases hfield

/-- What is read as digits is made of digits, no more than the width. -/
theorem of_readDigits {width : Nat} {cs digits rest : List Char}
    (h : readDigits width cs = .ok (digits, rest)) :
    (∀ c ∈ digits, c.isDigit = true) ∧ digits.length ≤ width := by
  cases cs with
  | nil => cases h
  | cons c cs =>
      simp only [readDigits] at h
      split at h
      · cases h
      · cases h
        refine ⟨List.all_eq_true.mp List.all_takeWhile, ?_⟩
        calc (((c :: cs).take width).takeWhile Char.isDigit).length
            ≤ ((c :: cs).take width).length := (List.takeWhile_sublist _).length_le
          _ ≤ width := List.length_take_le _ _

/-- A fraction is less than a second. -/
theorem of_readFraction {cs rest : List Char} {nano : Nat}
    (h : readFraction cs = .ok (nano, rest)) : nano < Span.second := by
  unfold readFraction at h
  split at h
  · obtain ⟨⟨digits, rest'⟩, hread, hnano⟩ := of_bind_ok h
    cases hnano
    obtain ⟨hdigits, hlength⟩ := of_readDigits hread
    have hlt := digitsValue_lt hdigits
    have hten : 0 < 10 ^ (9 - digits.length) := Nat.pow_pos (by omega)
    calc digitsValue digits * 10 ^ (9 - digits.length)
        < 10 ^ digits.length * 10 ^ (9 - digits.length) := Nat.mul_lt_mul_of_pos_right hlt hten
      _ = 10 ^ 9 := by rw [← Nat.pow_add, Nat.add_sub_cancel' hlength]
  · cases h
    decide

/-- The fields of a local time that were read are in their ranges, if its date
exists. -/
theorem of_readFields {cs rest : List Char} {t : Timestamp} {east : Int}
    (h : readFields cs = .ok ((t, east), rest)) (hdate : t.date.isValid = true) :
    t.isValid = true := by
  obtain ⟨⟨year, _⟩, -, h⟩ := of_bind_ok h
  obtain ⟨_, -, h⟩ := of_bind_ok h
  obtain ⟨⟨month, _⟩, -, h⟩ := of_bind_ok h
  obtain ⟨_, -, h⟩ := of_bind_ok h
  obtain ⟨⟨day, _⟩, -, h⟩ := of_bind_ok h
  obtain ⟨_, -, h⟩ := of_bind_ok h
  obtain ⟨⟨hour, _⟩, hhour, h⟩ := of_bind_ok h
  obtain ⟨_, -, h⟩ := of_bind_ok h
  obtain ⟨⟨minute, _⟩, hminute, h⟩ := of_bind_ok h
  obtain ⟨_, -, h⟩ := of_bind_ok h
  obtain ⟨⟨second, _⟩, hsecond, h⟩ := of_bind_ok h
  obtain ⟨⟨nano, _⟩, hnano, h⟩ := of_bind_ok h
  obtain ⟨⟨_, _⟩, -, hfields⟩ := of_bind_ok h
  cases hfields
  refine isValid_iff.mpr ⟨hdate, ?_, ?_, ?_, ?_⟩
  · exact Nat.lt_succ_of_le (of_readField hhour).2
  · exact Nat.lt_succ_of_le (of_readField hminute).2
  · exact (of_readField hsecond).2
  · exact of_readFraction hnano

/-- **Whatever is read has all fields in their ranges**, its offset removed. -/
theorem read_valid {s : String} {t : Timestamp} (h : read s = .ok t) : t.isValid = true := by
  obtain ⟨⟨⟨wall, east⟩, rest⟩, hfields, h⟩ := of_bind_ok h
  dsimp only at h
  split at h
  · cases h
  split at h
  · cases h
  rename_i hexists
  split at h
  · cases h
  split at h
  · cases h
    refine toUniversal_valid (of_readFields hfields ?_) east
    simp only [Bool.not_eq_true', Bool.not_eq_false, Bool.and_eq_true] at hexists
    exact hexists.2
  · cases h

end Timestamp
end PubSub
