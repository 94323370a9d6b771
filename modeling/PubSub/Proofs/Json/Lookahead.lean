import Mathlib.Data.List.TakeWhile
import PubSub.Proofs.Json.Values

/-!
# Lexemes do not look ahead

A word or a string ends where it ends, whatever follows.  A number ends at the
first byte that cannot go on with it, and looks no further.  And a string or a
number that is read for its value ends where it would if it were passed over.

* `Passes`, `Takes` — what a reader does with bytes, whatever follows them;
* `StringStep`, `of_readStringBytes` — what one byte of a string does, and the
  rest of it;
* `of_readString`, `of_skipStringFrom` — strings as a whole;
* `WholeDigits`, `of_skipNumber`, `of_readNumber_int` — numbers;
* `skipNumber_of_read` — a number that is read, and one that is passed over.
-/

namespace PubSub.Json

variable {α : Type}

/-- The bytes are passed over, whatever follows that does not go on with a
number. -/
def Passes (skip : Bytes → Except Fault Bytes) (v : Bytes) : Prop :=
  ∀ more, EndsNumber more → skip (v ++ more) = .ok more

/-- The reader takes the bytes, whatever follows that does not go on with a
number. -/
def Takes (reader : Reader α) (v : Bytes) (a : α) : Prop :=
  ∀ more, EndsNumber more → reader (v ++ more) = .ok (a, more)

/-- Nothing but blanks. -/
def Blanks (bs : Bytes) : Prop := ∀ b ∈ bs, isBlank b = true

/-- No bytes are blanks. -/
theorem blanks_nil : Blanks [] := List.forall_mem_nil _

/-- Blanks are skipped. -/
theorem Blanks.skip {blanks : Bytes} (h : Blanks blanks) (bs : Bytes) :
    skipBlanks (blanks ++ bs) = skipBlanks bs :=
  List.dropWhile_append_of_pos h

/-- Blanks, and then something else. -/
theorem Blanks.skip_cons {blanks : Bytes} (h : Blanks blanks) {b : UInt8} (hb : isBlank b = false)
    (rest : Bytes) : skipBlanks (blanks ++ b :: rest) = b :: rest := by
  rw [h.skip, skipBlanks_cons hb]

/-- More blanks. -/
theorem Blanks.append {blanks more : Bytes} (h : Blanks blanks) (hmore : Blanks more) :
    Blanks (blanks ++ more) :=
  fun b hb => (List.mem_append.mp hb).elim (h b) (hmore b)

/-- What was skipped. -/
theorem blanks_skipBlanks (bs : Bytes) : ∃ blanks, Blanks blanks ∧ bs = blanks ++ skipBlanks bs :=
  ⟨bs.takeWhile isBlank, fun _ hb => List.mem_takeWhile_imp hb,
    List.takeWhile_append_dropWhile.symm⟩

/-- Nothing is left when blanks are skipped. -/
theorem skipBlanks_eq_nil {bs : Bytes} : skipBlanks bs = [] ↔ Blanks bs :=
  List.dropWhile_eq_nil_iff

/-- What is left begins with something else. -/
theorem of_skipBlanks {bs rest : Bytes} {b : UInt8} (h : skipBlanks bs = b :: rest) :
    ∃ blanks, Blanks blanks ∧ isBlank b = false ∧ bs = blanks ++ b :: rest := by
  obtain ⟨blanks, hblanks, hbs⟩ := blanks_skipBlanks bs
  rw [h] at hbs
  refine ⟨blanks, hblanks, ?_, hbs⟩
  have hfirst := List.head?_dropWhile_not isBlank bs
  rw [← skipBlanks, h] at hfirst
  exact hfirst

/-- The end of the text does not go on with a number. -/
theorem endsNumber_nil : EndsNumber [] := by
  intro b hb
  cases hb

/-- A blank does not go on with a number. -/
theorem endsNumber_of_isBlank {b : UInt8} (hb : isBlank b = true) (rest : Bytes) :
    EndsNumber (b :: rest) := by
  have hcases : b = 0x20 ∨ b = 0x0A ∨ b = 0x09 ∨ b = 0x0D := by
    simpa [isBlank, or_assoc] using hb
  rintro _ ⟨⟩
  rcases hcases with rfl | rfl | rfl | rfl <;> decide

/-- Nor do blanks in front of what does not. -/
theorem Blanks.endsNumber {blanks rest : Bytes} (h : Blanks blanks) (hrest : EndsNumber rest) :
    EndsNumber (blanks ++ rest) := by
  cases blanks with
  | nil => exact hrest
  | cons b blanks => exact endsNumber_of_isBlank (h b List.mem_cons_self) _

/-- Nor do blanks at the end of a text. -/
theorem Blanks.ends {blanks : Bytes} (h : Blanks blanks) : EndsNumber blanks := by
  have hends : EndsNumber (blanks ++ []) := h.endsNumber endsNumber_nil
  rwa [List.append_nil] at hends

/-- The rest of a word is passed over if it is there. -/
theorem readWord_iff {word bs rest : Bytes} : readWord word bs = .ok rest ↔ bs = word ++ rest := by
  induction word generalizing bs with
  | nil =>
      rw [readWord, List.nil_append]
      exact ⟨fun h => Except.ok.inj h, fun h => congrArg _ h⟩
  | cons e word ih =>
      cases bs with
      | nil => simp [readWord, failBefore]
      | cons b bs =>
          rw [readWord, List.cons_append, List.cons.injEq]
          by_cases hb : b = e
          · rw [if_pos hb, ih]
            exact ⟨fun h => ⟨hb, h⟩, fun h => h.2⟩
          · rw [if_neg hb]
            refine ⟨fun h => ?_, fun h => absurd h.1 hb⟩
            cases h

namespace Inside

/-- The rest of a string is passed over from where a reader of its value
stands. -/
def skip : Inside → Bytes → Except Fault Bytes
  | plain | halfway _ => skipStringFrom none false []
  | escape | halfwayEscape _ => skipStringFrom none true []
  | hex _ digits => skipStringFrom (some (4 - digits.length)) false digits

/-- Of the four digits of an escape, one at least is still to come. -/
def Owing : Inside → Prop
  | hex _ digits => digits.length < 4
  | _ => True

end Inside

/-- What one byte of a string does, read for its value and passed over: it ends
the string, or it leads on, or there is a flaw. -/
inductive StringStep (inside : Inside) (b : UInt8) : Prop
  | close (hread : ∀ rest, readStringBytes inside (b :: rest) = .ok ([], rest))
      (hskip : ∀ rest, inside.skip (b :: rest) = .ok rest)
  | go (added : Bytes) (next : Inside) (hnext : next.Owing)
      (hread : ∀ rest, readStringBytes inside (b :: rest) =
        behind added (readStringBytes next rest))
      (hskip : ∀ rest, inside.skip (b :: rest) = next.skip rest)
  | flaw (f : Flaw) (hread : ∀ rest, readStringBytes inside (b :: rest) = failBefore f rest)

/-- Nothing is put before what is read. -/
theorem behind_nil (result : Except Fault (Bytes × Bytes)) : behind [] result = result := by
  cases result <;> rfl

/-- Bytes of a string that stand for themselves, end it or lead to an escape. -/
theorem stringStep_plain (b : UInt8) : StringStep .plain b := by
  by_cases hquote : b = Ascii.quote
  · refine .close (fun rest => ?_) fun rest => ?_
    · rw [readStringBytes, if_pos hquote]
    · rw [Inside.skip, skipStringFrom]
      simp [hquote]
  by_cases hbackslash : b = Ascii.backslash
  · refine .go [] .escape trivial (fun rest => ?_) fun rest => ?_
    · rw [readStringBytes, if_neg hquote, if_pos hbackslash, behind_nil]
    · simp only [Inside.skip, skipStringFrom, if_neg hquote, if_pos hbackslash, reduceIte,
        Bool.false_eq_true]
  by_cases hcontrol : b < 0x20
  · refine .flaw .controlCharacter fun rest => ?_
    rw [readStringBytes, if_neg hquote, if_neg hbackslash, if_pos hcontrol]
  · refine .go [b] .plain trivial (fun rest => ?_) fun rest => ?_
    · rw [readStringBytes, if_neg hquote, if_neg hbackslash, if_neg hcontrol]
      cases readStringBytes .plain rest <;> rfl
    · simp only [Inside.skip, skipStringFrom, if_neg hquote, if_neg hbackslash, if_neg hcontrol,
        reduceIte, Bool.false_eq_true]

/-- The letter behind a backslash. -/
theorem stringStep_escape (b : UInt8) : StringStep .escape b := by
  cases hchar : escapedChar? b with
  | some c =>
      refine .go (Utf8.encode [c]) .plain trivial (fun rest => ?_) fun rest => ?_
      · rw [readStringBytes, hchar]
        cases readStringBytes .plain rest <;> rfl
      · simp only [Inside.skip, skipStringFrom, hchar, Option.isSome_some, reduceIte]
  | none =>
      by_cases hu : b = Ascii.letterU
      · refine .go [] (.hex none []) (Nat.zero_lt_succ 3) (fun rest => ?_) fun rest => ?_
        · rw [readStringBytes, hchar]
          simp only [if_pos hu, behind_nil]
        · simp only [Inside.skip, skipStringFrom, hchar, Option.isSome_none, if_pos hu, reduceIte,
            Bool.false_eq_true, List.length_nil, Nat.sub_zero]
      · refine .flaw .invalidEscape fun rest => ?_
        rw [readStringBytes, hchar]
        simp only [if_neg hu]

/-- A digit of an escape. -/
theorem stringStep_hex (lead : Option Nat) {digits : Bytes} (hdigits : digits.length < 4)
    (b : UInt8) : StringStep (.hex lead digits) b := by
  have hlength : (digits ++ [b]).length = digits.length + 1 := List.length_append
  by_cases hmore : digits.length + 1 < 4
  · refine .go [] (.hex lead (digits ++ [b])) ?_ (fun rest => ?_) fun rest => ?_
    · rwa [Inside.Owing, hlength]
    · rw [readStringBytes]
      simp only [hlength, if_pos hmore, behind_nil]
    · have howed : 1 < 4 - digits.length := by omega
      simp only [Inside.skip, skipStringFrom, if_pos howed, hlength, Nat.sub_sub]
  · have howed : ¬1 < 4 - digits.length := by omega
    cases hnumber : hexNumber? (digits ++ [b]) with
    | none =>
        refine .flaw .invalidEscape fun rest => ?_
        rw [readStringBytes]
        simp only [hlength, if_neg hmore, hnumber]
    | some n =>
        cases hclose : closeHex lead n with
        | error flaw =>
            refine .flaw flaw fun rest => ?_
            rw [readStringBytes]
            simp only [hlength, if_neg hmore, hnumber, hclose]
        | ok closed =>
            obtain ⟨added, next⟩ := closed
            -- four digits leave both readers where they were before the backslash
            have hnext : next.Owing ∧ next.skip = skipStringFrom none false [] := by
              unfold closeHex at hclose
              grind [Inside.Owing, Inside.skip]
            refine .go added next hnext.1 (fun rest => ?_) fun rest => ?_
            · rw [readStringBytes]
              simp only [hlength, if_neg hmore, hnumber, hclose]
              cases readStringBytes next rest <;> rfl
            · rw [hnext.2]
              simp only [Inside.skip, skipStringFrom, if_neg howed, hnumber, Option.isSome_some,
                reduceIte]

/-- The backslash that must follow a first half. -/
theorem stringStep_halfway (lead : Nat) (b : UInt8) : StringStep (.halfway lead) b := by
  by_cases hbackslash : b = Ascii.backslash
  · have hquote : b ≠ Ascii.quote := by
      rw [hbackslash]
      decide
    refine .go [] (.halfwayEscape lead) trivial (fun rest => ?_) fun rest => ?_
    · rw [readStringBytes, if_pos hbackslash, behind_nil]
    · simp only [Inside.skip, skipStringFrom, if_neg hquote, if_pos hbackslash, reduceIte,
        Bool.false_eq_true]
  · refine .flaw .unexpectedEndOfHexEscape fun rest => ?_
    rw [readStringBytes, if_neg hbackslash]

/-- And the letter behind it. -/
theorem stringStep_halfwayEscape (lead : Nat) (b : UInt8) :
    StringStep (.halfwayEscape lead) b := by
  by_cases hu : b = Ascii.letterU
  · have hchar : escapedChar? b = none := by
      rw [hu]
      rfl
    refine .go [] (.hex (some lead) []) (Nat.zero_lt_succ 3) (fun rest => ?_) fun rest => ?_
    · rw [readStringBytes, if_pos hu, behind_nil]
    · simp only [Inside.skip, skipStringFrom, hchar, Option.isSome_none, if_pos hu, reduceIte,
        Bool.false_eq_true, List.length_nil, Nat.sub_zero]
  · refine .flaw .unexpectedEndOfHexEscape fun rest => ?_
    rw [readStringBytes, if_neg hu]

/-- One byte of a string, wherever the reader stands. -/
theorem stringStep (inside : Inside) (h : inside.Owing) (b : UInt8) : StringStep inside b := by
  cases inside with
  | plain => exact stringStep_plain b
  | escape => exact stringStep_escape b
  | hex lead digits => exact stringStep_hex lead h b
  | halfway lead => exact stringStep_halfway lead b
  | halfwayEscape lead => exact stringStep_halfwayEscape lead b

/-- What was put before what is read. -/
theorem of_behind {added bytes rest : Bytes} {result : Except Fault (Bytes × Bytes)}
    (h : behind added result = .ok (bytes, rest)) :
    ∃ more, result = .ok (more, rest) ∧ bytes = added ++ more := by
  cases result with
  | error fault => cases h
  | ok read =>
      cases h
      exact ⟨read.1, rfl, rfl⟩

/-- **The rest of a string ends where it ends.**  It is read in the same way
whatever follows it, and it would be passed over up to the same place. -/
theorem of_readStringBytes {inside : Inside} (hinside : inside.Owing) {bs bytes rest : Bytes}
    (h : readStringBytes inside bs = .ok (bytes, rest)) :
    inside.skip bs = .ok rest ∧ ∃ v, bs = v ++ rest ∧
      ∀ more, readStringBytes inside (v ++ more) = .ok (bytes, more) := by
  induction bs generalizing inside bytes with
  | nil => cases inside <;> cases h
  | cons b bs ih =>
      cases stringStep inside hinside b with
      | close hread hskip =>
          rw [hread] at h
          cases h
          exact ⟨hskip _, [b], rfl, hread⟩
      | go added next hnext hread hskip =>
          rw [hread] at h
          obtain ⟨more, hmore, rfl⟩ := of_behind h
          obtain ⟨hpass, v, rfl, htakes⟩ := ih hnext hmore
          refine ⟨(hskip _).trans hpass, b :: v, rfl, fun after => ?_⟩
          rw [List.cons_append, hread, htakes]
          rfl
      | flaw f hread =>
          rw [hread] at h
          cases h

/-- A string is read in the same way whatever follows its closing quote. -/
theorem of_readString {bs rest : Bytes} {s : String} (h : readString bs = .ok (s, rest)) :
    skipString bs = .ok rest ∧ ∃ v, bs = v ++ rest ∧
      ∀ more, readString (v ++ more) = .ok (s, more) := by
  obtain ⟨⟨bytes, after⟩, hbytes, hs⟩ := of_bind_ok h
  dsimp only at hs
  split at hs
  · rename_i hutf
    cases hs
    have hplain : Inside.plain.Owing := trivial
    obtain ⟨hpass, v, rfl, htakes⟩ := of_readStringBytes hplain hbytes
    refine ⟨hpass, v, rfl, fun more => ?_⟩
    unfold readString
    rw [htakes]
    simp only [bind, Except.bind, hutf]
  · cases hs

/-- A string that is passed over ends where it ends. -/
theorem of_skipStringFrom {owed : Option Nat} {escaped : Bool} {digits bs rest : Bytes}
    (h : skipStringFrom owed escaped digits bs = .ok rest) :
    ∃ v, v ≠ [] ∧ bs = v ++ rest ∧
      ∀ more, skipStringFrom owed escaped digits (v ++ more) = .ok more := by
  induction bs generalizing owed escaped digits with
  | nil => cases h
  | cons b bs ih =>
      -- each byte either ends the string, or the rest is passed over from a new state
      have hgo {owed' : Option Nat} {escaped' : Bool} {digits' : Bytes}
          (hrest : skipStringFrom owed' escaped' digits' bs = .ok rest)
          (hstep : ∀ rest, skipStringFrom owed escaped digits (b :: rest) =
            skipStringFrom owed' escaped' digits' rest) :
          ∃ v, v ≠ [] ∧ b :: bs = v ++ rest ∧
            ∀ more, skipStringFrom owed escaped digits (v ++ more) = .ok more := by
        obtain ⟨v, -, rfl, hv⟩ := ih hrest
        exact ⟨b :: v, List.cons_ne_nil _ _, rfl, fun more => (hstep _).trans (hv more)⟩
      unfold skipStringFrom at h
      split at h
      · split at h
        · rename_i hmore
          exact hgo h fun rest => by simp only [skipStringFrom, if_pos hmore]
        split at h
        · rename_i hmore hnumber
          exact hgo h fun rest => by simp only [skipStringFrom, if_neg hmore, hnumber, reduceIte]
        · cases h
      split at h
      · rename_i hescaped
        split at h
        · rename_i hchar
          exact hgo h fun rest => by simp only [skipStringFrom, if_pos hescaped, if_pos hchar]
        split at h
        · rename_i hchar hu
          exact hgo h fun rest => by
            simp only [skipStringFrom, if_pos hescaped, if_neg hchar, if_pos hu]
        · cases h
      rename_i hescaped
      split at h
      · rename_i hquote
        cases h
        exact ⟨[b], List.cons_ne_nil _ _, rfl, fun more => by
          simp only [List.singleton_append, skipStringFrom, if_neg hescaped, if_pos hquote]⟩
      split at h
      · rename_i hquote hbackslash
        exact hgo h fun rest => by
          simp only [skipStringFrom, if_neg hescaped, if_neg hquote, if_pos hbackslash]
      split at h
      · cases h
      · rename_i hquote hbackslash hcontrol
        exact hgo h fun rest => by
          simp only [skipStringFrom, if_neg hescaped, if_neg hquote, if_neg hbackslash,
            if_neg hcontrol]

/-- The digits at the front of a text, and what stops them. -/
theorem digits_dropWhile (bs : Bytes) : ∃ digits, (∀ b ∈ digits, Ascii.isDigit b = true) ∧
    bs = digits ++ bs.dropWhile Ascii.isDigit ∧ Stops (bs.dropWhile Ascii.isDigit) := by
  refine ⟨bs.takeWhile Ascii.isDigit, fun _ hb => List.mem_takeWhile_imp hb,
    List.takeWhile_append_dropWhile.symm, fun b hb => ?_⟩
  have hstop := List.head?_dropWhile_not Ascii.isDigit bs
  rw [hb] at hstop
  exact hstop

/-- Digits are dropped up to what stops them. -/
theorem dropDigits_append {digits rest : Bytes} (hall : ∀ b ∈ digits, Ascii.isDigit b = true)
    (h : Stops rest) : (digits ++ rest).dropWhile Ascii.isDigit = rest :=
  congrArg Prod.snd (spanDigits_append hall h)

/-- What stopped digits still does so when more of it is passed over. -/
theorem Stops.passed {v rest more : Bytes} (h : Stops (v ++ rest)) (hmore : EndsNumber more) :
    Stops (v ++ more) := by
  cases v with
  | nil => exact hmore.stops
  | cons b v => exact h

/-- The digits of an exponent, behind its sign. -/
theorem of_skipExponentDigits (sign : Bytes) {after rest : Bytes}
    (hsign : ∀ d more, Ascii.isDigit d = true → (readExponentSign (sign ++ d :: more)).2 = d :: more)
    (hafter : (readExponentSign (sign ++ after)).2 = after)
    (h : skipExponent (sign ++ after) = .ok rest) :
    ∃ v, sign ++ after = v ++ rest ∧ Passes skipExponent v := by
  rw [skipExponent, hafter] at h
  cases after with
  | nil => cases h
  | cons d after =>
      dsimp only at h
      split at h
      · rename_i hd
        cases h
        obtain ⟨digits, hall, hdigits, -⟩ := digits_dropWhile after
        refine ⟨sign ++ d :: digits, ?_, fun more hmore => ?_⟩
        · rw [List.append_assoc, List.cons_append, ← hdigits]
        · rw [skipExponent, List.append_assoc, List.cons_append, hsign d _ hd]
          simp only [hd, reduceIte, dropDigits_append hall hmore.stops]
      · cases h

/-- An exponent ends with its digits. -/
theorem of_skipExponent {bs rest : Bytes} (h : skipExponent bs = .ok rest) :
    ∃ v, bs = v ++ rest ∧ Passes skipExponent v := by
  cases bs with
  | nil => cases h
  | cons b bs =>
      by_cases hplus : b = Ascii.plus
      · have hsign (more : Bytes) : (readExponentSign ([b] ++ more)).2 = more := by
          simp only [List.singleton_append, readExponentSign, if_pos hplus]
        exact of_skipExponentDigits [b] (fun d more _ => hsign (d :: more)) (hsign bs) h
      by_cases hminus : b = Ascii.minus
      · have hsign (more : Bytes) : (readExponentSign ([b] ++ more)).2 = more := by
          simp only [List.singleton_append, readExponentSign, if_neg hplus, if_pos hminus]
        exact of_skipExponentDigits [b] (fun d more _ => hsign (d :: more)) (hsign bs) h
      · refine of_skipExponentDigits [] (fun d more hd => ?_) ?_ h
        · have hplus' : d ≠ Ascii.plus := ne_of_isDigit hd rfl
          have hminus' : d ≠ Ascii.minus := ne_of_isDigit hd rfl
          simp only [List.nil_append, readExponentSign, if_neg hplus', if_neg hminus']
        · simp only [List.nil_append, readExponentSign, if_neg hplus, if_neg hminus]

/-- Without an exponent there is nothing to pass over. -/
theorem skipOptionalExponent_ends : Passes skipOptionalExponent [] := by
  intro more hmore
  cases more with
  | nil => rfl
  | cons b more =>
      obtain ⟨-, -, hmark⟩ := hmore b rfl
      simp [skipOptionalExponent, hmark]

/-- An exponent, if there is one. -/
theorem of_skipOptionalExponent {bs rest : Bytes} (h : skipOptionalExponent bs = .ok rest) :
    ∃ v, bs = v ++ rest ∧ Passes skipOptionalExponent v := by
  cases bs with
  | nil =>
      cases h
      exact ⟨[], rfl, skipOptionalExponent_ends⟩
  | cons b bs =>
      rw [skipOptionalExponent] at h
      split at h
      · rename_i hmark
        obtain ⟨v, rfl, hv⟩ := of_skipExponent h
        refine ⟨b :: v, rfl, fun more hmore => ?_⟩
        rw [List.cons_append, skipOptionalExponent, if_pos hmark, hv more hmore]
      · cases h
        exact ⟨[], rfl, skipOptionalExponent_ends⟩

/-- What does not begin with a point may begin with an exponent. -/
theorem skipAfterWhole_noPoint {bs : Bytes} (h : ∀ b ∈ bs.head?, b ≠ Ascii.point) :
    skipAfterWhole bs = skipOptionalExponent bs := by
  cases bs with
  | nil => rfl
  | cons b bs => rw [skipAfterWhole, if_neg (h b rfl)]

/-- What follows the whole digits. -/
theorem of_skipAfterWhole {bs rest : Bytes} (h : skipAfterWhole bs = .ok rest) :
    ∃ v, bs = v ++ rest ∧ Passes skipAfterWhole v := by
  by_cases hpoint : ∀ b ∈ bs.head?, b ≠ Ascii.point
  · rw [skipAfterWhole_noPoint hpoint] at h
    obtain ⟨v, rfl, hv⟩ := of_skipOptionalExponent h
    refine ⟨v, rfl, fun more hmore => ?_⟩
    have hnone : ∀ b ∈ (v ++ more).head?, b ≠ Ascii.point := by
      cases v with
      | nil => exact fun b hb => (hmore b hb).2.1
      | cons b v => exact hpoint
    rw [skipAfterWhole_noPoint hnone, hv more hmore]
  · obtain ⟨b, bs, rfl, rfl⟩ : ∃ b after, bs = b :: after ∧ b = Ascii.point := by
      cases bs with
      | nil => simp at hpoint
      | cons b bs => exact ⟨b, bs, rfl, by simpa using hpoint⟩
    obtain ⟨digits, hall, hbs, hstops⟩ := digits_dropWhile bs
    generalize bs.dropWhile Ascii.isDigit = after at hbs hstops
    subst hbs
    rw [skipAfterWhole, if_pos rfl, spanDigits_append hall hstops] at h
    cases digits with
    | nil => cases h
    | cons d digits =>
        obtain ⟨v, rfl, hv⟩ := of_skipOptionalExponent h
        refine ⟨Ascii.point :: (d :: digits ++ v), by simp, fun more hmore => ?_⟩
        rw [List.cons_append, List.append_assoc, skipAfterWhole, if_pos rfl,
          spanDigits_append hall (hstops.passed hmore)]
        exact hv more hmore

/-- Behind a leading zero no digit may stand. -/
theorem skipNumber_zero {rest : Bytes} (h : Stops rest) :
    skipNumber (Ascii.zero :: rest) = skipAfterWhole rest := by
  cases rest with
  | nil => rfl
  | cons d rest => simp only [skipNumber, h d rfl, reduceIte, Bool.false_eq_true]

/-- Whole digits other than zero. -/
theorem skipNumber_digits {b : UInt8} (hzero : b ≠ Ascii.zero) (hb : Ascii.isDigit b = true)
    {digits rest : Bytes} (hall : ∀ b ∈ digits, Ascii.isDigit b = true) (h : Stops rest) :
    skipNumber (b :: (digits ++ rest)) = skipAfterWhole rest := by
  simp only [skipNumber, if_neg hzero, if_pos hb, dropDigits_append hall h]

/-- The whole digits of a number: a zero alone, or any that begin with another
digit. -/
inductive WholeDigits : Bytes → Prop
  | zero : WholeDigits [Ascii.zero]
  | other {b : UInt8} {digits : Bytes} (hzero : b ≠ Ascii.zero) (hb : Ascii.isDigit b = true)
      (hall : ∀ b ∈ digits, Ascii.isDigit b = true) : WholeDigits (b :: digits)

/-- Whole digits are passed over. -/
theorem WholeDigits.skipNumber {digits rest : Bytes} (h : WholeDigits digits) (hrest : Stops rest) :
    skipNumber (digits ++ rest) = skipAfterWhole rest := by
  cases h with
  | zero => exact skipNumber_zero hrest
  | other hzero hb hall => exact skipNumber_digits hzero hb hall hrest

/-- A text that begins like a number begins with whole digits. -/
theorem wholeDigits_lead {b : UInt8} {bs : Bytes} (hb : Ascii.isDigit b = true)
    (hzero : b = Ascii.zero → Stops bs) :
    ∃ digits rest, WholeDigits digits ∧ Stops rest ∧ b :: bs = digits ++ rest := by
  by_cases hlead : b = Ascii.zero
  · exact ⟨[b], bs, hlead ▸ .zero, hzero hlead, rfl⟩
  · obtain ⟨digits, hall, hbs, hstops⟩ := digits_dropWhile bs
    exact ⟨b :: digits, _, .other hlead hb hall, hstops, congrArg (b :: ·) hbs⟩

/-- **A number that is passed over** ends where it ends. -/
theorem of_skipNumber {bs rest : Bytes} (h : skipNumber bs = .ok rest) :
    ∃ v, v ≠ [] ∧ bs = v ++ rest ∧ Passes skipNumber v := by
  obtain ⟨digits, after, hdigits, hstops, rfl⟩ :
      ∃ digits after, WholeDigits digits ∧ Stops after ∧ bs = digits ++ after := by
    cases bs with
    | nil => cases h
    | cons b bs =>
        simp only [skipNumber] at h
        split at h
        · rename_i hzero
          refine wholeDigits_lead (hzero ▸ rfl) fun _ => ?_
          grind [Stops, failOn]
        split at h
        · rename_i hzero hb
          exact wholeDigits_lead hb fun heq => absurd heq hzero
        · cases h
  rw [hdigits.skipNumber hstops] at h
  obtain ⟨v, rfl, hv⟩ := of_skipAfterWhole h
  refine ⟨digits ++ v, ?_, by rw [List.append_assoc], fun more hmore => ?_⟩
  · cases hdigits <;> exact List.cons_ne_nil _ _
  · rw [List.append_assoc, hdigits.skipNumber (hstops.passed hmore), hv more hmore]

section Read

variable {negative down : Bool} {significand : Nat} {start : Int} {bs rest : Bytes} {n : Number}

/-- Putting a double together takes nothing more. -/
theorem rest_of_finish (h : finish negative significand start bs = .ok (n, rest)) :
    rest = bs := by
  unfold finish at h
  split at h
  · cases h
    rfl
  · cases h

/-- The digits of an exponent are read to their end. -/
theorem rest_of_readExponentDigits {exponent : Nat}
    (h : readExponentDigits negative down significand start exponent bs = .ok (n, rest)) :
    rest = bs.dropWhile Ascii.isDigit := by
  induction bs generalizing exponent with
  | nil => exact rest_of_finish h
  | cons d bs ih =>
      rw [readExponentDigits] at h
      split at h
      · rename_i hd
        rw [List.dropWhile_cons_of_pos hd]
        dsimp only at h
        split at h
        · exact ih h
        · split at h
          · cases h
          · cases h
            rfl
      · rename_i hd
        rw [List.dropWhile_cons_of_neg hd]
        exact rest_of_finish h

/-- An exponent that is read would be passed over. -/
theorem skipExponent_of_read (h : readExponent negative significand start bs = .ok (n, rest)) :
    skipExponent bs = .ok rest := by
  unfold readExponent at h
  unfold skipExponent
  dsimp only at h
  split at h
  · cases h
  · split at h
    · rename_i hd
      simp only [hd, reduceIte, rest_of_readExponentDigits h]
    · cases h

/-- The same where there may be none. -/
theorem skipOptionalExponent_of_read
    (h : readOptionalExponent negative significand start bs = .ok (n, rest)) :
    skipOptionalExponent bs = .ok rest := by
  unfold readOptionalExponent at h
  unfold skipOptionalExponent
  split at h
  · split at h
    · rename_i hmark
      simp only [if_pos hmark, skipExponent_of_read h]
    · rename_i hmark
      simp only [if_neg hmark, rest_of_finish h]
  · rw [rest_of_finish h]

/-- What follows the whole digits would be passed over. -/
theorem skipAfterWhole_of_read {left : Nat}
    (h : readAfterWhole negative significand left bs = .ok (n, rest)) :
    skipAfterWhole bs = .ok rest := by
  unfold readAfterWhole at h
  cases bs with
  | nil =>
      dsimp only at h
      split at h
      · cases h
        rfl
      · rw [rest_of_finish h]
        rfl
  | cons b bs =>
      dsimp only at h
      by_cases hpoint : b = Ascii.point
      · rw [if_pos hpoint] at h
        rw [skipAfterWhole, if_pos hpoint]
        unfold readFraction at h
        generalize spanDigits bs = span at h ⊢
        obtain ⟨digits, after⟩ := span
        cases digits with
        | nil => cases after <;> cases h
        | cons d digits => exact skipOptionalExponent_of_read h
      rw [if_neg hpoint] at h
      rw [skipAfterWhole, if_neg hpoint, skipOptionalExponent]
      by_cases hmark : Ascii.isExponentMark b
      · rw [if_pos hmark] at h ⊢
        exact skipExponent_of_read h
      rw [if_neg hmark] at h ⊢
      split at h
      · cases h
        rfl
      · rw [rest_of_finish h]

/-- A whole number that is read has neither point nor exponent. -/
theorem readAfterWhole_int {left : Nat} {i : Int}
    (h : readAfterWhole negative significand left bs = .ok (.int i, rest)) :
    rest = bs ∧ Takes (readAfterWhole negative significand left) [] (.int i) := by
  have hwhole : left = 0 ∧ wholeNumber negative significand = .int i ∧ rest = bs := by
    unfold readAfterWhole at h
    split at h
    · split at h
      · exact (readFraction_floats _ _ _ h).elim
      split at h
      · exact (readExponent_floats _ _ _ h).elim
      split at h
      · rename_i hleft
        obtain ⟨hnumber, hrest⟩ := Prod.mk.inj (Except.ok.inj h)
        exact ⟨hleft, hnumber, hrest.symm⟩
      · exact (finish_floats _ _ _ h).elim
    · split at h
      · rename_i hleft
        obtain ⟨hnumber, hrest⟩ := Prod.mk.inj (Except.ok.inj h)
        exact ⟨hleft, hnumber, hrest.symm⟩
      · exact (finish_floats _ _ _ h).elim
  obtain ⟨rfl, hnumber, rfl⟩ := hwhole
  refine ⟨rfl, fun more hmore => ?_⟩
  rw [List.nil_append, readAfterWhole_ends negative significand hmore, hnumber]

/-- Whole digits are read, and then what follows them. -/
theorem WholeDigits.readNumber {digits : Bytes} (h : WholeDigits digits) (negative : Bool) :
    ∃ significand left, ∀ rest, Stops rest →
      readNumber negative (digits ++ rest) = readAfterWhole negative significand left rest := by
  cases h with
  | zero =>
      refine ⟨0, 0, fun rest hrest => ?_⟩
      cases rest with
      | nil => rfl
      | cons d rest =>
          simp only [List.singleton_append, Json.readNumber, hrest d rfl, reduceIte,
            Bool.false_eq_true]
  | @other b digits hzero hb hall =>
      refine ⟨(appendDigits 0 (b :: digits)).1, (appendDigits 0 (b :: digits)).2.2,
        fun rest hrest => ?_⟩
      have hspan : spanDigits (b :: (digits ++ rest)) = (b :: digits, rest) :=
        spanDigits_append (List.forall_mem_cons.mpr ⟨hb, hall⟩) hrest
      simp only [List.cons_append, Json.readNumber, if_neg hzero, hb, reduceIte, hspan]

/-- A number that is read begins with whole digits. -/
theorem wholeDigits_of_readNumber (h : readNumber negative bs = .ok (n, rest)) :
    ∃ digits after, WholeDigits digits ∧ Stops after ∧ bs = digits ++ after := by
  cases bs with
  | nil => cases h
  | cons b bs =>
      simp only [readNumber] at h
      split at h
      · rename_i hzero
        refine wholeDigits_lead (hzero ▸ rfl) fun _ => ?_
        grind [Stops, failOn]
      split at h
      · rename_i hzero hb
        exact wholeDigits_lead hb fun heq => absurd heq hzero
      · cases h

/-- A number that is read would be passed over. -/
theorem skipNumber_of_read (h : readNumber negative bs = .ok (n, rest)) :
    skipNumber bs = .ok rest := by
  obtain ⟨digits, after, hdigits, hstops, rfl⟩ := wholeDigits_of_readNumber h
  obtain ⟨significand, left, hread⟩ := hdigits.readNumber negative
  rw [hread after hstops] at h
  rw [hdigits.skipNumber hstops, skipAfterWhole_of_read h]

/-- **A whole number that is read** ends where it ends. -/
theorem of_readNumber_int {i : Int} (h : readNumber negative bs = .ok (.int i, rest)) :
    ∃ v, v ≠ [] ∧ bs = v ++ rest ∧ Takes (readNumber negative) v (.int i) := by
  obtain ⟨digits, after, hdigits, hstops, rfl⟩ := wholeDigits_of_readNumber h
  obtain ⟨significand, left, hread⟩ := hdigits.readNumber negative
  rw [hread after hstops] at h
  obtain ⟨rfl, htakes⟩ := readAfterWhole_int h
  refine ⟨digits, ?_, rfl, fun more hmore => ?_⟩
  · cases hdigits <;> exact List.cons_ne_nil _ _
  · rw [hread more hmore.stops]
    exact htakes more hmore

end Read

end PubSub.Json
