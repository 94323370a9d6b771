import PubSub.Proofs.Json.Extent
import PubSub.Proofs.Json.Record

/-!
# Members that are strings or numbers

A reader of a string, a number or a value that may be `null` takes the value
as a whole: it goes as far as a reader that passes over the value, and it takes
the same of the value wherever that stands.

* `ReadsScalars` — such readers;
* `readsScalars_textAs`, `readsScalars_unsigned`, `ReadsScalars.optional`,
  `ReadsScalars.made` — there are these, and what is made of them;
* `ReadsScalars.append_iff` — a value in front of something else.
-/

namespace PubSub.Json

variable {σ α : Type}

/-- A reader of strings or numbers: it takes a value as a whole, wherever it
stands. -/
structure ReadsScalars (reader : Reader α) : Prop where
  passes {bs rest : Bytes} {a : α} (h : reader bs = .ok (a, rest)) (steps : Nat) :
    skipValueIn (steps + 1) bs = .ok rest
  takes {bs rest : Bytes} {a : α} (h : reader bs = .ok (a, rest)) :
    ∃ v, bs = v ++ rest ∧ Takes reader v a

/-- A string, whatever is accepted. -/
theorem readsScalars_textAs (expected : String) (accept : String → Except Mismatch α) :
    ReadsScalars (readTextAs expected accept) := by
  have hparts {bs rest : Bytes} {a : α} (h : readTextAs expected accept bs = .ok (a, rest)) :
      ∃ blanks body s, Blanks blanks ∧ bs = blanks ++ Ascii.quote :: body ∧
        readString body = .ok (s, rest) ∧ accept s = .ok a := by
    unfold readTextAs at h
    split at h
    · cases h
    rename_i b body hbs
    obtain ⟨blanks, hblanks, -, rfl⟩ := of_skipBlanks hbs
    split at h
    · rename_i hquote
      obtain ⟨⟨s, after⟩, hs, haccept⟩ := of_bind_ok h
      dsimp only at haccept
      split at haccept
      · rename_i hok
        cases haccept
        exact ⟨blanks, body, s, hblanks, by rw [hquote], hs, hok⟩
      · cases haccept
    · exact (mistyped_ne_ok h).elim
  refine ⟨fun h steps => ?_, fun h => ?_⟩
  · obtain ⟨blanks, body, s, hblanks, rfl, hs, -⟩ := hparts h
    rw [skipValueIn_blanks hblanks]
    exact (of_readString hs).1
  · obtain ⟨blanks, body, s, hblanks, rfl, hs, haccept⟩ := hparts h
    obtain ⟨-, v, rfl, hv⟩ := of_readString hs
    refine ⟨blanks ++ Ascii.quote :: v, by simp, fun more _ => ?_⟩
    rw [List.append_assoc, List.cons_append, readTextAs, hblanks.skip_cons rfl]
    simp only [reduceIte, hv, bind, Except.bind, haccept]

/-- A string. -/
theorem readsScalars_text : ReadsScalars readText := readsScalars_textAs _ _

/-- Only whole numbers are accepted. -/
theorem int_of_acceptUnsigned {expected : String} {bits n : Nat} {number : Number}
    (h : acceptUnsigned expected bits number = .ok n) : ∃ i, number = .int i := by
  cases number with
  | int i => exact ⟨i, rfl⟩
  | float x => cases h

/-- A whole number that was read: it stands behind blanks, with or without its
sign. -/
theorem parts_of_readUnsigned {expected : String} {bits n : Nat} {bs rest : Bytes}
    (h : readUnsigned expected bits bs = .ok (n, rest)) :
    ∃ blanks b body i, Blanks blanks ∧ bs = blanks ++ b :: body ∧
      acceptUnsigned expected bits (.int i) = .ok n ∧
      (b = Ascii.minus ∧ readNumber true body = .ok (.int i, rest) ∨
        Ascii.isDigit b = true ∧ readNumber false (b :: body) = .ok (.int i, rest)) := by
  unfold readUnsigned at h
  dsimp only at h
  split at h
  · cases h
  rename_i b body hbs
  obtain ⟨blanks, hblanks, -, rfl⟩ := of_skipBlanks hbs
  split at h
  · rename_i hminus
    obtain ⟨⟨number, after⟩, hnumber, haccept⟩ := of_bind_ok h
    split at haccept
    · rename_i hok
      cases haccept
      obtain ⟨i, rfl⟩ := int_of_acceptUnsigned hok
      exact ⟨blanks, b, body, i, hblanks, rfl, hok, .inl ⟨hminus, hnumber⟩⟩
    · cases haccept
  split at h
  · rename_i hdigit
    obtain ⟨⟨number, after⟩, hnumber, haccept⟩ := of_bind_ok h
    split at haccept
    · rename_i hok
      cases haccept
      obtain ⟨i, rfl⟩ := int_of_acceptUnsigned hok
      exact ⟨blanks, b, body, i, hblanks, rfl, hok, .inr ⟨hdigit, hnumber⟩⟩
    · cases haccept
  · exact (mistyped_ne_ok h).elim

/-- A whole number. -/
theorem readsScalars_unsigned (expected : String) (bits : Nat) :
    ReadsScalars (readUnsigned expected bits) := by
  refine ⟨fun h steps => ?_, fun h => ?_⟩
  · obtain ⟨blanks, b, body, i, hblanks, rfl, -, hnumber⟩ := parts_of_readUnsigned h
    rw [skipValueIn_blanks hblanks]
    rcases hnumber with ⟨rfl, hnumber⟩ | ⟨hdigit, hnumber⟩
    · exact skipNumber_of_read hnumber
    · rw [skipValueIn_digit hdigit]
      exact skipNumber_of_read hnumber
  · obtain ⟨blanks, b, body, i, hblanks, rfl, haccept, hnumber⟩ := parts_of_readUnsigned h
    rcases hnumber with ⟨rfl, hnumber⟩ | ⟨hdigit, hnumber⟩
    · obtain ⟨v, -, rfl, hv⟩ := of_readNumber_int hnumber
      refine ⟨blanks ++ Ascii.minus :: v, by simp, fun more hmore => ?_⟩
      rw [List.append_assoc, List.cons_append, readUnsigned, hblanks.skip_cons rfl]
      simp only [reduceIte, hv more hmore, bind, Except.bind, haccept]
    · obtain ⟨v, hne, hbody, hv⟩ := of_readNumber_int hnumber
      refine ⟨blanks ++ v, by rw [hbody, List.append_assoc], fun more hmore => ?_⟩
      obtain ⟨rfl, -⟩ | ⟨digits, rfl, -⟩ := List.cons_eq_append_iff.mp hbody
      · exact absurd rfl hne
      have hminus : b ≠ Ascii.minus := ne_of_isDigit hdigit rfl
      have hread := hv more hmore
      rw [List.cons_append] at hread
      rw [List.append_assoc, List.cons_append, readUnsigned,
        hblanks.skip_cons (isBlank_of_isDigit hdigit)]
      simp only [if_neg hminus, hdigit, reduceIte, hread, bind, Except.bind, haccept]

/-- Something is always taken. -/
theorem ReadsScalars.nil_ne_ok {reader : Reader α} (h : ReadsScalars reader) {a : α}
    {rest : Bytes} : reader [] ≠ .ok (a, rest) := by
  intro hread
  cases h.passes hread 0

/-- A value that may be `null`. -/
theorem ReadsScalars.optional {reader : Reader α} (h : ReadsScalars reader) :
    ReadsScalars (readOptional reader) := by
  have hparts {bs rest : Bytes} {a : Option α} (hread : readOptional reader bs = .ok (a, rest)) :
      ∃ blanks b body, Blanks blanks ∧ isBlank b = false ∧ bs = blanks ++ b :: body ∧
        (b = Ascii.letterN ∧ a = none ∧ readWord wordNull body = .ok rest ∨
          b ≠ Ascii.letterN ∧ ∃ a', a = some a' ∧ reader (b :: body) = .ok (a', rest)) := by
    unfold readOptional at hread
    split at hread
    · rename_i b body hbs
      obtain ⟨blanks, hblanks, hb, rfl⟩ := of_skipBlanks hbs
      split at hread
      · rename_i hnull
        obtain ⟨after, hword, ha⟩ := of_bind_ok hread
        cases ha
        exact ⟨blanks, b, body, hblanks, hb, rfl, .inl ⟨hnull, rfl, hword⟩⟩
      · rename_i hnull
        obtain ⟨⟨a', after⟩, ha', ha⟩ := of_bind_ok hread
        cases ha
        exact ⟨blanks, b, body, hblanks, hb, rfl, .inr ⟨hnull, a', rfl, ha'⟩⟩
    · obtain ⟨_, ha', -⟩ := of_bind_ok hread
      exact (h.nil_ne_ok ha').elim
  refine ⟨fun hread steps => ?_, fun hread => ?_⟩
  · obtain ⟨blanks, b, body, hblanks, hb, rfl, ⟨rfl, -, hword⟩ | ⟨-, a', -, ha'⟩⟩ := hparts hread
    · rw [skipValueIn_blanks hblanks]
      exact hword
    · rw [skipValueIn_blanks hblanks]
      exact h.passes ha' steps
  · obtain ⟨blanks, b, body, hblanks, hb, rfl, hvalue⟩ := hparts hread
    rcases hvalue with ⟨rfl, rfl, hword⟩ | ⟨hnull, a', rfl, ha'⟩
    · obtain rfl := readWord_iff.mp hword
      refine ⟨blanks ++ Ascii.letterN :: wordNull, by simp, fun more _ => ?_⟩
      rw [List.append_assoc, List.cons_append, readOptional, hblanks.skip_cons rfl]
      simp only [reduceIte, readWord_iff.mpr rfl, bind, Except.bind]
    · obtain ⟨v, hbody, hv⟩ := h.takes ha'
      obtain ⟨rfl, -⟩ | ⟨body', rfl, -⟩ := List.cons_eq_append_iff.mp hbody
      · exact (h.nil_ne_ok (hv [] endsNumber_nil)).elim
      refine ⟨blanks ++ b :: body', by rw [List.append_assoc, hbody], fun more hmore => ?_⟩
      rw [List.append_assoc, List.cons_append, readOptional, hblanks.skip_cons hb]
      have hread := hv more hmore
      rw [List.cons_append] at hread
      simp only [if_neg hnull, hread, bind, Except.bind]

/-- What is made of a value, without looking at the text again. -/
theorem ReadsScalars.made {β : Type} {reader : Reader α} {reader' : Reader β}
    (h : ReadsScalars reader)
    (hmade : ∀ {bs rest b}, reader' bs = .ok (b, rest) → ∃ a, reader bs = .ok (a, rest) ∧
      ∀ {bs' rest'}, reader bs' = .ok (a, rest') → reader' bs' = .ok (b, rest')) :
    ReadsScalars reader' := by
  refine ⟨fun hread steps => ?_, fun hread => ?_⟩
  · obtain ⟨a, hvalue, -⟩ := hmade hread
    exact h.passes hvalue steps
  · obtain ⟨a, hvalue, hagain⟩ := hmade hread
    obtain ⟨v, hbs, hv⟩ := h.takes hvalue
    exact ⟨v, hbs, fun more hmore => hagain (hv more hmore)⟩

/-- A value that is put into the draft. -/
theorem ReadsScalars.slot {reader : Reader α} (h : ReadsScalars reader) (name : String)
    (required : Bool) (set : σ → α → σ) (draft : σ) :
    ReadsScalars ((Slot.of name required reader set).read draft) := by
  refine h.made fun hread => ?_
  obtain ⟨⟨a, after⟩, hvalue, hset⟩ := of_bind_ok hread
  cases hset
  refine ⟨a, hvalue, fun hagain => ?_⟩
  simp only [Slot.of, hagain, bind, Except.bind]

/-- A value in front of something else is read as it would be on its own. -/
theorem ReadsScalars.append_iff {reader : Reader α} (h : ReadsScalars reader)
    {value blanks more rest : Bytes} {a : α} (hvalue : skipValue value = .ok blanks)
    (hends : EndsNumber (blanks ++ more)) :
    reader (value ++ more) = .ok (a, rest) ↔
      reader value = .ok (a, blanks) ∧ rest = blanks ++ more := by
  obtain ⟨v, -, rfl, hv⟩ := of_skipValue hvalue
  rw [List.append_assoc]
  constructor
  · intro hread
    -- what is passed over is the same part of the text
    have hrest : rest = blanks ++ more :=
      Except.ok.inj ((h.passes hread _).symm.trans (hv (blanks ++ more) hends))
    obtain ⟨w, hw, htakes⟩ := h.takes hread
    rw [hrest, List.append_cancel_right_eq] at hw
    subst hw
    have hblanks : EndsNumber blanks := by
      cases blanks with
      | nil => exact endsNumber_nil
      | cons b blanks => exact hends
    exact ⟨htakes blanks hblanks, hrest⟩
  · rintro ⟨hread, rfl⟩
    obtain ⟨w, hw, htakes⟩ := h.takes hread
    rw [List.append_cancel_right_eq] at hw
    subst hw
    exact htakes (blanks ++ more) hends

end PubSub.Json
