import Mathlib.Data.List.Basic
import PubSub.Proofs.Json.Lookahead

/-!
# How far a value goes

Where a value ends is decided by its own bytes: passed over on its own or in
front of something else, it goes equally far, and the bound on the reader's
steps is never in the way.  A value that is read goes as far as it would if it
were passed over, so whatever is a value for the one reader is one for the
other.

* `ValueLead` — what the first byte of a value tells both readers;
* `Extent`, `of_skipValueIn`, `of_skipValue` — a value that is passed over;
* `of_readValue` — a value that is read;
* `IsValue`, `isValue_of_parse` — the text of a value, with blanks around it.
-/

namespace PubSub.Json

/-- What the first byte of a value tells a reader that passes over it and one
that reads it. -/
inductive ValueLead (b : UInt8) : Prop
  | word (word : Bytes)
      (hskip : ∀ steps rest, skipValueIn (steps + 1) (b :: rest) = readWord word rest)
      (hread : ∀ {steps depth rest v after}, readValue (steps + 1) depth (b :: rest) =
        .ok (v, after) → readWord word rest = .ok after)
  | negative
      (hskip : ∀ steps rest, skipValueIn (steps + 1) (b :: rest) = skipNumber rest)
      (hread : ∀ {steps depth rest v after}, readValue (steps + 1) depth (b :: rest) =
        .ok (v, after) → ∃ n, readNumber true rest = .ok (n, after))
  | number
      (hskip : ∀ steps rest, skipValueIn (steps + 1) (b :: rest) = skipNumber (b :: rest))
      (hread : ∀ {steps depth rest v after}, readValue (steps + 1) depth (b :: rest) =
        .ok (v, after) → ∃ n, readNumber false (b :: rest) = .ok (n, after))
  | string
      (hskip : ∀ steps rest, skipValueIn (steps + 1) (b :: rest) = skipString rest)
      (hread : ∀ {steps depth rest v after}, readValue (steps + 1) depth (b :: rest) =
        .ok (v, after) → ∃ s, readString rest = .ok (s, after))
  | array
      (hskip : ∀ steps rest, skipValueIn (steps + 1) (b :: rest) = skipItems steps true rest)
      (hread : ∀ {steps depth rest v after}, readValue (steps + 1) depth (b :: rest) =
        .ok (v, after) → ∃ items, readItems steps (depth - 1) true rest = .ok (items, after))
  | object
      (hskip : ∀ steps rest, skipValueIn (steps + 1) (b :: rest) = skipMembers steps true rest)
      (hread : ∀ {steps depth rest v after}, readValue (steps + 1) depth (b :: rest) =
        .ok (v, after) → ∃ members, readMembers steps (depth - 1) true rest = .ok (members, after))
  | none
      (hskip : ∀ steps rest, skipValueIn (steps + 1) (b :: rest) =
        failOn .expectedValue (b :: rest))
      (hread : ∀ {steps depth rest}, readValue (steps + 1) depth (b :: rest) =
        failOn .expectedValue (b :: rest))

/-- A digit begins a number. -/
theorem skipValueIn_digit {b : UInt8} (hb : Ascii.isDigit b = true) (steps : Nat) (rest : Bytes) :
    skipValueIn (steps + 1) (b :: rest) = skipNumber (b :: rest) := by
  have hnull : b ≠ Ascii.letterN := ne_of_isDigit hb rfl
  have htrue : b ≠ Ascii.letterT := ne_of_isDigit hb rfl
  have hfalse : b ≠ Ascii.letterF := ne_of_isDigit hb rfl
  have hminus : b ≠ Ascii.minus := ne_of_isDigit hb rfl
  simp only [skipValueIn, skipBlanks_cons (isBlank_of_isDigit hb), if_neg hnull, if_neg htrue,
    if_neg hfalse, if_neg hminus, if_pos hb]

/-- Every byte that is no blank tells them something. -/
theorem valueLead {b : UInt8} (hb : isBlank b = false) : ValueLead b := by
  by_cases hnull : b = Ascii.letterN
  · subst hnull
    refine .word wordNull (fun _ _ => rfl) fun h => ?_
    obtain ⟨_, hword, hv⟩ := of_bind_ok h
    cases hv
    exact hword
  by_cases htrue : b = Ascii.letterT
  · subst htrue
    refine .word wordTrue (fun _ _ => rfl) fun h => ?_
    obtain ⟨_, hword, hv⟩ := of_bind_ok h
    cases hv
    exact hword
  by_cases hfalse : b = Ascii.letterF
  · subst hfalse
    refine .word wordFalse (fun _ _ => rfl) fun h => ?_
    obtain ⟨_, hword, hv⟩ := of_bind_ok h
    cases hv
    exact hword
  by_cases hminus : b = Ascii.minus
  · subst hminus
    refine .negative (fun _ _ => rfl) fun h => ?_
    obtain ⟨⟨n, _⟩, hnumber, hv⟩ := of_bind_ok h
    cases hv
    exact ⟨n, hnumber⟩
  by_cases hquote : b = Ascii.quote
  · subst hquote
    refine .string (fun _ _ => rfl) fun h => ?_
    obtain ⟨⟨s, _⟩, hstring, hv⟩ := of_bind_ok h
    cases hv
    exact ⟨s, hstring⟩
  by_cases hbracket : b = Ascii.openBracket
  · subst hbracket
    refine .array (fun _ _ => rfl) fun {_ depth _ _ _} h => ?_
    change (if depth = 0 then _ else _) = _ at h
    split at h
    · cases h
    obtain ⟨⟨items, _⟩, hitems, hv⟩ := of_bind_ok h
    cases hv
    exact ⟨items, hitems⟩
  by_cases hbrace : b = Ascii.openBrace
  · subst hbrace
    refine .object (fun _ _ => rfl) fun {_ depth _ _ _} h => ?_
    change (if depth = 0 then _ else _) = _ at h
    split at h
    · cases h
    obtain ⟨⟨members, _⟩, hmembers, hv⟩ := of_bind_ok h
    cases hv
    exact ⟨members, hmembers⟩
  by_cases hdigit : Ascii.isDigit b
  · refine .number (skipValueIn_digit hdigit) fun h => ?_
    simp only [readValue, skipBlanks_cons hb, if_neg hnull, if_neg htrue, if_neg hfalse,
      if_neg hminus, if_pos hdigit] at h
    obtain ⟨⟨n, _⟩, hnumber, hv⟩ := of_bind_ok h
    cases hv
    exact ⟨n, hnumber⟩
  · refine .none (fun steps rest => ?_) fun {steps depth rest} => ?_
    · simp only [skipValueIn, skipBlanks_cons hb, if_neg hnull, if_neg htrue, if_neg hfalse,
        if_neg hminus, if_neg hdigit, if_neg hquote, if_neg hbracket, if_neg hbrace]
    · simp only [readValue, skipBlanks_cons hb, if_neg hnull, if_neg htrue, if_neg hfalse,
        if_neg hminus, if_neg hdigit, if_neg hquote, if_neg hbracket, if_neg hbrace]

/-- Blanks in front of a value make no difference. -/
theorem skipValueIn_blanks {blanks : Bytes} (h : Blanks blanks) (steps : Nat) (bs : Bytes) :
    skipValueIn (steps + 1) (blanks ++ bs) = skipValueIn (steps + 1) bs := by
  rw [skipValueIn, skipValueIn, h.skip]

/-- The colon between a name and its value. -/
theorem readColon_iff {bs rest : Bytes} :
    readColon bs = .ok rest ↔ ∃ gap, Blanks gap ∧ bs = gap ++ Ascii.colon :: rest := by
  unfold readColon
  constructor
  · intro h
    split at h
    · cases h
    rename_i b after hbs
    split at h
    · rename_i hb
      cases h
      obtain ⟨gap, hgap, -, rfl⟩ := of_skipBlanks hbs
      exact ⟨gap, hgap, by rw [hb]⟩
    · cases h
  · rintro ⟨gap, hgap, rfl⟩
    rw [hgap.skip_cons rfl]
    exact if_pos rfl

/-- What is passed over is some part at the front, which is passed over
whatever follows.  It takes two steps for each of its bytes, but for `slack`
of them. -/
def Extent (skip : Nat → Bytes → Except Fault Bytes) (slack : Nat) (bs rest : Bytes) : Prop :=
  ∃ v, v ≠ [] ∧ bs = v ++ rest ∧
    ∀ steps, 2 * v.length ≤ steps + slack → Passes (skip (steps + 1)) v

/-- What does not go on with a number is known by its first byte. -/
theorem EndsNumber.front {v rest : Bytes} (h : EndsNumber (v ++ rest)) (hv : v ≠ [])
    (more : Bytes) : EndsNumber (v ++ more) := by
  cases v with
  | nil => exact absurd rfl hv
  | cons b v => exact h

/-- A bracket, a brace or a comma does not go on with a number. -/
theorem endsNumber_of_mark {b : UInt8}
    (h : b = Ascii.closeBracket ∨ b = Ascii.closeBrace ∨ b = Ascii.comma) (rest : Bytes) :
    EndsNumber (b :: rest) := by
  rintro _ ⟨⟩
  rcases h with rfl | rfl | rfl <;> decide

/-- A lexeme behind the first byte of a value. -/
theorem Extent.lexeme {b : UInt8} {bs rest : Bytes} {skip : Bytes → Except Fault Bytes}
    (hskip : ∀ steps rest, skipValueIn (steps + 1) (b :: rest) = skip rest)
    (h : ∃ v, bs = v ++ rest ∧ Passes skip v) : Extent skipValueIn 1 (b :: bs) rest := by
  obtain ⟨v, rfl, hv⟩ := h
  refine ⟨b :: v, List.cons_ne_nil _ _, rfl, fun steps _ more hmore => ?_⟩
  rw [List.cons_append, hskip, hv more hmore]

/-- Blanks in front of a value. -/
theorem Extent.behind {blanks bs rest : Bytes} (hblanks : Blanks blanks)
    (h : Extent skipValueIn 1 bs rest) : Extent skipValueIn 1 (blanks ++ bs) rest := by
  obtain ⟨v, hne, rfl, hv⟩ := h
  refine ⟨blanks ++ v, List.append_ne_nil_of_right_ne_nil _ hne, by rw [List.append_assoc],
    fun steps hsteps more hmore => ?_⟩
  rw [List.length_append] at hsteps
  rw [List.append_assoc, skipValueIn_blanks hblanks, hv steps (by omega) more hmore]

/-- What is behind some bytes at the cost of one step. -/
theorem Extent.inside {skip inner : Nat → Bytes → Except Fault Bytes} {slack : Nat}
    (lead : Bytes) {bs rest : Bytes} (hslack : 2 ≤ slack + 2 * lead.length)
    (hskip : ∀ steps body, body.head? = bs.head? →
      skip (steps + 2) (lead ++ body) = inner (steps + 1) body)
    (h : Extent inner slack bs rest) : Extent skip 1 (lead ++ bs) rest := by
  obtain ⟨v, hne, rfl, hv⟩ := h
  have hpos := List.length_pos_iff.mpr hne
  refine ⟨lead ++ v, List.append_ne_nil_of_right_ne_nil _ hne, by rw [List.append_assoc],
    fun steps hsteps more hmore => ?_⟩
  rw [List.length_append] at hsteps
  obtain ⟨steps, rfl⟩ : ∃ s, steps = s + 1 := ⟨steps - 1, by omega⟩
  rw [List.append_assoc, hskip steps, hv steps (by omega) more hmore]
  rw [List.head?_append_of_ne_nil _ hne, List.head?_append_of_ne_nil _ hne]

/-- What is behind the first byte of an array or an object. -/
theorem Extent.bracketed {inner : Nat → Bytes → Except Fault Bytes} {b : UInt8} {bs rest : Bytes}
    (hskip : ∀ steps rest, skipValueIn (steps + 1) (b :: rest) = inner steps rest)
    (h : Extent inner 1 bs rest) : Extent skipValueIn 1 (b :: bs) rest :=
  .inside [b] (Nat.le_add_left 2 1) (fun steps body _ => hskip (steps + 1) body) h

/-- A value behind some bytes, and what comes after it. -/
theorem Extent.cons {skip next : Nat → Bytes → Except Fault Bytes} {slack : Nat}
    {lead value after rest : Bytes} (hslack : slack ≤ 1 + 2 * lead.length)
    (hskip : ∀ steps body, body.head? = value.head? →
      skip (steps + 2) (lead ++ body) = skipValueIn (steps + 1) body >>= next (steps + 1))
    (hvalue : Extent skipValueIn 1 value after) (hnext : Extent next 1 after rest)
    (hends : EndsNumber after) : Extent skip slack (lead ++ value) rest := by
  obtain ⟨v, hne, rfl, hv⟩ := hvalue
  obtain ⟨w, hne', rfl, hw⟩ := hnext
  have hpos := List.length_pos_iff.mpr hne
  have hpos' := List.length_pos_iff.mpr hne'
  refine ⟨lead ++ (v ++ w), by simp [hne], by simp, fun steps hsteps more hmore => ?_⟩
  simp only [List.length_append] at hsteps
  obtain ⟨steps, rfl⟩ : ∃ s, steps = s + 1 := ⟨steps - 1, by omega⟩
  rw [List.append_assoc, List.append_assoc, hskip steps,
    hv steps (by omega) (w ++ more) (hends.front hne' more)]
  · exact hw steps (by omega) more hmore
  · rw [List.head?_append_of_ne_nil _ hne, List.head?_append_of_ne_nil _ hne]

/-- What may stand before an item or a member: blanks, and among them a comma
unless it is the first one. -/
inductive Leads : (first : Bool) → Bytes → Prop
  | first {blanks : Bytes} (h : Blanks blanks) : Leads true blanks
  | comma {before after : Bytes} (hbefore : Blanks before) (hafter : Blanks after) :
      Leads false (before ++ Ascii.comma :: after)

/-- A comma stands before every item that is not the first. -/
theorem leads_comma {first : Bool} (hfirst : ¬first = true) {before after : Bytes}
    (hbefore : Blanks before) (hafter : Blanks after) :
    Leads first (before ++ Ascii.comma :: after) := by
  rw [Bool.not_eq_true] at hfirst
  rw [hfirst]
  exact .comma hbefore hafter

/-- What stands before an item other than the first does not go on with a
number. -/
theorem Leads.endsNumber {lead : Bytes} (h : Leads false lead) (rest : Bytes) :
    EndsNumber (lead ++ rest) := by
  cases h with
  | comma hbefore hafter =>
      rw [List.append_assoc]
      exact hbefore.endsNumber (endsNumber_of_mark (.inr (.inr rfl)) _)

/-- To an item that is not the end of the array. -/
theorem Leads.skipItems {first : Bool} {lead : Bytes} (h : Leads first lead) {b : UInt8}
    (hb : isBlank b = false) (hclose : b ≠ Ascii.closeBracket) (steps : Nat) (rest : Bytes) :
    skipItems (steps + 2) first (lead ++ b :: rest) =
      skipValueIn (steps + 1) (b :: rest) >>= skipItems (steps + 1) false := by
  cases h with
  | first hblanks =>
      rw [Json.skipItems, hblanks.skip_cons hb]
      simp only [if_neg hclose, reduceIte]
  | comma hbefore hafter =>
      rw [List.append_assoc, List.cons_append, Json.skipItems, hbefore.skip_cons rfl]
      exact congrArg (· >>= _) (skipValueIn_blanks hafter steps _)

/-- To a member. -/
theorem Leads.skipMembers {first : Bool} {lead : Bytes} (h : Leads first lead) (steps : Nat)
    (rest : Bytes) :
    skipMembers (steps + 2) first (lead ++ Ascii.quote :: rest) =
      skipMember (steps + 1) (Ascii.quote :: rest) := by
  cases h with
  | first hblanks =>
      rw [Json.skipMembers, hblanks.skip_cons rfl]
      rfl
  | comma hbefore hafter =>
      rw [List.append_assoc, List.cons_append, Json.skipMembers, hbefore.skip_cons rfl]
      change skipMember (steps + 1) _ = _
      rw [skipMember, hafter.skip_cons rfl, skipMember, skipBlanks_cons rfl]

/-- The end of an array. -/
theorem extent_closeBracket {blanks : Bytes} (h : Blanks blanks) (first : Bool) (rest : Bytes) :
    Extent (fun steps => skipItems steps first) 1 (blanks ++ Ascii.closeBracket :: rest) rest := by
  refine ⟨blanks ++ [Ascii.closeBracket], by simp, by simp, fun steps _ more _ => ?_⟩
  dsimp only
  rw [List.append_assoc, List.singleton_append, skipItems, h.skip_cons rfl]
  rfl

/-- The end of an object. -/
theorem extent_closeBrace {blanks : Bytes} (h : Blanks blanks) (first : Bool) (rest : Bytes) :
    Extent (fun steps => skipMembers steps first) 1 (blanks ++ Ascii.closeBrace :: rest) rest := by
  refine ⟨blanks ++ [Ascii.closeBrace], by simp, by simp, fun steps _ more _ => ?_⟩
  dsimp only
  rw [List.append_assoc, List.singleton_append, skipMembers, h.skip_cons rfl]
  rfl

/-- An item and those behind it. -/
theorem extent_item {first : Bool} {lead : Bytes} (hlead : Leads first lead) {b : UInt8}
    (hb : isBlank b = false) (hclose : b ≠ Ascii.closeBracket) {body after rest : Bytes}
    (hvalue : Extent skipValueIn 1 (b :: body) after)
    (hitems : Extent (fun steps => skipItems steps false) 1 after rest) (hends : EndsNumber after) :
    Extent (fun steps => skipItems steps first) 1 (lead ++ b :: body) rest := by
  refine .cons (by omega) (fun steps value hhead => ?_) hvalue hitems hends
  obtain ⟨more, rfl⟩ := List.head?_eq_some_iff.mp hhead
  exact hlead.skipItems hb hclose steps more

/-- A member and those behind it. -/
theorem extent_member {first : Bool} {lead : Bytes} (hlead : Leads first lead)
    {name gap value after rest : Bytes} (hname : ∀ more, skipString (name ++ more) = .ok more)
    (hgap : Blanks gap) (hvalue : Extent skipValueIn 1 value after)
    (hmembers : Extent (fun steps => skipMembers steps false) 1 after rest)
    (hends : EndsNumber after) :
    Extent (fun steps => skipMembers steps first) 1
      (lead ++ Ascii.quote :: (name ++ (gap ++ Ascii.colon :: value))) rest := by
  have hmember : Extent skipMember 2 (Ascii.quote :: (name ++ (gap ++ [Ascii.colon])) ++ value)
      rest := by
    refine .cons (by simp only [List.length_cons]; omega) (fun steps body _ => ?_) hvalue hmembers
      hends
    rw [List.cons_append, skipMember, skipBlanks_cons rfl]
    simp only [reduceIte, List.append_assoc, hname, List.singleton_append, bind, Except.bind,
      readColon_iff.mpr ⟨gap, hgap, rfl⟩]
  have hbytes : Ascii.quote :: (name ++ (gap ++ [Ascii.colon])) ++ value =
      Ascii.quote :: (name ++ (gap ++ Ascii.colon :: value)) := by simp
  rw [hbytes] at hmember
  refine .inside lead (Nat.le_add_right 2 _) (fun steps body hhead => ?_) hmember
  obtain ⟨more, rfl⟩ := List.head?_eq_some_iff.mp hhead
  exact hlead.skipMembers steps more

/-- What was passed over in an array: its end, or an item and those behind it. -/
theorem of_skipItems {steps : Nat} {first : Bool} {bs rest : Bytes}
    (h : skipItems (steps + 1) first bs = .ok rest) :
    (∃ blanks, Blanks blanks ∧ bs = blanks ++ Ascii.closeBracket :: rest) ∨
      ∃ lead b body after, Leads first lead ∧ isBlank b = false ∧ b ≠ Ascii.closeBracket ∧
        bs = lead ++ b :: body ∧ skipValueIn steps (b :: body) = .ok after ∧
        skipItems steps false after = .ok rest := by
  rw [skipItems] at h
  split at h
  · cases h
  rename_i b body hbs
  obtain ⟨blanks, hblanks, hb, rfl⟩ := of_skipBlanks hbs
  split at h
  · rename_i hclose
    cases h
    exact .inl ⟨blanks, hblanks, by rw [hclose]⟩
  rename_i hclose
  split at h
  · rename_i hfirst
    obtain ⟨after, hvalue, hitems⟩ := of_bind_ok h
    exact .inr ⟨blanks, b, body, after, by rw [hfirst]; exact .first hblanks, hb, hclose, rfl,
      hvalue, hitems⟩
  split at h
  · rename_i hfirst hcomma
    obtain ⟨after, hvalue, hitems⟩ := of_bind_ok h
    cases steps with
    | zero => cases hvalue
    | succ steps =>
        -- the value begins behind the blanks that follow the comma
        have hread := hvalue
        rw [skipValueIn] at hread
        split at hread
        · cases hread
        rename_i c value hvalueAt
        obtain ⟨blanks', hblanks', hc, rfl⟩ := of_skipBlanks hvalueAt
        rw [skipValueIn_blanks hblanks'] at hvalue
        refine .inr ⟨blanks ++ Ascii.comma :: blanks', c, value, after,
          leads_comma hfirst hblanks hblanks', hc, ?_, ?_, hvalue, hitems⟩
        · rintro rfl
          cases hvalue
        · rw [hcomma, List.append_assoc, List.cons_append]
  · cases h

/-- Items after the first begin with a comma or a bracket. -/
theorem endsNumber_of_skipItems {steps : Nat} {bs rest : Bytes}
    (h : skipItems steps false bs = .ok rest) : EndsNumber bs := by
  cases steps with
  | zero => cases h
  | succ steps =>
      rcases of_skipItems h with ⟨blanks, hblanks, rfl⟩ | ⟨lead, b, body, _, hlead, -, -, rfl, -⟩
      · exact hblanks.endsNumber (endsNumber_of_mark (.inl rfl) rest)
      · exact hlead.endsNumber (b :: body)

/-- A member begins with its name. -/
theorem of_skipMember_lead {steps : Nat} {bs rest : Bytes} (h : skipMember steps bs = .ok rest) :
    ∃ blanks body, Blanks blanks ∧ bs = blanks ++ Ascii.quote :: body ∧
      skipMember steps (Ascii.quote :: body) = .ok rest := by
  cases steps with
  | zero => cases h
  | succ steps =>
      have hread := h
      rw [skipMember] at hread
      split at hread
      · cases hread
      rename_i b body hbs
      obtain ⟨blanks, hblanks, hb, rfl⟩ := of_skipBlanks hbs
      split at hread
      · rename_i hquote
        rw [skipMember, hblanks.skip_cons hb, hquote] at h
        exact ⟨blanks, body, hblanks, by rw [hquote], h⟩
      · cases hread

/-- What was passed over in an object: its end, or a member and those behind
it. -/
theorem of_skipMembers {steps : Nat} {first : Bool} {bs rest : Bytes}
    (h : skipMembers (steps + 1) first bs = .ok rest) :
    (∃ blanks, Blanks blanks ∧ bs = blanks ++ Ascii.closeBrace :: rest) ∨
      ∃ lead body, Leads first lead ∧ bs = lead ++ Ascii.quote :: body ∧
        skipMember steps (Ascii.quote :: body) = .ok rest := by
  rw [skipMembers] at h
  split at h
  · cases h
  rename_i b body hbs
  obtain ⟨blanks, hblanks, hb, rfl⟩ := of_skipBlanks hbs
  split at h
  · rename_i hclose
    cases h
    exact .inl ⟨blanks, hblanks, by rw [hclose]⟩
  split at h
  · rename_i hfirst
    obtain ⟨blanks', body', hblanks', hbody, hmember⟩ := of_skipMember_lead h
    refine .inr ⟨blanks ++ blanks', body', ?_, by rw [hbody, List.append_assoc], hmember⟩
    rw [hfirst]
    exact .first (hblanks.append hblanks')
  split at h
  · rename_i hfirst hcomma
    obtain ⟨blanks', body', hblanks', hbody, hmember⟩ := of_skipMember_lead h
    refine .inr ⟨blanks ++ Ascii.comma :: blanks', body', leads_comma hfirst hblanks hblanks', ?_,
      hmember⟩
    rw [hcomma, hbody, List.append_assoc, List.cons_append]
  · cases h

/-- Members after the first begin with a comma or a brace. -/
theorem endsNumber_of_skipMembers {steps : Nat} {bs rest : Bytes}
    (h : skipMembers steps false bs = .ok rest) : EndsNumber bs := by
  cases steps with
  | zero => cases h
  | succ steps =>
      rcases of_skipMembers h with ⟨blanks, hblanks, rfl⟩ | ⟨lead, body, hlead, rfl, -⟩
      · exact hblanks.endsNumber (endsNumber_of_mark (.inr (.inl rfl)) rest)
      · exact hlead.endsNumber (Ascii.quote :: body)

/-- What was passed over of a member. -/
theorem of_skipMember {steps : Nat} {body rest : Bytes}
    (h : skipMember (steps + 1) (Ascii.quote :: body) = .ok rest) :
    ∃ name gap value after, (∀ more, skipString (name ++ more) = .ok more) ∧ Blanks gap ∧
      body = name ++ (gap ++ Ascii.colon :: value) ∧ skipValueIn steps value = .ok after ∧
      skipMembers steps false after = .ok rest := by
  rw [skipMember, skipBlanks_cons rfl] at h
  obtain ⟨afterName, hname, h⟩ := of_bind_ok h
  obtain ⟨afterColon, hcolon, h⟩ := of_bind_ok h
  obtain ⟨after, hvalue, hmembers⟩ := of_bind_ok h
  obtain ⟨name, -, rfl, hpass⟩ := of_skipStringFrom hname
  obtain ⟨gap, hgap, rfl⟩ := readColon_iff.mp hcolon
  exact ⟨name, gap, afterColon, after, hpass, hgap, rfl, hvalue, hmembers⟩

mutual

/-- **A value that is passed over** ends where it ends. -/
theorem of_skipValueIn : ∀ {steps : Nat} {bs rest : Bytes}, skipValueIn steps bs = .ok rest →
    Extent skipValueIn 1 bs rest
  | 0, _, _, h => by cases h
  | steps + 1, bs, rest, h => by
      cases hbs : skipBlanks bs with
      | nil =>
          rw [skipValueIn, hbs] at h
          cases h
      | cons b body =>
          obtain ⟨blanks, hblanks, hb, rfl⟩ := of_skipBlanks hbs
          rw [skipValueIn_blanks hblanks] at h
          refine .behind hblanks ?_
          cases valueLead hb with
          | word word hskip hread =>
              rw [hskip] at h
              exact .lexeme hskip ⟨word, readWord_iff.mp h, fun _ _ => readWord_iff.mpr rfl⟩
          | negative hskip hread =>
              rw [hskip] at h
              obtain ⟨v, -, hv⟩ := of_skipNumber h
              exact .lexeme hskip ⟨v, hv⟩
          | number hskip hread =>
              rw [hskip] at h
              obtain ⟨v, hne, hbody, hv⟩ := of_skipNumber h
              refine ⟨v, hne, hbody, fun steps _ more hmore => ?_⟩
              obtain ⟨rfl, -⟩ | ⟨digits, rfl, -⟩ := List.cons_eq_append_iff.mp hbody
              · exact absurd rfl hne
              · exact (hskip steps _).trans (hv more hmore)
          | string hskip hread =>
              rw [hskip] at h
              obtain ⟨v, -, hbody, hv⟩ := of_skipStringFrom h
              exact .lexeme hskip ⟨v, hbody, fun more _ => hv more⟩
          | array hskip hread =>
              rw [hskip] at h
              exact .bracketed hskip (of_skipItems_extent h)
          | object hskip hread =>
              rw [hskip] at h
              exact .bracketed hskip (of_skipMembers_extent h)
          | none hskip hread =>
              rw [hskip] at h
              cases h

/-- The same for the items of an array. -/
theorem of_skipItems_extent : ∀ {steps : Nat} {first : Bool} {bs rest : Bytes},
    skipItems steps first bs = .ok rest → Extent (fun steps => skipItems steps first) 1 bs rest
  | 0, _, _, _, h => by cases h
  | steps + 1, first, bs, rest, h => by
      rcases of_skipItems h with ⟨blanks, hblanks, rfl⟩ |
        ⟨lead, b, body, after, hlead, hb, hclose, rfl, hvalue, hitems⟩
      · exact extent_closeBracket hblanks first rest
      · exact extent_item hlead hb hclose (of_skipValueIn hvalue) (of_skipItems_extent hitems)
          (endsNumber_of_skipItems hitems)

/-- The same for the members of an object. -/
theorem of_skipMembers_extent : ∀ {steps : Nat} {first : Bool} {bs rest : Bytes},
    skipMembers steps first bs = .ok rest → Extent (fun steps => skipMembers steps first) 1 bs rest
  | 0, _, _, _, h => by cases h
  | 1, first, bs, rest, h => by
      rcases of_skipMembers h with ⟨blanks, hblanks, rfl⟩ | ⟨_, _, -, -, hmember⟩
      · exact extent_closeBrace hblanks first rest
      · cases hmember
  | steps + 2, first, bs, rest, h => by
      rcases of_skipMembers h with ⟨blanks, hblanks, rfl⟩ | ⟨lead, body, hlead, rfl, hmember⟩
      · exact extent_closeBrace hblanks first rest
      · obtain ⟨name, gap, value, after, hname, hgap, rfl, hvalue, hmembers⟩ := of_skipMember hmember
        exact extent_member hlead hname hgap (of_skipValueIn hvalue) (of_skipMembers_extent hmembers)
          (endsNumber_of_skipMembers hmembers)

end

/-- What is passed over on its own is passed over in front of something else. -/
theorem of_skipValue {bs rest : Bytes} (h : skipValue bs = .ok rest) :
    ∃ v, v ≠ [] ∧ bs = v ++ rest ∧ Passes skipValue v := by
  obtain ⟨v, hne, rfl, hv⟩ := of_skipValueIn h
  refine ⟨v, hne, rfl, fun more hmore => ?_⟩
  exact hv _ (by rw [List.length_append]; omega) more hmore

/-- What was found by a reader that goes from item to item. -/
theorem of_nextItem {first more : Bool} {bs place : Bytes}
    (h : nextItem first bs = .ok (place, more)) :
    (more = false ∧ ∃ blanks rest, Blanks blanks ∧ place = Ascii.closeBracket :: rest ∧
        bs = blanks ++ place) ∨
      more = true ∧ ∃ lead b body, Leads first lead ∧ isBlank b = false ∧
        b ≠ Ascii.closeBracket ∧ place = b :: body ∧ bs = lead ++ place := by
  unfold nextItem at h
  split at h
  · cases h
  rename_i b body hbs
  obtain ⟨blanks, hblanks, hb, rfl⟩ := of_skipBlanks hbs
  split at h
  · rename_i hclose
    cases h
    exact .inl ⟨rfl, blanks, body, hblanks, by rw [hclose], rfl⟩
  rename_i hclose
  split at h
  · rename_i hfirst
    cases h
    exact .inr ⟨rfl, blanks, b, body, by rw [hfirst]; exact .first hblanks, hb, hclose, rfl, rfl⟩
  rename_i hfirst
  split at h
  · rename_i hcomma
    split at h
    · cases h
    rename_i c body' hbody
    obtain ⟨blanks', hblanks', hc, rfl⟩ := of_skipBlanks hbody
    split at h
    · cases h
    · rename_i hclose'
      cases h
      refine .inr ⟨rfl, blanks ++ Ascii.comma :: blanks', c, body',
        leads_comma hfirst hblanks hblanks', hc, hclose', rfl, ?_⟩
      rw [hcomma, List.append_assoc, List.cons_append]
  · cases h

/-- What was found by a reader that goes from name to name. -/
theorem of_nextName {first more : Bool} {bs place : Bytes}
    (h : nextName first bs = .ok (place, more)) :
    (more = false ∧ ∃ blanks rest, Blanks blanks ∧ place = Ascii.closeBrace :: rest ∧
        bs = blanks ++ place) ∨
      more = true ∧ ∃ lead body, Leads first lead ∧ place = Ascii.quote :: body ∧
        bs = lead ++ place := by
  unfold nextName at h
  split at h
  · cases h
  rename_i b body hbs
  obtain ⟨blanks, hblanks, hb, rfl⟩ := of_skipBlanks hbs
  split at h
  · rename_i hclose
    cases h
    exact .inl ⟨rfl, blanks, body, hblanks, by rw [hclose], rfl⟩
  split at h
  · rename_i hfirst
    split at h
    · rename_i hquote
      cases h
      exact .inr ⟨rfl, blanks, body, by rw [hfirst]; exact .first hblanks, by rw [hquote], rfl⟩
    · cases h
  rename_i hfirst
  split at h
  · rename_i hcomma
    split at h
    · cases h
    rename_i c body' hbody
    obtain ⟨blanks', hblanks', hc, rfl⟩ := of_skipBlanks hbody
    split at h
    · rename_i hquote
      cases h
      refine .inr ⟨rfl, blanks ++ Ascii.comma :: blanks', body',
        leads_comma hfirst hblanks hblanks', by rw [hquote], ?_⟩
      rw [hcomma, List.append_assoc, List.cons_append]
    split at h
    · cases h
    · cases h
  · cases h

/-- Items after the first that are read begin with a comma or a bracket. -/
theorem endsNumber_of_readItems {steps depth : Nat} {bs rest : Bytes} {items : List Json}
    (h : readItems steps depth false bs = .ok (items, rest)) : EndsNumber bs := by
  cases steps with
  | zero => cases h
  | succ steps =>
      rw [readItems] at h
      obtain ⟨⟨place, more⟩, hnext, -⟩ := of_bind_ok h
      rcases of_nextItem hnext with ⟨-, blanks, after, hblanks, rfl, hbs⟩ |
        ⟨-, lead, _, _, hlead, -, -, -, hbs⟩
      · rw [hbs]
        exact hblanks.endsNumber (endsNumber_of_mark (.inl rfl) after)
      · rw [hbs]
        exact hlead.endsNumber place

/-- Members after the first do not go on with a number. -/
theorem endsNumber_of_nextName {bs place : Bytes} {more : Bool}
    (h : nextName false bs = .ok (place, more)) : EndsNumber bs := by
  rcases of_nextName h with ⟨-, blanks, rest, hblanks, rfl, hbs⟩ | ⟨-, lead, _, hlead, -, hbs⟩
  · rw [hbs]
    exact hblanks.endsNumber (endsNumber_of_mark (.inr (.inl rfl)) rest)
  · rw [hbs]
    exact hlead.endsNumber place

/-- Nor do those that are read. -/
theorem endsNumber_of_readMembers {steps depth : Nat} {bs rest : Bytes}
    {members : List (String × Json)} (h : readMembers steps depth false bs = .ok (members, rest)) :
    EndsNumber bs := by
  cases steps with
  | zero => cases h
  | succ steps =>
      rw [readMembers] at h
      obtain ⟨⟨place, more⟩, hnext, -⟩ := of_bind_ok h
      exact endsNumber_of_nextName hnext

mutual

/-- **A value that is read** ends where it would if it were passed over. -/
theorem of_readValue : ∀ {steps depth : Nat} {bs rest : Bytes} {v : Json},
    readValue steps depth bs = .ok (v, rest) → Extent skipValueIn 1 bs rest
  | 0, _, _, _, _, h => by cases h
  | steps + 1, depth, bs, rest, v, h => by
      cases hbs : skipBlanks bs with
      | nil =>
          rw [readValue, hbs] at h
          cases h
      | cons b body =>
          obtain ⟨blanks, hblanks, hb, rfl⟩ := of_skipBlanks hbs
          have hvalue : readValue (steps + 1) depth (b :: body) = .ok (v, rest) := by
            rw [readValue, hbs] at h
            rw [readValue, skipBlanks_cons hb]
            exact h
          refine .behind hblanks ?_
          cases valueLead hb with
          | word word hskip hread => exact of_skipValueIn ((hskip steps body).trans (hread hvalue))
          | negative hskip hread =>
              obtain ⟨n, hnumber⟩ := hread hvalue
              exact of_skipValueIn ((hskip steps body).trans (skipNumber_of_read hnumber))
          | number hskip hread =>
              obtain ⟨n, hnumber⟩ := hread hvalue
              exact of_skipValueIn ((hskip steps body).trans (skipNumber_of_read hnumber))
          | string hskip hread =>
              obtain ⟨s, hstring⟩ := hread hvalue
              exact of_skipValueIn ((hskip steps body).trans (of_readString hstring).1)
          | array hskip hread =>
              obtain ⟨items, hitems⟩ := hread hvalue
              exact .bracketed hskip (of_readItems hitems)
          | object hskip hread =>
              obtain ⟨members, hmembers⟩ := hread hvalue
              exact .bracketed hskip (of_readMembers hmembers)
          | none hskip hread =>
              rw [hread] at hvalue
              cases hvalue

/-- The same for the items of an array. -/
theorem of_readItems : ∀ {steps depth : Nat} {first : Bool} {bs rest : Bytes} {items : List Json},
    readItems steps depth first bs = .ok (items, rest) →
      Extent (fun steps => skipItems steps first) 1 bs rest
  | 0, _, _, _, _, _, h => by cases h
  | steps + 1, depth, first, bs, rest, items, h => by
      rw [readItems] at h
      obtain ⟨⟨place, more⟩, hnext, hread⟩ := of_bind_ok h
      clear h
      rcases of_nextItem hnext with ⟨rfl, blanks, after, hblanks, rfl, rfl⟩ |
        ⟨rfl, lead, b, body, hlead, hb, hclose, rfl, rfl⟩
      · cases hread
        exact extent_closeBracket hblanks first _
      · obtain ⟨⟨v, after⟩, hvalue, hread⟩ := of_bind_ok hread
        obtain ⟨⟨items, _⟩, hitems, hread⟩ := of_bind_ok hread
        cases hread
        exact extent_item hlead hb hclose (of_readValue hvalue) (of_readItems hitems)
          (endsNumber_of_readItems hitems)

/-- The same for the members of an object. -/
theorem of_readMembers : ∀ {steps depth : Nat} {first : Bool} {bs rest : Bytes}
    {members : List (String × Json)}, readMembers steps depth first bs = .ok (members, rest) →
      Extent (fun steps => skipMembers steps first) 1 bs rest
  | 0, _, _, _, _, _, h => by cases h
  | steps + 1, depth, first, bs, rest, members, h => by
      rw [readMembers] at h
      obtain ⟨⟨place, more⟩, hnext, hread⟩ := of_bind_ok h
      clear h
      rcases of_nextName hnext with ⟨rfl, blanks, after, hblanks, rfl, rfl⟩ |
        ⟨rfl, lead, body, hlead, rfl, rfl⟩
      · cases hread
        exact extent_closeBrace hblanks first _
      · obtain ⟨⟨name, afterName⟩, hname, hread⟩ := of_bind_ok hread
        obtain ⟨value, hcolon, hread⟩ := of_bind_ok hread
        obtain ⟨⟨v, after⟩, hvalue, hread⟩ := of_bind_ok hread
        obtain ⟨⟨members, _⟩, hmembers, hread⟩ := of_bind_ok hread
        cases hread
        obtain ⟨quoted, -, hbody, hskip⟩ := of_skipStringFrom (of_readString hname).1
        obtain ⟨gap, hgap, rfl⟩ := readColon_iff.mp hcolon
        rw [List.drop_one, List.tail_cons] at hbody
        rw [hbody]
        exact extent_member hlead hskip hgap (of_readValue hvalue) (of_readMembers hmembers)
          (endsNumber_of_readMembers hmembers)

end

/-- The text of one value, with or without blanks around it. -/
def IsValue (bs : Bytes) : Prop := ∃ rest, skipValue bs = .ok rest ∧ Blanks rest

/-- **Every text that is read is the text of a value**, whatever its depth and
its numbers. -/
theorem isValue_of_parse {bs : Bytes} {v : Json} (h : parse bs = .ok v) : IsValue bs := by
  obtain ⟨rest, hread, hrest⟩ := readAll_ok_iff.mp h
  obtain ⟨value, -, rfl, hvalue⟩ := of_readValue hread
  have hblanks := skipBlanks_eq_nil.mp hrest
  refine ⟨rest, ?_, hblanks⟩
  have hsteps : 2 * value.length ≤ 2 * (value ++ rest).length + 1 + 1 := by
    rw [List.length_append]
    omega
  exact hvalue _ hsteps rest hblanks.ends

end PubSub.Json
