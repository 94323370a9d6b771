import Mathlib.Data.List.Forall2
import PubSub.Json.Record
import PubSub.Proofs.Json.RoundTrip
import PubSub.Proofs.Outcome

/-!
# Reading records

A record that was written as an object is read back member by member: each
slot takes its own value from the front of the text and leaves the rest.  And
two shapes with the same slots, whose readers go through the same text in the
same places, read the same texts; what relates their drafts at every slot
relates them in the end.

* `Reads` — a reader takes a written value from the front of any text;
* `Fills`, `recordOfText_write` — the members of an object fill a draft;
* `Slot.Matches`, `recordOfText_matches` — two shapes side by side;
* `recordOfText_keeps` — what every slot keeps.
-/

namespace PubSub

namespace Json

open Utf8 (encode)

variable {σ τ α : Type}

/-- The reader takes a written value from the front of a text.  The text goes
on with something that does not go on with a number. -/
def Reads (reader : Reader α) (v : Json) (a : α) : Prop :=
  ∀ rest, EndsNumber rest → reader (encode v.write ++ rest) = .ok (a, rest)

/-- A string that is accepted. -/
theorem reads_textAs {expected : String} {accept : String → Except Mismatch α} {s : String} {a : α}
    (h : accept s = .ok a) : Reads (readTextAs expected accept) (.str s) a := by
  intro rest _
  obtain ⟨body, hbody, hread⟩ := readString_writeString s rest
  rw [write, hbody, readTextAs, skipBlanks_cons rfl]
  simp only [if_true, hread, bind, Except.bind, h]

/-- A string. -/
theorem reads_text (s : String) : Reads readText (.str s) s :=
  reads_textAs rfl

/-- A whole number begins with a digit. -/
theorem write_ofNat_lead (n : Nat) :
    ∃ b more, encode (write (.int n)) = b :: more ∧ Ascii.isDigit b = true := by
  obtain ⟨hall, ⟨b, more, hlead, -⟩, -⟩ := digitBytes_writes n
  exact ⟨b, more, hlead, hall b (by rw [hlead]; exact List.mem_cons_self)⟩

/-- A whole number that fits. -/
theorem reads_unsigned (expected : String) {bits n : Nat} (hbits : bits ≤ 64)
    (h : n < 2 ^ bits) : Reads (readUnsigned expected bits) (.int n) n := by
  intro rest hrest
  have hfit : n < 2 ^ 64 := Nat.lt_of_lt_of_le h (Nat.pow_le_pow_right (by omega) hbits)
  have hread : readNumber false (encode (write (.int n)) ++ rest) = .ok (.int n, rest) :=
    readNumber_digits false hfit hrest
  obtain ⟨b, more, hlead, hdigit⟩ := write_ofNat_lead n
  have hminus : b ≠ Ascii.minus := ne_of_isDigit hdigit rfl
  have haccept : acceptUnsigned expected bits (.int n) = .ok n := if_pos h
  rw [hlead, List.cons_append] at hread ⊢
  rw [readUnsigned, skipBlanks_cons (isBlank_of_isDigit hdigit)]
  simp only [if_neg hminus, hdigit, if_true, hread, bind, Except.bind, haccept]

/-- A value that cannot be taken for `null` is read as it is. -/
theorem Reads.optional {reader : Reader α} {v : Json} {a : α} (h : Reads reader v a)
    (hlead : ∃ b more, encode v.write = b :: more ∧ isBlank b = false ∧ b ≠ Ascii.letterN) :
    Reads (readOptional reader) v (some a) := by
  intro rest hrest
  obtain ⟨b, more, hv, hblank, hnull⟩ := hlead
  have hread := h rest hrest
  rw [hv, List.cons_append] at hread ⊢
  rw [readOptional, skipBlanks_cons hblank]
  simp only [if_neg hnull, hread, bind, Except.bind]

/-- An optional string that is there. -/
theorem reads_optional_text (s : String) : Reads (readOptional readText) (.str s) (some s) :=
  (reads_text s).optional ⟨_, _, rfl, rfl, by decide⟩

/-- An optional number that is there. -/
theorem reads_optional_unsigned (expected : String) {bits n : Nat} (hbits : bits ≤ 64)
    (h : n < 2 ^ bits) : Reads (readOptional (readUnsigned expected bits)) (.int n) (some n) := by
  obtain ⟨b, more, hlead, hdigit⟩ := write_ofNat_lead n
  exact (reads_unsigned expected hbits h).optional
    ⟨b, more, hlead, isBlank_of_isDigit hdigit, ne_of_isDigit hdigit rfl⟩

/-- A value of another type is never accepted. -/
theorem mistyped_ne_ok {expected : String} {bs : Bytes} {a : α} : mistyped expected bs ≠ .ok a := by
  have hword {word rest : Bytes} {found : Found} :
      (do mismatchBefore (.wrongType found expected) (← readWord word rest)) ≠ Except.ok a := by
    intro h
    obtain ⟨_, -, hrefused⟩ := of_bind_ok h
    cases hrefused
  intro h
  unfold mistyped at h
  split at h
  · cases h
  dsimp only at h
  split at h
  · exact hword h
  split at h
  · exact hword h
  split at h
  · exact hword h
  split at h
  · obtain ⟨_, -, hrefused⟩ := of_bind_ok h
    cases hrefused
  split at h
  · obtain ⟨_, -, hrefused⟩ := of_bind_ok h
    cases hrefused
  split at h
  · obtain ⟨_, -, hrefused⟩ := of_bind_ok h
    cases hrefused
  split at h
  · cases h
  split at h
  · cases h
  · cases h

/-- A text that was read was accepted. -/
theorem of_readTextAs {expected : String} {accept : String → Except Mismatch α} {bs rest : Bytes}
    {a : α} (h : readTextAs expected accept bs = .ok (a, rest)) : ∃ s, accept s = .ok a := by
  unfold readTextAs at h
  split at h
  · cases h
  split at h
  · obtain ⟨⟨s, after⟩, -, haccept⟩ := of_bind_ok h
    dsimp only at haccept
    split at haccept
    · rename_i hs
      cases haccept
      exact ⟨s, hs⟩
    · cases haccept
  · exact (mistyped_ne_ok h).elim

/-- A number is accepted if it fits. -/
theorem of_acceptUnsigned {expected : String} {bits n : Nat} {number : Number}
    (h : acceptUnsigned expected bits number = .ok n) : n < 2 ^ bits := by
  unfold acceptUnsigned at h
  split at h
  · split at h
    · rename_i hfit
      cases h
      exact hfit
    · cases h
  · cases h
  · cases h

/-- A whole number that was read fits. -/
theorem of_readUnsigned {expected : String} {bits n : Nat} {bs rest : Bytes}
    (h : readUnsigned expected bits bs = .ok (n, rest)) : n < 2 ^ bits := by
  unfold readUnsigned at h
  dsimp only at h
  split at h
  · cases h
  split at h
  · obtain ⟨_, -, h⟩ := of_bind_ok h
    split at h
    · rename_i haccept
      cases h
      exact of_acceptUnsigned haccept
    · cases h
  split at h
  · obtain ⟨_, -, h⟩ := of_bind_ok h
    split at h
    · rename_i haccept
      cases h
      exact of_acceptUnsigned haccept
    · cases h
  · exact (mistyped_ne_ok h).elim

/-- An optional value that is there was read as a value. -/
theorem of_readOptional {reader : Reader α} {bs rest : Bytes} {a : α}
    (h : readOptional reader bs = .ok (some a, rest)) : ∃ bs', reader bs' = .ok (a, rest) := by
  unfold readOptional at h
  split at h
  · split at h
    · obtain ⟨_, -, hnone⟩ := of_bind_ok h
      cases hnone
    · obtain ⟨⟨a', after⟩, hread, hsome⟩ := of_bind_ok h
      cases hsome
      exact ⟨_, hread⟩
  · obtain ⟨⟨a', after⟩, hread, hsome⟩ := of_bind_ok h
    cases hsome
    exact ⟨_, hread⟩

/-- The members, one after another, bring one draft to another: each has a
slot, which reads it. -/
inductive Fills (shape : Shape σ) : σ → List (String × Json) → σ → Prop
  | nil (draft : σ) : Fills shape draft [] draft
  | cons {draft next final : σ} {name : String} {v : Json} {members : List (String × Json)}
      {slot : Slot σ} (hslot : shape.slots.find? (·.name == name) = some slot)
      (hread : Reads (slot.read draft) v next) (hrest : Fills shape next members final) :
      Fills shape draft ((name, v) :: members) final

variable {shape : Shape σ} {draft next final : σ} {members : List (String × Json)}

/-- More members. -/
theorem Fills.append {more : List (String × Json)} (h : Fills shape draft members next)
    (hmore : Fills shape next more final) : Fills shape draft (members ++ more) final := by
  induction h with
  | nil => exact hmore
  | cons hslot hread _ ih => exact .cons hslot hread (ih hmore)

/-- A slot that puts what its reader takes from a value into the draft. -/
theorem reads_slot {name : String} {required : Bool} {reader : Reader α} {set : σ → α → σ}
    {v : Json} {a : α} (h : Reads reader v a) :
    Reads ((Slot.of name required reader set).read draft) v (set draft a) := by
  intro rest hrest
  simp only [Slot.of, h rest hrest, bind, Except.bind]

/-- A single member. -/
theorem fills_one (name : String) (v : Json) {required : Bool} {reader : Reader α}
    {set : σ → α → σ} {a : α}
    (hslot : shape.slots.find? (·.name == name) = some (.of name required reader set))
    (hread : Reads reader v a) : Fills shape draft [(name, v)] (set draft a) :=
  .cons hslot (reads_slot hread) (.nil _)

/-- A member is read into the draft, whether it is the first one or stands
behind a comma. -/
theorem readSlots_member {first : Bool} (lead : Bytes) {seen : List String} {name : String}
    {v : Json} {slot : Slot σ}
    (hnext : ∀ body, nextName first (lead ++ Ascii.quote :: body) =
      .ok (Ascii.quote :: body, true))
    (hslot : shape.slots.find? (·.name == name) = some slot) (hnew : name ∉ seen)
    (hread : Reads (slot.read draft) v next) (steps : Nat) :
    readSlots shape (steps + 1) seen draft first
        (lead ++ (encode (writeString name) ++
          (Ascii.colon :: (encode v.write ++ encode (writeMembers members))))) =
      readSlots shape steps (name :: seen) next false (encode (writeMembers members)) := by
  obtain ⟨body, hbody, hname⟩ := readString_writeString name
    (Ascii.colon :: (encode v.write ++ encode (writeMembers members)))
  have hends : EndsNumber (encode (writeMembers members)) := by
    simpa using endsNumber_members members []
  have hunseen : seen.contains name = false := by simpa using hnew
  rw [hbody, readSlots, hnext]
  simp only [bind, Except.bind, List.drop_one, List.tail_cons, hname, hslot, hunseen,
    readColon_colon, hread _ hends]
  rfl

/-- A record that was read needs no place for a fault. -/
theorem placedAt_ok {close : Bytes → Bytes} {result : Except Fault α} {a : α} :
    placedAt close result = .ok a ↔ result = .ok a := by
  cases result with
  | error fault => simp [placedAt, Except.mapError]
  | ok b => simp [placedAt, Except.mapError]

/-- The end of an object all of whose required members were read. -/
theorem readSlots_close {seen : List String}
    (hrequired : ∀ slot ∈ shape.slots, slot.required = true → slot.name ∈ seen)
    (steps : Nat) (first : Bool) (rest : Bytes) :
    readSlots shape (steps + 1) seen draft first (Ascii.closeBrace :: rest) =
      .ok (draft, rest) := by
  have hnext : nextName first (Ascii.closeBrace :: rest) =
      .ok (Ascii.closeBrace :: rest, false) := by
    rw [nextName, skipBlanks_cons rfl]
    rfl
  have hmissing : shape.slots.find? (fun s => s.required && !seen.contains s.name) = none := by
    rw [List.find?_eq_none]
    intro slot hslot
    simpa using hrequired slot hslot
  rw [readSlots, hnext]
  simp only [bind, Except.bind, hmissing, List.drop_one, List.tail_cons]

/-- A name moves from the members to the names seen, so together they hold the
same names. -/
theorem nodup_shift (seen : List String) {name : String} {v : Json}
    (hnew : (seen ++ ((name, v) :: members).map Prod.fst).Nodup)
    (hrequired : ∀ slot ∈ shape.slots, slot.required = true →
      slot.name ∈ seen ++ ((name, v) :: members).map Prod.fst) :
    name ∉ seen ∧ (name :: seen ++ members.map Prod.fst).Nodup ∧
      ∀ slot ∈ shape.slots, slot.required = true →
        slot.name ∈ name :: seen ++ members.map Prod.fst := by
  have hsame : (seen ++ ((name, v) :: members).map Prod.fst).Perm
      (name :: seen ++ members.map Prod.fst) := List.perm_middle
  have hnodup := hsame.nodup_iff.mp hnew
  refine ⟨?_, hnodup, fun slot hslot hreq => hsame.mem_iff.mp (hrequired slot hslot hreq)⟩
  rw [List.cons_append, List.nodup_cons] at hnodup
  exact fun hmem => hnodup.1 (List.mem_append_left _ hmem)

/-- The members after the first are read back. -/
theorem readSlots_write {seen : List String} (h : Fills shape draft members final)
    (hnew : (seen ++ members.map Prod.fst).Nodup)
    (hrequired : ∀ slot ∈ shape.slots, slot.required = true →
      slot.name ∈ seen ++ members.map Prod.fst)
    {steps : Nat} (hsteps : members.length < steps) :
    readSlots shape steps seen draft false (encode (writeMembers members)) = .ok (final, []) := by
  induction h generalizing seen steps with
  | nil draft =>
      obtain ⟨steps, rfl⟩ : ∃ s, steps = s + 1 := ⟨steps - 1, by omega⟩
      exact readSlots_close (by simpa using hrequired) steps false []
  | @cons draft next final name v members slot hslot hread hrest ih =>
      obtain ⟨steps, rfl⟩ : ∃ s, steps = s + 1 := ⟨steps - 1, by omega⟩
      obtain ⟨hunseen, hnew, hrequired⟩ := nodup_shift seen hnew hrequired
      rw [encode_writeMembers_cons]
      exact (readSlots_member [Ascii.comma] nextName_comma hslot hunseen hread steps).trans
        (ih hnew hrequired (by simpa using hsteps))

/-- Every member takes some bytes. -/
theorem length_writeMembers (members : List (String × Json)) :
    members.length < (encode (writeMembers members)).length := by
  induction members with
  | nil => exact Nat.zero_lt_one
  | cons member members ih =>
      obtain ⟨name, v⟩ := member
      rw [encode_writeMembers_cons]
      simp only [List.length_cons, List.length_append]
      omega

/-- **A written record is read back**, whatever members are in it, if each has
a slot of its own and all that are required are there. -/
theorem recordOfText_write (h : Fills shape shape.blank members final)
    (hnew : (members.map Prod.fst).Nodup)
    (hrequired : ∀ slot ∈ shape.slots, slot.required = true → slot.name ∈ members.map Prod.fst) :
    recordOfText shape (Json.obj members).text = .ok final := by
  have hread : readRecord shape (encode (Json.obj members).write) = .ok (final, []) := by
    cases h with
    | nil =>
        have hclose : readSlots shape 2 [] shape.blank true [Ascii.closeBrace] =
            .ok (shape.blank, []) := readSlots_close (by simpa using hrequired) 1 true []
        change placedAt closeObject (readSlots shape 2 [] shape.blank true [Ascii.closeBrace]) = _
        rw [hclose]
        rfl
    | @cons _ next _ name v members slot hslot hslotRead hrest =>
        obtain ⟨-, hnew, hrequired⟩ := nodup_shift [] hnew hrequired
        have hlength := length_writeMembers members
        rw [encode_write_obj, readRecord, skipBlanks_cons rfl]
        simp only [if_true]
        refine placedAt_ok.mpr ((readSlots_member [] nextName_first hslot List.not_mem_nil
          hslotRead _).trans (readSlots_write hrest hnew hrequired ?_))
        simp only [List.length_append, List.length_cons]
        omega
  refine readAll_ok_iff.mpr ⟨[], ?_, rfl⟩
  rw [Utf8.ofString, text, String.toList_ofList, hread]

/-- Two slots of one name, in front of related drafts: where the first one
reads something, so does the second one, and the drafts are related again. -/
structure Slot.Matches (R : σ → τ → Prop) (slot : Slot σ) (slot' : Slot τ) : Prop where
  name : slot'.name = slot.name
  required : slot'.required = slot.required
  read {draft : σ} {draft' : τ} {bs rest : Bytes} {next : σ} (h : R draft draft')
    (hread : slot.read draft bs = .ok (next, rest)) :
    ∃ next', slot'.read draft' bs = .ok (next', rest) ∧ R next next'

/-- A slot of a record that is read together with something else. -/
def Slot.beside (slot : Slot σ) : Slot (σ × τ) where
  name := slot.name
  required := slot.required
  read draft bs := do
    let (next, rest) ← slot.read draft.1 bs
    .ok ((next, draft.2), rest)

section Matches

variable {R : σ → τ → Prop} {shape' : Shape τ}

/-- The same slot is found on both sides, or none. -/
theorem find?_matches {slots : List (Slot σ)} {slots' : List (Slot τ)}
    (h : List.Forall₂ (Slot.Matches R) slots slots') (p : String → Bool → Bool) :
    (slots.find? fun slot => p slot.name slot.required) = none ∧
        (slots'.find? fun slot => p slot.name slot.required) = none ∨
      ∃ slot slot', (slots.find? fun slot => p slot.name slot.required) = some slot ∧
        (slots'.find? fun slot => p slot.name slot.required) = some slot' ∧
        Slot.Matches R slot slot' := by
  induction h with
  | nil => exact .inl ⟨rfl, rfl⟩
  | @cons slot slot' slots slots' hslot _ ih =>
      rw [List.find?_cons, List.find?_cons, hslot.name, hslot.required]
      cases p slot.name slot.required with
      | true => exact .inr ⟨slot, slot', rfl, rfl, hslot⟩
      | false => exact ih

variable (h : List.Forall₂ (Slot.Matches R) shape.slots shape'.slots)
include h

/-- The members of an object, side by side. -/
theorem readSlots_matches {steps : Nat} {seen : List String} {first : Bool} {draft : σ}
    {draft' : τ} {bs rest : Bytes} (hdraft : R draft draft')
    (hread : readSlots shape steps seen draft first bs = .ok (final, rest)) :
    ∃ final', readSlots shape' steps seen draft' first bs = .ok (final', rest) ∧
      R final final' := by
  induction steps generalizing seen draft draft' first bs with
  | zero => cases hread
  | succ steps ih =>
      rw [readSlots] at hread
      obtain ⟨⟨place, more⟩, hnext, hread⟩ := of_bind_ok hread
      cases more with
      | false =>
          rcases find?_matches h fun name required => required && !seen.contains name with
            ⟨hnone, hnone'⟩ | ⟨slot, slot', hsome, -, -⟩
          · simp only [hnone] at hread
            cases hread
            refine ⟨draft', ?_, hdraft⟩
            rw [readSlots, hnext]
            simp only [bind, Except.bind, hnone']
          · simp only [hsome] at hread
            cases hread
      | true =>
          obtain ⟨⟨name, value⟩, hname, hread⟩ := of_bind_ok hread
          rcases find?_matches h fun slotName _ => slotName == name with
            ⟨hnone, hnone'⟩ | ⟨slot, slot', hsome, hsome', hslot⟩
          · simp only [hnone] at hread
            obtain ⟨body, hcolon, hread⟩ := of_bind_ok hread
            obtain ⟨after, hskip, hread⟩ := of_bind_ok hread
            obtain ⟨final', hfinal, hR⟩ := ih hdraft hread
            refine ⟨final', ?_, hR⟩
            rw [readSlots, hnext]
            simp only [bind, Except.bind, hname, hnone', hcolon, hskip, hfinal]
          · simp only [hsome] at hread
            split at hread
            · cases hread
            · rename_i hunseen
              obtain ⟨body, hcolon, hread⟩ := of_bind_ok hread
              obtain ⟨⟨next, after⟩, hslotRead, hread⟩ := of_bind_ok hread
              obtain ⟨next', hslotRead', hnextR⟩ := hslot.read hdraft hslotRead
              obtain ⟨final', hfinal, hR⟩ := ih hnextR hread
              refine ⟨final', ?_, hR⟩
              rw [readSlots, hnext]
              simp only [bind, Except.bind, hname, hsome', if_neg hunseen, hcolon, hslotRead',
                hfinal]

omit h in
/-- The values of an array, side by side. -/
theorem readItemsInto_matches (shape : Shape σ) (shape' : Shape τ) {slots : List (Slot σ)}
    {slots' : List (Slot τ)}
    (hslots : List.Forall₂ (Slot.Matches R) slots slots') {index : Nat} {first : Bool} {draft : σ}
    {draft' : τ} {bs rest : Bytes} (hdraft : R draft draft')
    (hread : readItemsInto shape slots index first draft bs = .ok (final, rest)) :
    ∃ final', readItemsInto shape' slots' index first draft' bs = .ok (final', rest) ∧
      R final final' := by
  induction hslots generalizing index first draft draft' bs with
  | nil =>
      cases hread
      exact ⟨draft', rfl, hdraft⟩
  | @cons slot slot' slots slots' hslot _ ih =>
      rw [readItemsInto] at hread
      obtain ⟨⟨place, more⟩, hnext, hread⟩ := of_bind_ok hread
      cases more with
      | false =>
          dsimp only at hread
          split at hread
          · cases hread
          · rename_i hoptional
            obtain ⟨final', hfinal, hR⟩ := ih hdraft hread
            refine ⟨final', ?_, hR⟩
            rw [readItemsInto, hnext]
            simp only [bind, Except.bind, hslot.required, if_neg hoptional, hfinal]
      | true =>
          obtain ⟨⟨next, after⟩, hslotRead, hread⟩ := of_bind_ok hread
          obtain ⟨next', hslotRead', hnextR⟩ := hslot.read hdraft hslotRead
          obtain ⟨final', hfinal, hR⟩ := ih hnextR hread
          refine ⟨final', ?_, hR⟩
          rw [readItemsInto, hnext]
          simp only [bind, Except.bind, hslotRead', hfinal]

/-- Records, side by side. -/
theorem readRecord_matches (hblank : R shape.blank shape'.blank) {bs rest : Bytes}
    (hread : readRecord shape bs = .ok (final, rest)) :
    ∃ final', readRecord shape' bs = .ok (final', rest) ∧ R final final' := by
  unfold readRecord at hread ⊢
  split at hread
  · cases hread
  split at hread
  · rename_i hbrace
    obtain ⟨final', hfinal, hR⟩ := readSlots_matches h hblank (placedAt_ok.mp hread)
    refine ⟨final', ?_, hR⟩
    simp only [if_pos hbrace, placedAt_ok.mpr hfinal]
  split at hread
  · rename_i hbrace hbracket
    obtain ⟨⟨draft, after⟩, hitems, hread⟩ := of_bind_ok (placedAt_ok.mp hread)
    obtain ⟨after', hend, hread⟩ := of_bind_ok hread
    cases hread
    obtain ⟨final', hfinal, hR⟩ := readItemsInto_matches shape shape' h hblank hitems
    refine ⟨final', ?_, hR⟩
    simp only [if_neg hbrace, if_pos hbracket, placedAt_ok, bind, Except.bind, hfinal, hend]
  · exact (mistyped_ne_ok hread).elim

/-- **Texts that are read in one shape are read in the other**, and what is
read is related. -/
theorem recordOfText_matches (hblank : R shape.blank shape'.blank) {text : String}
    (hread : recordOfText shape text = .ok final) :
    ∃ final', recordOfText shape' text = .ok final' ∧ R final final' := by
  obtain ⟨rest, hrecord, hrest⟩ := readAll_ok_iff.mp hread
  obtain ⟨final', hfinal, hR⟩ := readRecord_matches h hblank hrecord
  exact ⟨final', readAll_ok_iff.mpr ⟨rest, hfinal, hrest⟩, hR⟩

end Matches

/-- A slot whose value leaves a property of the draft as it was. -/
def Slot.Keeps (P : σ → Prop) (slot : Slot σ) : Prop :=
  ∀ draft next bs rest, P draft → slot.read draft bs = .ok (next, rest) → P next

/-- A value that is put into the draft keeps a property if the value, as it is
read, is of the right kind. -/
theorem Slot.keeps_of {P : σ → Prop} {name : String} {required : Bool} {reader : Reader α}
    {set : σ → α → σ}
    (h : ∀ {draft a bs rest}, P draft → reader bs = .ok (a, rest) → P (set draft a)) :
    (Slot.of name required reader set).Keeps P := by
  intro draft next bs rest hP hread
  obtain ⟨⟨a, after⟩, hvalue, hset⟩ := of_bind_ok hread
  cases hset
  exact h hP hvalue

/-- What every slot keeps holds of a record that was read, also as a member of
another. -/
theorem readRecord_keeps {P : σ → Prop} (hblank : P shape.blank)
    (hslots : ∀ slot ∈ shape.slots, slot.Keeps P) {bs rest : Bytes}
    (hread : readRecord shape bs = .ok (final, rest)) : P final := by
  -- The shape beside itself: the drafts are the same, and have the property.
  have hsame : List.Forall₂ (Slot.Matches fun draft draft' => draft' = draft ∧ P draft)
      shape.slots shape.slots := by
    refine List.forall₂_same.mpr fun slot hslot => ⟨rfl, rfl, ?_⟩
    rintro draft _ bs rest next ⟨rfl, hP⟩ hread
    exact ⟨next, hread, rfl, hslots slot hslot _ _ _ _ hP hread⟩
  obtain ⟨_, _, _, hP⟩ := readRecord_matches hsame ⟨rfl, hblank⟩ hread
  exact hP

/-- What every slot keeps holds of the record of a text. -/
theorem recordOfText_keeps {P : σ → Prop} (hblank : P shape.blank)
    (hslots : ∀ slot ∈ shape.slots, slot.Keeps P) {text : String}
    (hread : recordOfText shape text = .ok final) : P final := by
  obtain ⟨_, hrecord, -⟩ := readAll_ok_iff.mp hread
  exact readRecord_keeps hblank hslots hrecord

end Json
end PubSub
