import PubSub.Proofs.Json.RoundTrip

/-!
# Values that are nested too deep

Writing knows no limit, reading does.  A written value that is nested deeper
than the reader may go is refused, and for that reason alone: everything
before the bracket or brace that is one too many is read.

* `Json.TooDeep` — a reader that stops for that reason;
* `Json.readValue_deep` — a value in the middle of a text;
* `Json.parse_deep` — a value that is the whole text.
-/

namespace PubSub.Json

open Utf8 (encode encode_append)

/-- Reading stopped where it had gone as deep as it may. -/
def TooDeep {α : Type} (result : Except Fault α) : Prop :=
  ∃ left, result = .error (.placed (.flaw .tooDeep) left)

namespace TooDeep

variable {α : Type} {steps depth : Nat} {first : Bool} {bs body rest rest' : Bytes}

/-- What stops in its first part stops. -/
theorem bind {β : Type} {result : Except Fault α} (h : TooDeep result)
    (after : α → Except Fault β) : TooDeep (result >>= after) := by
  obtain ⟨left, rfl⟩ := h
  exact ⟨left, rfl⟩

/-- An array stops with its items. -/
theorem bracket (h : depth = 0 ∨ TooDeep (readItems steps (depth - 1) true bs)) :
    TooDeep (readValue (steps + 1) depth (Ascii.openBracket :: bs)) := by
  by_cases hdepth : depth = 0
  · rw [readValue, skipBlanks_cons rfl]
    simp only [hdepth, if_true]
    exact ⟨_, rfl⟩
  · rw [readValue, skipBlanks_cons rfl]
    simp only [if_neg hdepth]
    exact (h.resolve_left hdepth).bind _

/-- An object stops with its members. -/
theorem brace (h : depth = 0 ∨ TooDeep (readMembers steps (depth - 1) true bs)) :
    TooDeep (readValue (steps + 1) depth (Ascii.openBrace :: bs)) := by
  by_cases hdepth : depth = 0
  · rw [readValue, skipBlanks_cons rfl]
    simp only [hdepth, if_true]
    exact ⟨_, rfl⟩
  · rw [readValue, skipBlanks_cons rfl]
    simp only [if_neg hdepth]
    exact (h.resolve_left hdepth).bind _

/-- Items stop where one of them does: at the next one. -/
theorem item (hnext : nextItem first bs = .ok (rest, true))
    (h : TooDeep (readValue steps depth rest)) :
    TooDeep (readItems (steps + 1) depth first bs) := by
  rw [readItems, hnext]
  exact h.bind _

/-- Or further on. -/
theorem items {v : Json} (hnext : nextItem first bs = .ok (rest, true))
    (hvalue : readValue steps depth rest = .ok (v, rest'))
    (h : TooDeep (readItems steps depth false rest')) :
    TooDeep (readItems (steps + 1) depth first bs) := by
  rw [readItems, hnext]
  simp only [Bind.bind, Except.bind, hvalue]
  exact h.bind _

/-- Members stop where one of them does: at the next one. -/
theorem member {name : String} (hnext : nextName first bs = .ok (Ascii.quote :: body, true))
    (hname : readString body = .ok (name, Ascii.colon :: rest))
    (h : TooDeep (readValue steps depth rest)) :
    TooDeep (readMembers (steps + 1) depth first bs) := by
  rw [readMembers, hnext]
  simp only [Bind.bind, Except.bind, List.drop_one, List.tail_cons, hname, readColon_colon]
  exact h.bind _

/-- Or further on. -/
theorem members {name : String} {v : Json}
    (hnext : nextName first bs = .ok (Ascii.quote :: body, true))
    (hname : readString body = .ok (name, Ascii.colon :: rest))
    (hvalue : readValue steps depth rest = .ok (v, rest'))
    (h : TooDeep (readMembers steps depth false rest')) :
    TooDeep (readMembers (steps + 1) depth first bs) := by
  rw [readMembers, hnext]
  simp only [Bind.bind, Except.bind, List.drop_one, List.tail_cons, hname, readColon_colon,
    hvalue]
  exact h.bind _

end TooDeep

mutual

/-- A written value that is nested deeper than the reader may go. -/
theorem readValue_deep : ∀ {v : Json}, v.Every Plain → ∀ {steps depth : Nat} {rest : Bytes},
    2 * (encode v.write).length ≤ steps + 1 → depth < v.nesting →
      TooDeep (readValue (steps + 1) depth (encode v.write ++ rest))
  | .null, _, _, _, _, _, hdepth | .bool _, _, _, _, _, _, hdepth
  | .int _, _, _, _, _, _, hdepth | .float _, _, _, _, _, _, hdepth
  | .str _, _, _, _, _, _, hdepth => absurd hdepth (Nat.not_lt_zero _)
  | .arr [], _, steps, depth, rest, _, hdepth => by
      simp only [nesting, nestingItems] at hdepth
      have hzero : depth = 0 := by omega
      exact .bracket (.inl hzero)
  | .arr (v :: items), h, steps, depth, rest, hsteps, hdepth => by
      obtain ⟨-, hv, hitems⟩ := h
      obtain ⟨b, more, hlead, hblank, hclose⟩ := write_lead hv.self.2
      have hlength : 0 < (encode v.write).length := by simp [hlead]
      rw [encode_write_arr] at hsteps ⊢
      simp only [nesting, nestingItems, List.length_cons, List.length_append] at hdepth hsteps
      obtain ⟨s, rfl⟩ : ∃ s, steps = s + 1 + 1 := ⟨steps - 2, by omega⟩
      rw [List.cons_append, List.append_assoc]
      refine .bracket ?_
      by_cases hzero : depth = 0
      · exact .inl hzero
      have hnext : nextItem true (encode v.write ++ (encode (writeItems items) ++ rest)) =
          .ok (encode v.write ++ (encode (writeItems items) ++ rest), true) := by
        rw [hlead]
        exact nextItem_first hblank hclose _
      -- the first item is too deep itself, or it is read and a later one is too deep
      by_cases hfirst : v.nesting ≤ depth - 1
      · exact .inr (.items hnext
          (readValue_write hv (by omega) hfirst (endsNumber_items items rest))
          (readItems_deep hitems (by omega) (by omega)))
      · exact .inr (.item hnext (readValue_deep hv (by omega) (by omega)))
  | .obj [], _, steps, depth, rest, _, hdepth => by
      simp only [nesting, nestingMembers] at hdepth
      have hzero : depth = 0 := by omega
      exact .brace (.inl hzero)
  | .obj ((k, v) :: members), h, steps, depth, rest, hsteps, hdepth => by
      obtain ⟨-, hv, hmembers⟩ := h
      rw [encode_write_obj] at hsteps ⊢
      simp only [nesting, nestingMembers, List.length_cons, List.length_append] at hdepth hsteps
      obtain ⟨s, rfl⟩ : ∃ s, steps = s + 1 + 1 := ⟨steps - 2, by omega⟩
      obtain ⟨body, hname, hread⟩ := readString_writeString k
        (Ascii.colon :: (encode v.write ++ (encode (writeMembers members) ++ rest)))
      rw [List.cons_append, List.append_assoc, List.cons_append, List.append_assoc, hname]
      refine .brace ?_
      by_cases hzero : depth = 0
      · exact .inl hzero
      by_cases hfirst : v.nesting ≤ depth - 1
      · exact .inr (.members (nextName_first body) hread
          (readValue_write hv (by omega) hfirst (endsNumber_members members rest))
          (readMembers_deep hmembers (by omega) (by omega)))
      · exact .inr (.member (nextName_first body) hread
          (readValue_deep hv (by omega) (by omega)))

/-- The same for the items of an array after the first. -/
theorem readItems_deep : ∀ {items : List Json}, EveryItem Plain items →
    ∀ {steps depth : Nat} {rest : Bytes}, 2 * (encode (writeItems items)).length ≤ steps + 1 →
      depth < nestingItems items →
      TooDeep (readItems (steps + 1) depth false (encode (writeItems items) ++ rest))
  | [], _, _, _, _, _, hdepth => absurd hdepth (Nat.not_lt_zero _)
  | v :: items, h, steps, depth, rest, hsteps, hdepth => by
      obtain ⟨hv, hitems⟩ := h
      obtain ⟨b, more, hlead, hblank, hclose⟩ := write_lead hv.self.2
      have hlength : 0 < (encode v.write).length := by simp [hlead]
      rw [encode_writeItems_cons] at hsteps ⊢
      simp only [nestingItems, List.length_cons, List.length_append] at hdepth hsteps
      obtain ⟨s, rfl⟩ : ∃ s, steps = s + 1 := ⟨steps - 1, by omega⟩
      rw [List.cons_append, List.append_assoc]
      have hnext : nextItem false
          (Ascii.comma :: (encode v.write ++ (encode (writeItems items) ++ rest))) =
            .ok (encode v.write ++ (encode (writeItems items) ++ rest), true) := by
        rw [hlead]
        exact nextItem_comma hblank hclose _
      by_cases hfirst : v.nesting ≤ depth
      · exact .items hnext
          (readValue_write hv (by omega) hfirst (endsNumber_items items rest))
          (readItems_deep hitems (by omega) (by omega))
      · exact .item hnext (readValue_deep hv (by omega) (by omega))

/-- The same for the members of an object after the first. -/
theorem readMembers_deep : ∀ {members : List (String × Json)}, EveryMember Plain members →
    ∀ {steps depth : Nat} {rest : Bytes}, 2 * (encode (writeMembers members)).length ≤ steps + 1 →
      depth < nestingMembers members →
      TooDeep (readMembers (steps + 1) depth false (encode (writeMembers members) ++ rest))
  | [], _, _, _, _, _, hdepth => absurd hdepth (Nat.not_lt_zero _)
  | (k, v) :: members, h, steps, depth, rest, hsteps, hdepth => by
      obtain ⟨hv, hmembers⟩ := h
      rw [encode_writeMembers_cons] at hsteps ⊢
      simp only [nestingMembers, List.length_cons, List.length_append] at hdepth hsteps
      obtain ⟨s, rfl⟩ : ∃ s, steps = s + 1 := ⟨steps - 1, by omega⟩
      obtain ⟨body, hname, hread⟩ := readString_writeString k
        (Ascii.colon :: (encode v.write ++ (encode (writeMembers members) ++ rest)))
      rw [List.cons_append, List.append_assoc, List.cons_append, List.append_assoc, hname]
      by_cases hfirst : v.nesting ≤ depth
      · exact .members (nextName_comma body) hread
          (readValue_write hv (by omega) hfirst (endsNumber_members members rest))
          (readMembers_deep hmembers (by omega) (by omega))
      · exact .member (nextName_comma body) hread (readValue_deep hv (by omega) (by omega))

end

/-- **Too deep.**  A value whose numbers are whole is refused when it is read
back from its own text, if it is nested deeper than the limit. -/
theorem parse_deep {v : Json} (h : v.Every Plain) (hdepth : nestingLimit < v.nesting) :
    ∃ e, parse v.bytes = .error e ∧ e.cause = .flaw .tooDeep := by
  have hread : TooDeep (readValue (2 * v.bytes.length + 2) nestingLimit (encode v.write ++ [])) :=
    readValue_deep h (by simp only [bytes]; omega) hdepth
  rw [List.append_nil] at hread
  change TooDeep (readValue (stepsFor v.bytes) nestingLimit v.bytes) at hread
  obtain ⟨left, hleft⟩ := hread
  refine ⟨Fault.toError v.bytes (.placed (.flaw .tooDeep) left), ?_, rfl⟩
  unfold parse readAll
  rw [hleft]
  rfl

end PubSub.Json
