import PubSub.Proofs.Json.RoundTrip
import PubSub.Proofs.Outcome

/-!
# What reading yields

Whatever the text looks like, the values read from it are of one kind: their
whole numbers fit 64 bits, the members of their objects are in order, each
name once, and they are nested no deeper than the reader was allowed to go.

* `Members.put_sorted`, `Members.ofList_sorted` — building objects;
* `Json.nestingMembers_le_iff`, `Json.everyMember_iff` — members one by one;
* `Json.readNumber_fits` — the numbers that are read;
* `Json.readValue_within` — values in the middle of a text;
* `Json.parse_within` — values of whole texts.
-/

namespace PubSub

namespace Members

variable {α : Type} {members : List (String × α)} {name : String} {value : α}

/-- What is there after a member has been set was there before, or is that
member. -/
theorem mem_put {member : String × α} (h : member ∈ put name value members) :
    member = (name, value) ∨ member ∈ members := by
  induction members with
  | nil => exact .inl (List.mem_singleton.mp h)
  | cons first members ih =>
      obtain ⟨k, v⟩ := first
      rw [put] at h
      split at h
      · exact List.mem_cons.mp h
      · split at h
        · exact (List.mem_cons.mp h).imp_right (List.mem_cons_of_mem _)
        · rcases List.mem_cons.mp h with rfl | hrest
          · exact .inr List.mem_cons_self
          · exact (ih hrest).imp_right (List.mem_cons_of_mem _)

/-- A member is set at its place in the order of the names. -/
theorem put_sorted (h : (members.map Prod.fst).Pairwise (· < ·)) :
    ((put name value members).map Prod.fst).Pairwise (· < ·) := by
  induction members with
  | nil => simp [put]
  | cons first members ih =>
      obtain ⟨k, v⟩ := first
      rw [List.map_cons, List.pairwise_cons] at h
      obtain ⟨hfirst, hrest⟩ := h
      rw [put]
      split
      · rename_i hbefore
        rw [List.map_cons, List.map_cons, List.pairwise_cons, List.pairwise_cons]
        refine ⟨?_, hfirst, hrest⟩
        intro k' hk'
        rcases List.mem_cons.mp hk' with rfl | hk'
        · exact hbefore
        · exact String.lt_trans hbefore (hfirst k' hk')
      · rename_i hnotBefore
        split
        · rename_i hsame
          subst hsame
          exact List.pairwise_cons.mpr ⟨hfirst, hrest⟩
        · rename_i hother
          have hafter : k < name :=
            Std.lt_of_le_of_ne (String.not_lt.mp hnotBefore) (Ne.symm hother)
          rw [List.map_cons, List.pairwise_cons]
          refine ⟨?_, ih hrest⟩
          intro k' hk'
          obtain ⟨member, hmember, rfl⟩ := List.mem_map.mp hk'
          rcases mem_put hmember with rfl | hold
          · exact hafter
          · exact hfirst _ (List.mem_map_of_mem hold)

/-- The members that are there come from the sequence. -/
theorem mem_foldl_put {before : List (String × α)} {member : String × α}
    (h : member ∈ members.foldl (fun sorted member => put member.1 member.2 sorted) before) :
    member ∈ before ∨ member ∈ members := by
  induction members generalizing before with
  | nil => exact .inl h
  | cons first members ih =>
      rcases ih h with hput | hrest
      · rcases mem_put hput with rfl | hold
        · exact .inr List.mem_cons_self
        · exact .inl hold
      · exact .inr (List.mem_cons_of_mem _ hrest)

/-- Members of a sequence are members of it. -/
theorem mem_ofList {member : String × α} (h : member ∈ ofList members) : member ∈ members :=
  (mem_foldl_put h).resolve_left List.not_mem_nil

/-- Setting members one after the other keeps them in order. -/
theorem foldl_put_sorted {before : List (String × α)}
    (h : (before.map Prod.fst).Pairwise (· < ·)) :
    ((members.foldl (fun sorted member => put member.1 member.2 sorted) before).map
      Prod.fst).Pairwise (· < ·) := by
  induction members generalizing before with
  | nil => exact h
  | cons first members ih => exact ih (put_sorted h)

/-- The members of an object are in order, each name once. -/
theorem ofList_sorted (members : List (String × α)) :
    ((ofList members).map Prod.fst).Pairwise (· < ·) :=
  foldl_put_sorted List.Pairwise.nil

end Members

namespace Json

/-- What holds of all members holds of each. -/
theorem everyMember_iff {P : Json → Prop} {members : List (String × Json)} :
    EveryMember P members ↔ ∀ member ∈ members, member.2.Every P := by
  induction members with
  | nil => simp [EveryMember]
  | cons first members ih =>
      obtain ⟨k, v⟩ := first
      rw [EveryMember, ih, List.forall_mem_cons]

/-- Members are nested no deeper than each of them. -/
theorem nestingMembers_le_iff {members : List (String × Json)} {depth : Nat} :
    nestingMembers members ≤ depth ↔ ∀ member ∈ members, member.2.nesting ≤ depth := by
  induction members with
  | nil => simp [nestingMembers]
  | cons first members ih =>
      obtain ⟨k, v⟩ := first
      rw [nestingMembers, Nat.max_le, ih, List.forall_mem_cons]

mutual

/-- Two properties of a value and of all values inside it. -/
theorem Every.and {P Q : Json → Prop} : ∀ {v : Json}, v.Every P → v.Every Q →
    v.Every fun w => P w ∧ Q w
  | .null, h, h' | .bool _, h, h' | .int _, h, h' | .float _, h, h' | .str _, h, h' => ⟨h, h'⟩
  | .arr _, h, h' => ⟨⟨h.1, h'.1⟩, EveryItem.and h.2 h'.2⟩
  | .obj _, h, h' => ⟨⟨h.1, h'.1⟩, EveryMember.and h.2 h'.2⟩

/-- The same for the items of an array. -/
theorem EveryItem.and {P Q : Json → Prop} : ∀ {items : List Json}, EveryItem P items →
    EveryItem Q items → EveryItem (fun w => P w ∧ Q w) items
  | [], _, _ => trivial
  | _ :: _, h, h' => ⟨Every.and h.1 h'.1, EveryItem.and h.2 h'.2⟩

/-- The same for the members of an object. -/
theorem EveryMember.and {P Q : Json → Prop} : ∀ {members : List (String × Json)},
    EveryMember P members → EveryMember Q members → EveryMember (fun w => P w ∧ Q w) members
  | [], _, _ => trivial
  | _ :: _, h, h' => ⟨Every.and h.1 h'.1, EveryMember.and h.2 h'.2⟩

end

/-- Digits are appended to a number as long as it fits 64 bits. -/
theorem appendDigits_lt {n : Nat} (h : n < 2 ^ 64) (digits : Bytes) :
    (appendDigits n digits).1 < 2 ^ 64 := by
  induction digits generalizing n with
  | nil => exact h
  | cons d digits ih =>
      rw [appendDigits]
      split
      · rename_i hfit
        exact ih hfit
      · exact h

/-- Is the number floating? -/
def Number.IsFloat : Number → Prop
  | .int _ => False
  | .float _ => True

/-- A reader that yields floating numbers only. -/
def Floats (reader : Reader Number) : Prop :=
  ∀ {bs rest n}, reader bs = .ok (n, rest) → n.IsFloat

section Floats

variable (negative down : Bool) (significand : Nat) (start : Int)

/-- The double of digits is no whole number. -/
theorem finish_floats : Floats (finish negative significand start) := by
  intro bs rest n h
  unfold finish at h
  split at h
  · cases h
    trivial
  · cases h

/-- Nor is a number with an exponent. -/
theorem readExponentDigits_floats (exponent : Nat) :
    Floats (readExponentDigits negative down significand start exponent) := by
  intro bs
  induction bs generalizing exponent with
  | nil =>
      intro rest n h
      exact finish_floats _ _ _ h
  | cons d bs ih =>
      intro rest n h
      rw [readExponentDigits] at h
      split at h
      · dsimp only at h
        split at h
        · exact ih _ h
        · split at h
          · cases h
          · cases h
            trivial
      · exact finish_floats _ _ _ h

theorem readExponent_floats : Floats (readExponent negative significand start) := by
  intro bs rest n h
  unfold readExponent at h
  dsimp only at h
  split at h
  · cases h
  · split at h
    · exact readExponentDigits_floats _ _ _ _ _ h
    · cases h

theorem readOptionalExponent_floats :
    Floats (readOptionalExponent negative significand start) := by
  intro bs rest n h
  unfold readOptionalExponent at h
  split at h
  · split at h
    · exact readExponent_floats _ _ _ h
    · exact finish_floats _ _ _ h
  · exact finish_floats _ _ _ h

/-- Nor is a number with a point. -/
theorem readFraction_floats : Floats (readFraction negative significand start) := by
  intro bs rest n h
  unfold readFraction at h
  split at h
  · cases h
  · cases h
  · exact readOptionalExponent_floats _ _ _ h

end Floats

/-- A whole number that was read fits 64 bits, signed or not. -/
def Number.Fits : Number → Prop
  | .int n => -2 ^ 63 ≤ n ∧ n < 2 ^ 64
  | .float _ => True

/-- Floating numbers are not restricted. -/
theorem Number.IsFloat.fits {n : Number} (h : n.IsFloat) : n.Fits := by
  cases n with
  | int n => exact h.elim
  | float x => trivial

/-- A number of digits that fit 64 bits. -/
theorem wholeNumber_fits (negative : Bool) {n : Nat} (h : n < 2 ^ 64) :
    (wholeNumber negative n).Fits := by
  unfold wholeNumber
  split
  · exact ⟨by omega, by omega⟩
  · split
    · trivial
    · split
      · rename_i hfit
        have hle : n ≤ 2 ^ 63 := hfit
        exact ⟨by simp only [Int.ofNat_eq_natCast]; omega, by simp only [Int.ofNat_eq_natCast]; omega⟩
      · trivial

/-- After the whole digits of a number. -/
theorem readAfterWhole_fits {negative : Bool} {significand left : Nat}
    (hsignificand : significand < 2 ^ 64) {bs rest : Bytes} {n : Number}
    (h : readAfterWhole negative significand left bs = .ok (n, rest)) : n.Fits := by
  unfold readAfterWhole at h
  split at h
  · split at h
    · exact (readFraction_floats _ _ _ h).fits
    · split at h
      · exact (readExponent_floats _ _ _ h).fits
      · split at h
        · cases h
          exact wholeNumber_fits negative hsignificand
        · exact (finish_floats _ _ _ h).fits
  · split at h
    · cases h
      exact wholeNumber_fits negative hsignificand
    · exact (finish_floats _ _ _ h).fits

/-- A number that was read. -/
theorem readNumber_fits {negative : Bool} {bs rest : Bytes} {n : Number}
    (h : readNumber negative bs = .ok (n, rest)) : n.Fits := by
  cases bs with
  | nil => cases h
  | cons b bs =>
      simp only [readNumber] at h
      split at h
      · split at h
        · split at h
          · cases h
          · exact readAfterWhole_fits (by decide) h
        · exact readAfterWhole_fits (by decide) h
      · split at h
        · exact readAfterWhole_fits (appendDigits_lt (by decide) _) h
        · cases h

/-- A value that can be, and that is nested no deeper than `depth`. -/
structure Within (depth : Nat) (v : Json) : Prop where
  proper : v.Every Proper
  nesting : v.nesting ≤ depth

variable {steps depth : Nat} {bs rest : Bytes}

/-- A number that was read is a value that can be. -/
theorem Number.Fits.within {n : Number} (h : n.Fits) (depth : Nat) : n.toJson.Within depth := by
  cases n with
  | int n => exact ⟨h, Nat.zero_le _⟩
  | float x => exact ⟨trivial, Nat.zero_le _⟩

/-- An array of values. -/
theorem Within.arr {items : List Json} (hdepth : depth ≠ 0)
    (h : EveryItem Proper items ∧ nestingItems items ≤ depth - 1) :
    (Json.arr items).Within depth :=
  ⟨⟨trivial, h.1⟩, by rw [Json.nesting]; omega⟩

/-- An object of values, whatever the order of the members and however often a
name was repeated. -/
theorem Within.obj {members : List (String × Json)} (hdepth : depth ≠ 0)
    (h : ∀ member ∈ members, member.2.Within (depth - 1)) :
    (Json.obj (Members.ofList members)).Within depth := by
  have hmembers : ∀ member ∈ Members.ofList members, member.2.Within (depth - 1) :=
    fun member hmember => h member (Members.mem_ofList hmember)
  refine ⟨⟨Members.ofList_sorted members, ?_⟩, ?_⟩
  · exact everyMember_iff.mpr fun member hmember => (hmembers member hmember).proper
  · have hnesting : nestingMembers (Members.ofList members) ≤ depth - 1 :=
      nestingMembers_le_iff.mpr fun member hmember => (hmembers member hmember).nesting
    rw [Json.nesting]
    omega

mutual

/-- **What is read is a value that can be**, nested no deeper than was
allowed. -/
theorem readValue_within : ∀ {steps depth : Nat} {bs rest : Bytes} {v : Json},
    readValue steps depth bs = .ok (v, rest) → v.Within depth
  | 0, _, _, _, _, h => by cases h
  | steps + 1, depth, bs, rest, v, h => by
      rw [readValue] at h
      split at h
      · cases h
      · rename_i b bs' hblanks
        clear hblanks
        split at h
        · obtain ⟨_, -, hv⟩ := of_bind_ok h
          cases hv
          exact ⟨trivial, Nat.zero_le _⟩
        split at h
        · obtain ⟨_, -, hv⟩ := of_bind_ok h
          cases hv
          exact ⟨trivial, Nat.zero_le _⟩
        split at h
        · obtain ⟨_, -, hv⟩ := of_bind_ok h
          cases hv
          exact ⟨trivial, Nat.zero_le _⟩
        split at h
        · obtain ⟨⟨n, _⟩, hnumber, hv⟩ := of_bind_ok h
          cases hv
          exact (readNumber_fits hnumber).within depth
        split at h
        · obtain ⟨⟨n, _⟩, hnumber, hv⟩ := of_bind_ok h
          cases hv
          exact (readNumber_fits hnumber).within depth
        split at h
        · obtain ⟨_, -, hv⟩ := of_bind_ok h
          cases hv
          exact ⟨trivial, Nat.zero_le _⟩
        split at h
        · split at h
          · cases h
          · rename_i hdepth
            obtain ⟨⟨items, _⟩, hitems, hv⟩ := of_bind_ok h
            cases hv
            exact .arr hdepth (readItems_within hitems)
        split at h
        · split at h
          · cases h
          · rename_i hdepth
            obtain ⟨⟨members, _⟩, hmembers, hv⟩ := of_bind_ok h
            cases hv
            exact .obj hdepth (readMembers_within hmembers)
        · cases h

/-- The same for the items of an array. -/
theorem readItems_within : ∀ {steps depth : Nat} {first : Bool} {bs rest : Bytes}
    {items : List Json}, readItems steps depth first bs = .ok (items, rest) →
      EveryItem Proper items ∧ nestingItems items ≤ depth
  | 0, _, _, _, _, _, h => by cases h
  | steps + 1, depth, first, bs, rest, items, h => by
      rw [readItems] at h
      obtain ⟨⟨place, more⟩, -, h⟩ := of_bind_ok h
      cases more with
      | false =>
          cases h
          exact ⟨trivial, Nat.zero_le _⟩
      | true =>
          obtain ⟨⟨v, _⟩, hv, h⟩ := of_bind_ok h
          obtain ⟨⟨items, _⟩, hitems, h⟩ := of_bind_ok h
          cases h
          have hfirst := readValue_within hv
          have hrest := readItems_within hitems
          exact ⟨⟨hfirst.proper, hrest.1⟩, Nat.max_le.mpr ⟨hfirst.nesting, hrest.2⟩⟩

/-- The same for the members of an object, as they stand in the text. -/
theorem readMembers_within : ∀ {steps depth : Nat} {first : Bool} {bs rest : Bytes}
    {members : List (String × Json)}, readMembers steps depth first bs = .ok (members, rest) →
      ∀ member ∈ members, member.2.Within depth
  | 0, _, _, _, _, _, h => by cases h
  | steps + 1, depth, first, bs, rest, members, h => by
      rw [readMembers] at h
      obtain ⟨⟨place, more⟩, -, h⟩ := of_bind_ok h
      cases more with
      | false =>
          cases h
          simp
      | true =>
          obtain ⟨⟨name, _⟩, -, h⟩ := of_bind_ok h
          obtain ⟨_, -, h⟩ := of_bind_ok h
          obtain ⟨⟨v, _⟩, hv, h⟩ := of_bind_ok h
          obtain ⟨⟨members, _⟩, hmembers, h⟩ := of_bind_ok h
          cases h
          rw [List.forall_mem_cons]
          exact ⟨readValue_within hv, readMembers_within hmembers⟩

end

/-- The value of a whole text can be, and is nested within the limit. -/
theorem parse_within {text : Bytes} {v : Json} (h : parse text = .ok v) :
    v.Within nestingLimit := by
  obtain ⟨rest, hread, -⟩ := readAll_ok_iff.mp h
  exact readValue_within hread

end Json
end PubSub
