import PubSub.Json.Reader
import PubSub.Proofs.Json.Lexeme

/-!
# Reading what was written

A value that is written as compact text is read back from it, if its
numbers are whole and fit 64 bits and if it is not nested too deep.  The
reader's bound on its own steps never gets in the way: a value takes at
most two steps for each byte of its text.

* `Json.Every` — what holds of a value and of all values inside it;
* `Json.Plain` — values without floating numbers;
* `Members.ofList_eq` — members that are in order stay as they are;
* `readValue_write` — a value in the middle of a text;
* `parse_bytes` — a value that is the whole text.
-/

namespace PubSub

namespace Json

mutual

/-- A property of a value and of all values inside it. -/
def Every (P : Json → Prop) : Json → Prop
  | arr items => P (arr items) ∧ EveryItem P items
  | obj members => P (obj members) ∧ EveryMember P members
  | null => P null
  | bool b => P (bool b)
  | int n => P (int n)
  | float x => P (float x)
  | str s => P (str s)

/-- The same for the items of an array. -/
def EveryItem (P : Json → Prop) : List Json → Prop
  | [] => True
  | v :: rest => v.Every P ∧ EveryItem P rest

/-- The same for the members of an object. -/
def EveryMember (P : Json → Prop) : List (String × Json) → Prop
  | [] => True
  | (_, v) :: rest => v.Every P ∧ EveryMember P rest

end

/-- What holds of all values inside holds of the value. -/
theorem Every.self {P : Json → Prop} {v : Json} (h : v.Every P) : P v := by
  cases v with
  | arr items => exact h.1
  | obj members => exact h.1
  | _ => exact h

/-- A value that can be: whole numbers fit 64 bits, signed or not, and
members are in order, each name once. -/
def Proper : Json → Prop
  | int n => -2 ^ 63 ≤ n ∧ n < 2 ^ 64
  | obj members => (members.map Prod.fst).Pairwise (· < ·)
  | _ => True

instance : DecidablePred Proper
  | int n => inferInstanceAs (Decidable (-2 ^ 63 ≤ n ∧ n < 2 ^ 64))
  | obj members => inferInstanceAs (Decidable ((members.map Prod.fst).Pairwise (· < ·)))
  | null | bool _ | float _ | str _ | arr _ => inferInstanceAs (Decidable True)

/-- A value that is no floating number. -/
def NoFloat : Json → Prop
  | float _ => False
  | _ => True

/-- A value that can be and is no floating number. -/
def Plain (v : Json) : Prop := v.Proper ∧ v.NoFloat

end Json

namespace Members

variable {α : Type} {members : List (String × α)} {name : String} {value : α}

/-- A member whose name comes after all others is put at the end. -/
theorem put_last (h : ∀ k ∈ members.map Prod.fst, k < name) :
    put name value members = members ++ [(name, value)] := by
  induction members with
  | nil => rfl
  | cons member members ih =>
      obtain ⟨k, v⟩ := member
      have hk : k < name := h k (by simp)
      have hne : name ≠ k := by
        rintro rfl
        exact String.lt_irrefl name hk
      rw [put, if_neg (String.lt_asymm hk), if_neg hne,
        ih fun k hk => h k (List.mem_cons_of_mem _ hk)]
      rfl

/-- Members in order, all of them beyond those that are there, are put behind. -/
theorem foldl_put_eq {before : List (String × α)}
    (hsorted : ((before ++ members).map Prod.fst).Pairwise (· < ·)) :
    members.foldl (fun sorted member => put member.1 member.2 sorted) before =
      before ++ members := by
  induction members generalizing before with
  | nil => simp
  | cons member members ih =>
      obtain ⟨k, v⟩ := member
      have hlast : ∀ k' ∈ before.map Prod.fst, k' < k := by
        rw [List.map_append, List.pairwise_append] at hsorted
        exact fun k' hk' => hsorted.2.2 k' hk' k (by simp)
      rw [List.append_cons] at hsorted ⊢
      rw [List.foldl_cons, put_last hlast]
      exact ih hsorted

/-- Members that are in order stay as they are. -/
theorem ofList_eq (h : (members.map Prod.fst).Pairwise (· < ·)) : ofList members = members :=
  foldl_put_eq h

end Members

namespace Json

open Utf8 (encode encode_append encode_cons)

/-- A byte that is no blank is where a reader is already. -/
theorem skipBlanks_cons {b : UInt8} (hb : isBlank b = false) (rest : Bytes) :
    skipBlanks (b :: rest) = b :: rest := by
  simp [skipBlanks, hb]

/-- A digit is none of the other bytes. -/
theorem ne_of_isDigit {b c : UInt8} (hb : Ascii.isDigit b = true) (hc : Ascii.isDigit c = false) :
    b ≠ c := by
  rintro rfl
  rw [hb] at hc
  cases hc

/-- A digit is no blank. -/
theorem isBlank_of_isDigit {b : UInt8} (hb : Ascii.isDigit b = true) : isBlank b = false := by
  have h1 : b ≠ 0x20 := ne_of_isDigit hb rfl
  have h2 : b ≠ 0x0A := ne_of_isDigit hb rfl
  have h3 : b ≠ 0x09 := ne_of_isDigit hb rfl
  have h4 : b ≠ 0x0D := ne_of_isDigit hb rfl
  simp [isBlank, h1, h2, h3, h4]

/-- The text of a value begins with a byte that begins a value, and not
with one that ends an array. -/
theorem write_lead {v : Json} (h : v.NoFloat) :
    ∃ b rest, encode v.write = b :: rest ∧ isBlank b = false ∧ b ≠ Ascii.closeBracket := by
  cases v with
  | null => exact ⟨_, _, rfl, rfl, by decide⟩
  | bool b => cases b <;> exact ⟨_, _, rfl, rfl, by decide⟩
  | int n =>
      cases n with
      | ofNat n =>
          obtain ⟨hall, ⟨b, rest, hlead, -⟩, -⟩ := digitBytes_writes n
          have hdigit : Ascii.isDigit b = true := hall b (by rw [hlead]; exact List.mem_cons_self)
          exact ⟨b, rest, hlead, isBlank_of_isDigit hdigit, ne_of_isDigit hdigit rfl⟩
      | negSucc n => exact ⟨_, _, rfl, rfl, by decide⟩
  | float x => exact h.elim
  | str s => exact ⟨_, _, rfl, rfl, by decide⟩
  | arr items => cases items <;> exact ⟨_, _, rfl, rfl, by decide⟩
  | obj members => cases members <;> exact ⟨_, _, rfl, rfl, by decide⟩

/-- The first item of an array begins where the reader is. -/
theorem nextItem_first {b : UInt8} (hb : isBlank b = false) (hclose : b ≠ Ascii.closeBracket)
    (rest : Bytes) : nextItem true (b :: rest) = .ok (b :: rest, true) := by
  simp [nextItem, skipBlanks_cons hb, hclose]

/-- Another item begins after a comma. -/
theorem nextItem_comma {b : UInt8} (hb : isBlank b = false) (hclose : b ≠ Ascii.closeBracket)
    (rest : Bytes) : nextItem false (Ascii.comma :: b :: rest) = .ok (b :: rest, true) := by
  have hcomma : Ascii.comma ≠ Ascii.closeBracket := by decide
  rw [nextItem, skipBlanks_cons rfl]
  simp [hcomma, skipBlanks_cons hb, hclose]

/-- The first name of an object begins where the reader is. -/
theorem nextName_first (rest : Bytes) :
    nextName true (Ascii.quote :: rest) = .ok (Ascii.quote :: rest, true) := by
  have hquote : Ascii.quote ≠ Ascii.closeBrace := by decide
  rw [nextName, skipBlanks_cons rfl]
  simp [hquote]

/-- Another name begins after a comma. -/
theorem nextName_comma (rest : Bytes) :
    nextName false (Ascii.comma :: Ascii.quote :: rest) = .ok (Ascii.quote :: rest, true) := by
  have hcomma : Ascii.comma ≠ Ascii.closeBrace := by decide
  rw [nextName, skipBlanks_cons rfl]
  simp [hcomma, skipBlanks_cons (b := Ascii.quote) rfl]

/-- The value of a member begins after the colon. -/
theorem readColon_colon (rest : Bytes) : readColon (Ascii.colon :: rest) = .ok rest := by
  rw [readColon, skipBlanks_cons rfl]
  simp

/-- A whole number that fits 64 bits is read back. -/
theorem readValue_int {n : Int} (hn : -2 ^ 63 ≤ n ∧ n < 2 ^ 64) (steps depth : Nat)
    {rest : Bytes} (h : EndsNumber rest) :
    readValue (steps + 1) depth (encode (writeInt n) ++ rest) = .ok (.int n, rest) := by
  cases n with
  | ofNat n =>
      have hfit : n < 2 ^ 64 := Int.ofNat_lt.mp hn.2
      have hread := readNumber_digits false hfit h
      obtain ⟨hall, ⟨b, more, hlead, -⟩, -⟩ := digitBytes_writes n
      have hdigit : Ascii.isDigit b = true := hall b (by rw [hlead]; exact List.mem_cons_self)
      change readValue (steps + 1) depth (digitBytes n ++ rest) = _
      rw [hlead, List.cons_append] at hread ⊢
      rw [readValue, skipBlanks_cons (isBlank_of_isDigit hdigit)]
      simp only [if_neg (ne_of_isDigit hdigit (c := Ascii.letterN) rfl),
        if_neg (ne_of_isDigit hdigit (c := Ascii.letterT) rfl),
        if_neg (ne_of_isDigit hdigit (c := Ascii.letterF) rfl),
        if_neg (ne_of_isDigit hdigit (c := Ascii.minus) rfl), hdigit, if_true, hread]
      rfl
  | negSucc n =>
      have hread := readNumber_digits true (n := n + 1) (by omega) h
      have hlead : encode (writeInt (.negSucc n)) = Ascii.minus :: digitBytes (n + 1) := rfl
      have hwhole : wholeNumber true (n + 1) = .int (.negSucc n) := by
        have hsize : n + 1 ≤ Nat.pow 2 63 := show n + 1 ≤ 2 ^ 63 by omega
        simp only [wholeNumber, Bool.not_true, Bool.false_eq_true, if_false, if_pos hsize,
          Nat.add_eq_zero_iff, one_ne_zero, and_false]
        rfl
      rw [hlead, List.cons_append, readValue, skipBlanks_cons rfl]
      simp only [hread, hwhole]
      rfl

/-- A string between quotes. -/
theorem readValue_quote {steps depth : Nat} {bs rest : Bytes} {s : String}
    (hread : readString bs = .ok (s, rest)) :
    readValue (steps + 1) depth (Ascii.quote :: bs) = .ok (.str s, rest) := by
  rw [readValue, skipBlanks_cons rfl]
  simp only [hread]
  rfl

/-- An array between brackets. -/
theorem readValue_bracket {steps depth : Nat} {bs rest : Bytes} {items : List Json}
    (hdepth : depth ≠ 0) (hread : readItems steps (depth - 1) true bs = .ok (items, rest)) :
    readValue (steps + 1) depth (Ascii.openBracket :: bs) = .ok (.arr items, rest) := by
  rw [readValue, skipBlanks_cons rfl]
  simp only [hread, if_neg hdepth]
  rfl

/-- An object between braces, with its members in order. -/
theorem readValue_brace {steps depth : Nat} {bs rest : Bytes} {members : List (String × Json)}
    (hdepth : depth ≠ 0) (hsorted : (members.map Prod.fst).Pairwise (· < ·))
    (hread : readMembers steps (depth - 1) true bs = .ok (members, rest)) :
    readValue (steps + 1) depth (Ascii.openBrace :: bs) = .ok (.obj members, rest) := by
  have hbuilt := Members.ofList_eq hsorted
  rw [readValue, skipBlanks_cons rfl]
  simp only [hread, if_neg hdepth]
  change Except.ok (Json.obj (Members.ofList members), rest) = _
  rw [hbuilt]

/-- An item and the items after it. -/
theorem readItems_cons {steps depth : Nat} {first : Bool} {bs rest rest' rest'' : Bytes}
    {v : Json} {items : List Json} (hnext : nextItem first bs = .ok (rest, true))
    (hvalue : readValue steps depth rest = .ok (v, rest'))
    (hitems : readItems steps depth false rest' = .ok (items, rest'')) :
    readItems (steps + 1) depth first bs = .ok (v :: items, rest'') := by
  rw [readItems, hnext]
  simp only [bind, Except.bind, hvalue, hitems]

/-- A member and the members after it. -/
theorem readMembers_cons {steps depth : Nat} {first : Bool} {bs body rest rest' rest'' : Bytes}
    {name : String} {v : Json} {members : List (String × Json)}
    (hnext : nextName first bs = .ok (Ascii.quote :: body, true))
    (hname : readString body = .ok (name, Ascii.colon :: rest))
    (hvalue : readValue steps depth rest = .ok (v, rest'))
    (hmembers : readMembers steps depth false rest' = .ok (members, rest'')) :
    readMembers (steps + 1) depth first bs = .ok ((name, v) :: members, rest'') := by
  rw [readMembers, hnext]
  simp only [bind, Except.bind, List.drop_one, List.tail_cons, hname, readColon_colon, hvalue,
    hmembers]

/-- A value is followed by a comma or by the end of what it is in. -/
theorem endsNumber_cons {b : UInt8} (hdigit : Ascii.isDigit b = false) (hpoint : b ≠ Ascii.point)
    (hmark : Ascii.isExponentMark b = false) (rest : Bytes) : EndsNumber (b :: rest) := by
  intro c hc
  cases hc
  exact ⟨hdigit, hpoint, hmark⟩

/-- What follows an item of an array. -/
theorem endsNumber_items (items : List Json) (rest : Bytes) :
    EndsNumber (encode (writeItems items) ++ rest) := by
  cases items <;> exact endsNumber_cons rfl (by decide) rfl _

/-- What follows a member of an object. -/
theorem endsNumber_members (members : List (String × Json)) (rest : Bytes) :
    EndsNumber (encode (writeMembers members) ++ rest) := by
  cases members <;> exact endsNumber_cons rfl (by decide) rfl _

/-- The bytes of a text that begins with an ASCII character. -/
theorem encode_ascii_cons {c : Char} (hc : c.toNat < 0x80) (cs : List Char) :
    encode (c :: cs) = UInt8.ofNat c.toNat :: encode cs := by
  rw [encode_cons, Utf8.encodeChar_of_ascii hc]
  rfl

/-- The bytes of an array with items. -/
theorem encode_write_arr (v : Json) (items : List Json) :
    encode (write (.arr (v :: items))) =
      Ascii.openBracket :: (encode v.write ++ encode (writeItems items)) := by
  rw [write, List.cons_append, encode_ascii_cons (by decide), encode_append]
  rfl

/-- The bytes of an item after others. -/
theorem encode_writeItems_cons (v : Json) (items : List Json) :
    encode (writeItems (v :: items)) =
      Ascii.comma :: (encode v.write ++ encode (writeItems items)) := by
  rw [writeItems, List.cons_append, encode_ascii_cons (by decide), encode_append]
  rfl

/-- The bytes of an object with members. -/
theorem encode_write_obj (k : String) (v : Json) (members : List (String × Json)) :
    encode (write (.obj ((k, v) :: members))) =
      Ascii.openBrace :: (encode (writeString k) ++
        (Ascii.colon :: (encode v.write ++ encode (writeMembers members)))) := by
  rw [write, List.cons_append, List.cons_append, encode_ascii_cons (by decide),
    encode_append, encode_append, encode_ascii_cons (by decide)]
  simp

/-- The bytes of a member after others. -/
theorem encode_writeMembers_cons (k : String) (v : Json) (members : List (String × Json)) :
    encode (writeMembers ((k, v) :: members)) =
      Ascii.comma :: (encode (writeString k) ++
        (Ascii.colon :: (encode v.write ++ encode (writeMembers members)))) := by
  rw [writeMembers, List.cons_append, List.cons_append, encode_ascii_cons (by decide),
    encode_append, encode_append, encode_ascii_cons (by decide)]
  simp

/-- The end of an array. -/
theorem readItems_close (steps depth : Nat) (first : Bool) (rest : Bytes) :
    readItems (steps + 1) depth first (Ascii.closeBracket :: rest) = .ok ([], rest) := by
  rw [readItems, nextItem, skipBlanks_cons rfl]
  rfl

/-- The end of an object. -/
theorem readMembers_close (steps depth : Nat) (first : Bool) (rest : Bytes) :
    readMembers (steps + 1) depth first (Ascii.closeBrace :: rest) = .ok ([], rest) := by
  rw [readMembers, nextName, skipBlanks_cons rfl]
  rfl

mutual

/-- A value is read back, if there are steps and levels enough. -/
theorem readValue_write : ∀ {v : Json}, v.Every Plain → ∀ {steps depth : Nat} {rest : Bytes},
    2 * (encode v.write).length ≤ steps + 1 → v.nesting ≤ depth → EndsNumber rest →
      readValue (steps + 1) depth (encode v.write ++ rest) = .ok (v, rest)
  | .null, _, _, _, _, _, _, _ => rfl
  | .bool true, _, _, _, _, _, _, _ => rfl
  | .bool false, _, _, _, _, _, _, _ => rfl
  | .int n, h, steps, depth, rest, hsteps, hdepth, hends => readValue_int h.1 steps depth hends
  | .float x, h, _, _, _, _, _, _ => h.2.elim
  | .str s, h, steps, depth, rest, hsteps, hdepth, hends => by
      obtain ⟨body, htext, hread⟩ := readString_writeString s rest
      rw [write, htext]
      exact readValue_quote hread
  | .arr [], h, steps, depth, rest, hsteps, hdepth, hends => by
      have htext : encode (write (.arr [])) = [Ascii.openBracket, Ascii.closeBracket] := rfl
      rw [htext] at hsteps ⊢
      simp only [nesting, nestingItems, List.length_cons, List.length_nil] at hdepth hsteps
      obtain ⟨s, rfl⟩ : ∃ s, steps = s + 1 := ⟨steps - 1, by omega⟩
      exact readValue_bracket (by omega) (readItems_close s _ true rest)
  | .arr (v :: items), h, steps, depth, rest, hsteps, hdepth, hends => by
      obtain ⟨-, hv, hitems⟩ := h
      obtain ⟨b, more, hlead, hblank, hclose⟩ := write_lead hv.self.2
      have hlength : 0 < (encode v.write).length := by simp [hlead]
      rw [encode_write_arr] at hsteps ⊢
      simp only [nesting, nestingItems, List.length_cons, List.length_append] at hdepth hsteps
      obtain ⟨s, rfl⟩ : ∃ s, steps = s + 1 + 1 := ⟨steps - 2, by omega⟩
      rw [List.cons_append, List.append_assoc]
      refine readValue_bracket (by omega) (readItems_cons ?_
        (readValue_write hv (by omega) (by omega) (endsNumber_items items rest))
        (readItems_write hitems (by omega) (by omega)))
      rw [hlead]
      exact nextItem_first hblank hclose _
  | .obj [], h, steps, depth, rest, hsteps, hdepth, hends => by
      have htext : encode (write (.obj [])) = [Ascii.openBrace, Ascii.closeBrace] := rfl
      rw [htext] at hsteps ⊢
      simp only [nesting, nestingMembers, List.length_cons, List.length_nil] at hdepth hsteps
      obtain ⟨s, rfl⟩ : ∃ s, steps = s + 1 := ⟨steps - 1, by omega⟩
      exact readValue_brace (by omega) List.Pairwise.nil (readMembers_close s _ true rest)
  | .obj ((k, v) :: members), h, steps, depth, rest, hsteps, hdepth, hends => by
      obtain ⟨⟨hsorted, -⟩, hv, hmembers⟩ := h
      rw [encode_write_obj] at hsteps ⊢
      simp only [nesting, nestingMembers, List.length_cons, List.length_append] at hdepth hsteps
      obtain ⟨s, rfl⟩ : ∃ s, steps = s + 1 + 1 := ⟨steps - 2, by omega⟩
      obtain ⟨body, hname, hread⟩ := readString_writeString k
        (Ascii.colon :: (encode v.write ++ (encode (writeMembers members) ++ rest)))
      rw [List.cons_append, List.append_assoc, List.cons_append, List.append_assoc, hname]
      exact readValue_brace (by omega) hsorted (readMembers_cons (nextName_first body) hread
        (readValue_write hv (by omega) (by omega) (endsNumber_members members rest))
        (readMembers_write hmembers (by omega) (by omega)))

/-- The items after the first are read back. -/
theorem readItems_write : ∀ {items : List Json}, EveryItem Plain items →
    ∀ {steps depth : Nat} {rest : Bytes}, 2 * (encode (writeItems items)).length ≤ steps + 1 →
      nestingItems items ≤ depth →
      readItems (steps + 1) depth false (encode (writeItems items) ++ rest) = .ok (items, rest)
  | [], _, steps, depth, rest, _, _ => readItems_close steps depth false rest
  | v :: items, h, steps, depth, rest, hsteps, hdepth => by
      obtain ⟨hv, hitems⟩ := h
      obtain ⟨b, more, hlead, hblank, hclose⟩ := write_lead hv.self.2
      have hlength : 0 < (encode v.write).length := by simp [hlead]
      rw [encode_writeItems_cons] at hsteps ⊢
      simp only [nestingItems, List.length_cons, List.length_append] at hdepth hsteps
      obtain ⟨s, rfl⟩ : ∃ s, steps = s + 1 := ⟨steps - 1, by omega⟩
      rw [List.cons_append, List.append_assoc]
      refine readItems_cons ?_
        (readValue_write hv (by omega) (by omega) (endsNumber_items items rest))
        (readItems_write hitems (by omega) (by omega))
      rw [hlead]
      exact nextItem_comma hblank hclose _

/-- The members after the first are read back. -/
theorem readMembers_write : ∀ {members : List (String × Json)}, EveryMember Plain members →
    ∀ {steps depth : Nat} {rest : Bytes}, 2 * (encode (writeMembers members)).length ≤ steps + 1 →
      nestingMembers members ≤ depth →
      readMembers (steps + 1) depth false (encode (writeMembers members) ++ rest) =
        .ok (members, rest)
  | [], _, steps, depth, rest, _, _ => readMembers_close steps depth false rest
  | (k, v) :: members, h, steps, depth, rest, hsteps, hdepth => by
      obtain ⟨hv, hmembers⟩ := h
      rw [encode_writeMembers_cons] at hsteps ⊢
      simp only [nestingMembers, List.length_cons, List.length_append] at hdepth hsteps
      obtain ⟨s, rfl⟩ : ∃ s, steps = s + 1 := ⟨steps - 1, by omega⟩
      obtain ⟨body, hname, hread⟩ := readString_writeString k
        (Ascii.colon :: (encode v.write ++ (encode (writeMembers members) ++ rest)))
      rw [List.cons_append, List.append_assoc, List.cons_append, List.append_assoc, hname]
      exact readMembers_cons (nextName_comma body) hread
        (readValue_write hv (by omega) (by omega) (endsNumber_members members rest))
        (readMembers_write hmembers (by omega) (by omega))

end

/-- A reader goes through a whole text if nothing but blanks is left. -/
theorem readAll_ok_iff {α : Type} {reader : Reader α} {text : Bytes} {a : α} :
    readAll reader text = .ok a ↔ ∃ rest, reader text = .ok (a, rest) ∧ skipBlanks rest = [] := by
  unfold readAll
  cases hread : reader text with
  | error fault => simp [bind, Except.bind, Except.mapError]
  | ok result =>
      obtain ⟨a', rest⟩ := result
      cases hrest : skipBlanks rest with
      | nil => simp [bind, Except.bind, Except.mapError, hrest]
      | cons b more => simp [bind, Except.bind, Except.mapError, hrest, failOn]

/-- **Round trip.**  A value whose numbers are whole and that is not nested
too deep is what its own text is read as. -/
theorem parse_bytes {v : Json} (h : v.Every Plain) (hdepth : v.nesting ≤ nestingLimit) :
    parse v.bytes = .ok v := by
  have hread : readValue (2 * v.bytes.length + 2) nestingLimit (encode v.write ++ []) =
      .ok (v, []) :=
    readValue_write h (by simp only [bytes]; omega) hdepth (by simp [EndsNumber])
  rw [List.append_nil] at hread
  exact readAll_ok_iff.mpr ⟨[], hread, rfl⟩

end Json
end PubSub
