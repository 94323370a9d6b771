import PubSub.Proofs.Json.Scalar

/-!
# Objects as they stand in a text

The text of an object is made of its members, with blanks wherever they may
be.  What a record reads from it depends on the names and the values of the
members alone, one after another, and not on the blanks or on how the names are
escaped.

* `Member`, `ObjectText` — objects as they stand in a text;
* `Shape.fill` — a record from names and values;
* `recordOfText_iff` — reading the text is filling the record;
* `exists_spells`, `exists_written` — every object that is read, and every one
  that is written, stands in its text so.
-/

namespace PubSub.Json

open Utf8 (encode)

variable {σ : Type}

/-- A member of an object as it stands in a text. -/
structure Member where
  /-- Blanks before the name. -/
  lead : Bytes
  /-- The name, from behind its opening quote up to and with its closing
  quote. -/
  quoted : Bytes
  /-- Blanks between the name and the colon. -/
  gap : Bytes
  /-- The value, with the blanks around it. -/
  value : Bytes
  /-- What the name is, once it is read. -/
  name : String
  blank_lead : Blanks lead
  blank_gap : Blanks gap
  reads_name : readString quoted = .ok (name, [])
  isValue : IsValue value

namespace Member

/-- The bytes of a member. -/
def bytes (m : Member) : Bytes :=
  m.lead ++ Ascii.quote :: (m.quoted ++ (m.gap ++ Ascii.colon :: m.value))

/-- The name and the value of a member. -/
def field (m : Member) : String × Bytes := (m.name, m.value)

end Member

/-- Members behind the first one, each behind its comma. -/
def laterMembers (members : List Member) : Bytes :=
  members.flatMap fun m => Ascii.comma :: m.bytes

@[simp] theorem laterMembers_cons (m : Member) (members : List Member) :
    laterMembers (m :: members) = Ascii.comma :: (m.bytes ++ laterMembers members) := rfl

/-- Members between the braces. -/
def joinMembers : List Member → Bytes
  | [] => []
  | m :: members => m.bytes ++ laterMembers members

/-- The text of an object. -/
structure ObjectText where
  /-- Blanks before the opening brace. -/
  before : Bytes
  members : List Member
  /-- Blanks before the closing brace. -/
  inside : Bytes
  /-- Blanks behind it. -/
  after : Bytes
  blank_before : Blanks before
  blank_inside : Blanks inside
  blank_after : Blanks after

namespace ObjectText

/-- The bytes of an object. -/
def bytes (o : ObjectText) : Bytes :=
  o.before ++ Ascii.openBrace ::
    (joinMembers o.members ++ (o.inside ++ Ascii.closeBrace :: o.after))

/-- The text is the text of this object. -/
def Spells (o : ObjectText) (text : String) : Prop := Utf8.ofString text = o.bytes

/-- The names and values of the members, in the order of the text. -/
def fields (o : ObjectText) : List (String × Bytes) := o.members.map Member.field

end ObjectText

/-- What a slot takes from the text of a value. -/
def Slot.take (slot : Slot σ) (draft : σ) (value : Bytes) : Option σ :=
  (slot.read draft value).toOption.map Prod.fst

/-- All members that are required have been seen. -/
def Shape.Complete (shape : Shape σ) (seen : List String) : Prop :=
  ∀ slot ∈ shape.slots, slot.required = true → slot.name ∈ seen

instance (shape : Shape σ) (seen : List String) : Decidable (shape.Complete seen) :=
  inferInstanceAs (Decidable (∀ slot ∈ shape.slots, slot.required = true → slot.name ∈ seen))

/-- A record from the names and values of members, one after another.  `seen`
holds the names that have a slot and came before. -/
def Shape.fill (shape : Shape σ) : (seen : List String) → σ → List (String × Bytes) → Option σ
  | seen, draft, [] =>
      if shape.Complete seen then some draft else none
  | seen, draft, (name, value) :: members =>
      match shape.slots.find? (·.name == name) with
      | none => shape.fill seen draft members
      | some slot =>
          if name ∈ seen then none
          else (slot.take draft value).bind fun next => shape.fill (name :: seen) next members

/-- All members of the record are strings or numbers. -/
def Shape.Scalar (shape : Shape σ) : Prop :=
  ∀ slot ∈ shape.slots, ∀ draft, ReadsScalars (slot.read draft)

variable {shape : Shape σ} {seen : List String} {draft final : σ} {rest : Bytes} {steps : Nat}

/-- Nothing is missing if all that is required was seen. -/
theorem find?_missing_iff :
    (shape.slots.find? fun s => s.required && !seen.contains s.name) = none ↔
      shape.Complete seen := by
  simp [List.find?_eq_none, Shape.Complete]

/-- What ends at a brace is closed if nothing is missing. -/
theorem readSlots_close_iff {blanks after : Bytes} (hblanks : Blanks blanks) (first : Bool) :
    readSlots shape (steps + 1) seen draft first (blanks ++ Ascii.closeBrace :: after) =
        .ok (final, rest) ↔
      shape.fill seen draft [] = some final ∧ rest = after := by
  have hnext : nextName first (blanks ++ Ascii.closeBrace :: after) =
      .ok (Ascii.closeBrace :: after, false) := by
    rw [nextName, hblanks.skip_cons rfl]
    rfl
  rw [readSlots, hnext, Shape.fill]
  simp only [bind, Except.bind]
  cases hmissing : shape.slots.find? fun s => s.required && !seen.contains s.name with
  | some slot =>
      have hincomplete : ¬shape.Complete seen := by
        rw [← find?_missing_iff, hmissing]
        exact Option.some_ne_none slot
      simp [hincomplete]
  | none =>
      have hcomplete : shape.Complete seen := find?_missing_iff.mp hmissing
      simp [hcomplete, eq_comm]

/-- The next name is found behind what may stand before it. -/
theorem Leads.nextName {first : Bool} {lead : Bytes} (h : Leads first lead) (body : Bytes) :
    nextName first (lead ++ Ascii.quote :: body) = .ok (Ascii.quote :: body, true) := by
  cases h with
  | first hblanks =>
      rw [Json.nextName, hblanks.skip_cons rfl]
      rfl
  | comma hbefore hafter =>
      have hclose : Ascii.comma ≠ Ascii.closeBrace := by decide
      have hquote : skipBlanks (_ ++ Ascii.quote :: body) = _ := hafter.skip_cons rfl body
      rw [List.append_assoc, List.cons_append, Json.nextName, hbefore.skip_cons rfl]
      simp only [if_neg hclose, hquote, reduceIte, Bool.false_eq_true]

/-- **One member is read**: it is passed over, or its slot takes its value, and
the others are read behind it. -/
theorem readSlots_member_iff (hshape : shape.Scalar) {first : Bool} {lead : Bytes}
    (hlead : Leads first lead) (m : Member) {blanks : Bytes}
    (hvalue : skipValue m.value = .ok blanks) {more : Bytes} (hends : EndsNumber (blanks ++ more)) :
    readSlots shape (steps + 1) seen draft first
        (lead ++ Ascii.quote :: (m.quoted ++ (m.gap ++ Ascii.colon :: (m.value ++ more)))) =
          .ok (final, rest) ↔
      match shape.slots.find? (·.name == m.name) with
      | none => readSlots shape steps seen draft false (blanks ++ more) = .ok (final, rest)
      | some slot => m.name ∉ seen ∧ ∃ next, slot.take draft m.value = some next ∧
          readSlots shape steps (m.name :: seen) next false (blanks ++ more) = .ok (final, rest) := by
  obtain ⟨-, quoted, hquoted, hname⟩ := of_readString m.reads_name
  rw [List.append_nil] at hquoted
  have hcolon (body : Bytes) : readColon (m.gap ++ Ascii.colon :: body) = .ok body :=
    readColon_iff.mpr ⟨m.gap, m.blank_gap, rfl⟩
  have hskip : skipValue (m.value ++ more) = .ok (blanks ++ more) := by
    obtain ⟨v, -, hv, hpass⟩ := of_skipValue hvalue
    rw [hv, List.append_assoc]
    exact hpass (blanks ++ more) hends
  rw [readSlots, hlead.nextName]
  simp only [bind, Except.bind, List.drop_one, List.tail_cons, hquoted, hname]
  cases hslot : shape.slots.find? (·.name == m.name) with
  | none => simp only [hcolon, hskip]
  | some slot =>
      have hreads := hshape slot (List.mem_of_find?_eq_some hslot) draft
      by_cases hseen : m.name ∈ seen
      · simp [hseen]
      -- the slot takes the same of the value as if it stood alone
      cases htake : slot.read draft m.value with
      | error fault =>
          have hfail : ∀ read, slot.read draft (m.value ++ more) ≠ .ok read := by
            rintro ⟨next, after⟩ hread
            have halone := ((hreads.append_iff hvalue hends).mp hread).1
            rw [htake] at halone
            cases halone
          cases hread : slot.read draft (m.value ++ more) with
          | error fault => simp [hseen, hcolon, hread, Slot.take, htake, Except.toOption]
          | ok read => exact absurd hread (hfail read)
      | ok read =>
          obtain ⟨next, after⟩ := read
          have hafter : after = blanks :=
            Except.ok.inj ((hreads.passes htake _).symm.trans hvalue)
          rw [hafter] at htake
          have hread := (hreads.append_iff hvalue hends).mpr ⟨htake, rfl⟩
          simp [hseen, hcolon, hread, Slot.take, htake, Except.toOption]

/-- What follows a value in an object does not go on with a number. -/
theorem endsNumber_later (members : List Member) {inside : Bytes} (hinside : Blanks inside)
    (after : Bytes) :
    EndsNumber (laterMembers members ++ (inside ++ Ascii.closeBrace :: after)) := by
  cases members with
  | nil => exact hinside.endsNumber (endsNumber_of_mark (.inr (.inl rfl)) after)
  | cons m members => exact endsNumber_of_mark (.inr (.inr rfl)) _

/-- A member and what is read behind it, from the names and values of the
members behind it. -/
theorem readSlots_cons_iff (hshape : shape.Scalar) {first : Bool} {lead : Bytes}
    (hlead : Leads first lead) (m : Member) (members : List Member) {inside after : Bytes}
    (hinside : Blanks inside)
    (hlater : ∀ {seen : List String} {draft : σ} {blanks : Bytes}, Blanks blanks →
      (readSlots shape steps seen draft false
          (blanks ++ (laterMembers members ++ (inside ++ Ascii.closeBrace :: after))) =
            .ok (final, rest) ↔
        shape.fill seen draft (members.map Member.field) = some final ∧ rest = after)) :
    readSlots shape (steps + 1) seen draft first
        (lead ++ Ascii.quote :: (m.quoted ++ (m.gap ++ Ascii.colon :: (m.value ++
          (laterMembers members ++ (inside ++ Ascii.closeBrace :: after)))))) =
          .ok (final, rest) ↔
      shape.fill seen draft ((m :: members).map Member.field) = some final ∧ rest = after := by
  obtain ⟨blanks, hvalue, hblanks⟩ := m.isValue
  have hends := hblanks.endsNumber (endsNumber_later members hinside after)
  rw [readSlots_member_iff hshape hlead m hvalue hends, List.map_cons, Member.field, Shape.fill]
  cases shape.slots.find? (·.name == m.name) with
  | none => exact hlater hblanks
  | some slot =>
      dsimp only
      by_cases hseen : m.name ∈ seen
      · simp [hseen]
      cases slot.take draft m.value with
      | none => simp [hseen]
      | some next => simpa [hseen] using hlater hblanks

/-- The members behind the first one are read from their names and values. -/
theorem readSlots_later_iff (hshape : shape.Scalar) (members : List Member)
    {blanks inside after : Bytes} (hblanks : Blanks blanks) (hinside : Blanks inside)
    (hsteps : members.length < steps) :
    readSlots shape steps seen draft false
        (blanks ++ (laterMembers members ++ (inside ++ Ascii.closeBrace :: after))) =
          .ok (final, rest) ↔
      shape.fill seen draft (members.map Member.field) = some final ∧ rest = after := by
  induction members generalizing steps seen draft blanks with
  | nil =>
      obtain ⟨steps, rfl⟩ : ∃ s, steps = s + 1 := ⟨steps - 1, by omega⟩
      rw [laterMembers, List.flatMap_nil, List.nil_append, ← List.append_assoc]
      exact readSlots_close_iff (hblanks.append hinside) false
  | cons m members ih =>
      obtain ⟨steps, rfl⟩ : ∃ s, steps = s + 1 := ⟨steps - 1, by omega⟩
      refine Iff.trans ?_ (readSlots_cons_iff hshape (.comma hblanks m.blank_lead) m members hinside
        fun hblanks => ih hblanks (Nat.lt_of_succ_lt_succ hsteps))
      simp [Member.bytes]

/-- Every member takes some bytes. -/
theorem length_joinMembers (members : List Member) :
    members.length ≤ (joinMembers members).length := by
  have hlater (members : List Member) : members.length ≤ (laterMembers members).length := by
    induction members with
    | nil => exact Nat.le_refl 0
    | cons m members ih =>
        simp only [laterMembers_cons, List.length_append, List.length_cons]
        omega
  cases members with
  | nil => exact Nat.le_refl 0
  | cons m members =>
      have hrest := hlater members
      simp only [joinMembers, Member.bytes, List.length_append, List.length_cons]
      omega

/-- All members between the braces. -/
theorem readSlots_join_iff (hshape : shape.Scalar) (members : List Member) {inside after : Bytes}
    (hinside : Blanks inside) (hsteps : members.length ≤ steps) :
    readSlots shape (steps + 1) seen draft true
        (joinMembers members ++ (inside ++ Ascii.closeBrace :: after)) = .ok (final, rest) ↔
      shape.fill seen draft (members.map Member.field) = some final ∧ rest = after := by
  cases members with
  | nil => exact readSlots_close_iff hinside true
  | cons m members =>
      refine Iff.trans ?_ (readSlots_cons_iff hshape (.first m.blank_lead) m members hinside
        fun hblanks => readSlots_later_iff hshape members hblanks hinside hsteps)
      simp [joinMembers, Member.bytes]

/-- **Reading an object is filling the record** with the values of its members,
by their names. -/
theorem recordOfText_iff (hshape : shape.Scalar) {o : ObjectText} {text : String}
    (h : o.Spells text) :
    recordOfText shape text = .ok final ↔ shape.fill [] shape.blank o.fields = some final := by
  have hlength : o.members.length ≤
      (joinMembers o.members ++ (o.inside ++ Ascii.closeBrace :: o.after)).length := by
    rw [List.length_append]
    exact Nat.le_add_right_of_le (length_joinMembers o.members)
  unfold recordOfText
  rw [readAll_ok_iff, h, ObjectText.bytes, readRecord, o.blank_before.skip_cons rfl]
  simp only [reduceIte, placedAt_ok, readSlots_join_iff hshape o.members o.blank_inside hlength]
  constructor
  · rintro ⟨rest, ⟨hfill, -⟩, -⟩
    exact hfill
  · intro hfill
    exact ⟨o.after, ⟨hfill, rfl⟩, skipBlanks_eq_nil.mpr o.blank_after⟩

/-- What was read of an object: its end, or a member, whose value could have
been passed over, and the others behind it. -/
theorem of_readSlots (hshape : shape.Scalar) {first : Bool} {bs : Bytes}
    (h : readSlots shape (steps + 1) seen draft first bs = .ok (final, rest)) :
    (∃ blanks, Blanks blanks ∧ bs = blanks ++ Ascii.closeBrace :: rest) ∨
      ∃ lead quoted gap body name after seen' next, Leads first lead ∧ Blanks gap ∧
        readString quoted = .ok (name, []) ∧ skipValue body = .ok after ∧
        bs = lead ++ Ascii.quote :: (quoted ++ (gap ++ Ascii.colon :: body)) ∧
        readSlots shape steps seen' next false after = .ok (final, rest) := by
  rw [readSlots] at h
  obtain ⟨⟨place, more⟩, hnext, hread⟩ := of_bind_ok h
  clear h
  rcases of_nextName hnext with ⟨rfl, blanks, after, hblanks, rfl, rfl⟩ |
    ⟨rfl, lead, body, hlead, rfl, rfl⟩
  · dsimp only at hread
    split at hread
    · cases hread
    · cases hread
      exact .inl ⟨blanks, hblanks, rfl⟩
  · obtain ⟨⟨name, behind⟩, hname, hread⟩ := of_bind_ok hread
    obtain ⟨-, quoted, hbody, hquoted⟩ := of_readString hname
    rw [List.drop_one, List.tail_cons] at hbody
    have hreads : readString quoted = .ok (name, []) := by
      have halone := hquoted []
      rwa [List.append_nil] at halone
    rw [hbody]
    refine .inr ?_
    dsimp only at hread
    split at hread
    · obtain ⟨value, hcolon, hread⟩ := of_bind_ok hread
      obtain ⟨after, hskip, hread⟩ := of_bind_ok hread
      obtain ⟨gap, hgap, hbehind⟩ := readColon_iff.mp hcolon
      rw [hbehind]
      exact ⟨lead, quoted, gap, value, name, after, _, _, hlead, hgap, hreads, hskip, rfl, hread⟩
    · rename_i slot hslot
      split at hread
      · cases hread
      obtain ⟨value, hcolon, hread⟩ := of_bind_ok hread
      obtain ⟨⟨next, after⟩, htake, hread⟩ := of_bind_ok hread
      obtain ⟨gap, hgap, hbehind⟩ := readColon_iff.mp hcolon
      have hskip := (hshape slot (List.mem_of_find?_eq_some hslot) draft).passes htake
      rw [hbehind]
      exact ⟨lead, quoted, gap, value, name, after, _, _, hlead, hgap, hreads, hskip _, rfl, hread⟩

/-- A member is cut off behind its value and the blanks that follow it. -/
theorem exists_member {lead quoted gap body blanks tail : Bytes} {name : String}
    (hlead : Blanks lead) (hgap : Blanks gap) (hname : readString quoted = .ok (name, []))
    (hskip : skipValue body = .ok (blanks ++ tail)) (hblanks : Blanks blanks) :
    ∃ m : Member,
      lead ++ Ascii.quote :: (quoted ++ (gap ++ Ascii.colon :: body)) = m.bytes ++ tail := by
  obtain ⟨v, -, rfl, hv⟩ := of_skipValue hskip
  have hvalue : IsValue (v ++ blanks) := ⟨blanks, hv blanks hblanks.ends, hblanks⟩
  exact ⟨⟨lead, quoted, gap, v ++ blanks, name, hlead, hgap, hname, hvalue⟩, by
    simp [Member.bytes]⟩

/-- The members behind the first one. -/
theorem exists_later (hshape : shape.Scalar) {bs : Bytes}
    (h : readSlots shape steps seen draft false bs = .ok (final, rest)) :
    ∃ blanks members inside, Blanks blanks ∧ Blanks inside ∧
      bs = blanks ++ (laterMembers members ++ (inside ++ Ascii.closeBrace :: rest)) := by
  induction steps generalizing seen draft bs with
  | zero => cases h
  | succ steps ih =>
      rcases of_readSlots hshape h with ⟨inside, hinside, rfl⟩ |
        ⟨lead, quoted, gap, body, name, after, _, _, hlead, hgap, hname, hskip, rfl, hread⟩
      · exact ⟨[], [], inside, blanks_nil, hinside, rfl⟩
      · obtain ⟨blanks, members, inside, hblanks, hinside, rfl⟩ := ih hread
        cases hlead with
        | comma hbefore hafter =>
            obtain ⟨m, hm⟩ := exists_member hafter hgap hname hskip hblanks
            refine ⟨_, m :: members, inside, hbefore, hinside, ?_⟩
            rw [List.append_assoc, List.cons_append, hm]
            simp

/-- All members. -/
theorem exists_join (hshape : shape.Scalar) {bs : Bytes}
    (h : readSlots shape (steps + 1) seen draft true bs = .ok (final, rest)) :
    ∃ members inside, Blanks inside ∧
      bs = joinMembers members ++ (inside ++ Ascii.closeBrace :: rest) := by
  rcases of_readSlots hshape h with ⟨inside, hinside, rfl⟩ |
    ⟨lead, quoted, gap, body, name, after, _, _, hlead, hgap, hname, hskip, rfl, hread⟩
  · exact ⟨[], inside, hinside, rfl⟩
  · obtain ⟨blanks, members, inside, hblanks, hinside, rfl⟩ := exists_later hshape hread
    cases hlead with
    | first hlead =>
        obtain ⟨m, hm⟩ := exists_member hlead hgap hname hskip hblanks
        refine ⟨m :: members, inside, hinside, ?_⟩
        rw [hm, joinMembers, List.append_assoc]

/-- The text begins like an object. -/
def BeginsObject (text : String) : Prop :=
  (skipBlanks (Utf8.ofString text)).head? = some Ascii.openBrace

/-- **Every object that is read** is made of members. -/
theorem exists_spells (hshape : shape.Scalar) {text : String}
    (h : recordOfText shape text = .ok final) (hbegins : BeginsObject text) :
    ∃ o : ObjectText, o.Spells text := by
  obtain ⟨after, hrecord, hafter⟩ := readAll_ok_iff.mp h
  unfold BeginsObject at hbegins
  unfold readRecord at hrecord
  split at hrecord
  · cases hrecord
  rename_i b body hbody
  rw [hbody, List.head?_cons, Option.some.injEq] at hbegins
  subst hbegins
  obtain ⟨before, hbefore, -, htext⟩ := of_skipBlanks hbody
  obtain ⟨members, inside, hinside, rfl⟩ := exists_join hshape (placedAt_ok.mp hrecord)
  exact ⟨⟨before, members, inside, after, hbefore, hinside, skipBlanks_eq_nil.mp hafter⟩, htext⟩

/-- A value that is written is the text of a value. -/
theorem isValue_bytes {v : Json} (h : v.Every Plain) (hdepth : v.nesting ≤ nestingLimit) :
    IsValue v.bytes :=
  isValue_of_parse (parse_bytes h hdepth)

/-- A member as it is written. -/
theorem exists_written_member (name : String) {v : Json} (h : IsValue v.bytes) :
    ∃ m : Member, m.bytes = encode (writeString name) ++ Ascii.colon :: v.bytes ∧
      m.field = (name, v.bytes) := by
  obtain ⟨quoted, hquoted, hname⟩ := readString_writeString name []
  rw [List.append_nil] at hquoted
  refine ⟨⟨[], quoted, [], v.bytes, name, blanks_nil, blanks_nil, hname, h⟩, ?_, rfl⟩
  simp [Member.bytes, hquoted]

/-- Members as they are written behind the first one. -/
theorem exists_written_later {members : List (String × Json)}
    (h : ∀ member ∈ members, IsValue member.2.bytes) :
    ∃ ms, encode (writeMembers members) = laterMembers ms ++ [Ascii.closeBrace] ∧
      ms.map Member.field = members.map fun member => (member.1, member.2.bytes) := by
  induction members with
  | nil => exact ⟨[], rfl, rfl⟩
  | cons member members ih =>
      obtain ⟨name, v⟩ := member
      obtain ⟨hfirst, hrest⟩ := List.forall_mem_cons.mp h
      obtain ⟨m, hbytes, hfield⟩ := exists_written_member name hfirst
      obtain ⟨ms, hlater, hfields⟩ := ih hrest
      refine ⟨m :: ms, ?_, by rw [List.map_cons, List.map_cons, hfield, hfields]⟩
      rw [encode_writeMembers_cons, hlater, laterMembers_cons, hbytes]
      simp [bytes]

/-- **An object that is written** stands in its text as its members. -/
theorem exists_written {members : List (String × Json)}
    (h : ∀ member ∈ members, IsValue member.2.bytes) :
    ∃ o : ObjectText, o.Spells (Json.obj members).text ∧
      o.fields = members.map fun member => (member.1, member.2.bytes) := by
  have hspells : ∃ ms, encode (write (.obj members)) =
      Ascii.openBrace :: (joinMembers ms ++ [Ascii.closeBrace]) ∧
        ms.map Member.field = members.map fun member => (member.1, member.2.bytes) := by
    cases members with
    | nil => exact ⟨[], rfl, rfl⟩
    | cons member members =>
        obtain ⟨name, v⟩ := member
        obtain ⟨hfirst, hrest⟩ := List.forall_mem_cons.mp h
        obtain ⟨m, hbytes, hfield⟩ := exists_written_member name hfirst
        obtain ⟨ms, hlater, hfields⟩ := exists_written_later hrest
        refine ⟨m :: ms, ?_, by rw [List.map_cons, List.map_cons, hfield, hfields]⟩
        rw [encode_write_obj, hlater, joinMembers, hbytes]
        simp [bytes]
  obtain ⟨ms, hbytes, hfields⟩ := hspells
  refine ⟨⟨[], ms, [], [], blanks_nil, blanks_nil, blanks_nil⟩, ?_, hfields⟩
  rw [ObjectText.Spells, Utf8.ofString, text, String.toList_ofList, hbytes]
  rfl

end PubSub.Json
