import PubSub.Proofs.Json.Unordered
import PubSub.Proofs.Message.Wire

/-!
# The members of a message

The fourteen members of a message are strings and numbers, and each has a place
of its own.  So it makes no difference in which order they stand, what stands
between them under other names, and whether an optional one that is empty is
left out or `null`.  The fields of the reading side are such other names: there
is no text that sets them.

* `requiredNames`, `optionalNames`, `wireNames` — the names that are read;
* `shape_regular`, `shape_independent` — the members do not depend on each
  other;
* `Rearranged` — changes that a message does not show;
* `ofWire_members` — what a message shows of its object, and what is refused.
-/

namespace PubSub.Message

open Json

/-- The names of the members that must be there. -/
def requiredNames : List String :=
  ["stream", "stream_version", "id", "source", "specversion", "type", "data", "time",
    "correlation_id", "causation_id"]

/-- The names of the members that may be left out. -/
def optionalNames : List String :=
  ["datacontenttype", "dataschema", "dataschemaversion", "subject"]

/-- All names of members that are read. -/
def wireNames : List String := requiredNames ++ optionalNames

/-- Data is read as a string. -/
theorem readsScalars_data : ReadsScalars readData := by
  refine readsScalars_text.made fun hread => ?_
  obtain ⟨⟨text, after⟩, htext, hdata⟩ := of_bind_ok hread
  dsimp only at hdata
  split at hdata
  · rename_i hdecoded
    cases hdata
    refine ⟨text, htext, fun hagain => ?_⟩
    simp only [readData, hagain, bind, Except.bind, hdecoded]
  · cases hdata

/-- Data is not `null`. -/
theorem readData_null {bs : Bytes} (h : IsNull bs) (read : Bytes × Bytes) :
    readData bs ≠ .ok read := by
  intro hread
  obtain ⟨text, htext, -⟩ := of_bind_ok hread
  exact readTextAs_null h text htext

/-- All members of a message are strings or numbers, and those that may be
left out may be `null`. -/
theorem shape_regular : ∀ slot ∈ shape.slots, slot.Regular blank := by
  have text (name : String) (set : Message → String → Message) :
      (Slot.of name true readText set).Regular blank :=
    regular_required readsScalars_text readTextAs_null
  simp only [shape, List.forall_mem_cons]
  exact ⟨text _ _, regular_required (readsScalars_unsigned "u32" 32) readUnsigned_null,
    text _ _, text _ _, text _ _, text _ _, regular_required readsScalars_data readData_null,
    regular_optional readsScalars_text rfl, regular_optional readsScalars_text rfl,
    regular_optional (readsScalars_unsigned "u32" 32) rfl,
    regular_required (readsScalars_textAs _ _) readTextAs_null,
    regular_optional readsScalars_text rfl, text _ _, text _ _, List.forall_mem_nil _⟩

/-- Each member of a message has a place of its own. -/
theorem shape_commutes : shape.slots.Pairwise Slot.Commutes := by
  simp only [shape, List.pairwise_cons, List.forall_mem_cons]
  repeat' apply And.intro
  all_goals first | exact commutes_of fun _ _ _ => rfl | simp

/-- **The members of a message do not depend on each other.** -/
theorem shape_independent : shape.Independent := Shape.independent_of shape_regular shape_commutes

/-- A required name has a slot that is required. -/
theorem exists_slot_required {name : String} (h : name ∈ requiredNames) :
    ∃ slot, shape.slots.find? (·.name == name) = some slot ∧ slot.required = true := by
  simp only [requiredNames, List.mem_cons, List.not_mem_nil, or_false] at h
  rcases h with rfl | rfl | rfl | rfl | rfl | rfl | rfl | rfl | rfl | rfl <;>
    exact ⟨_, rfl, rfl⟩

/-- An optional name has a slot. -/
theorem exists_slot_optional {name : String} (h : name ∈ optionalNames) :
    ∃ slot, shape.slots.find? (·.name == name) = some slot := by
  simp only [optionalNames, List.mem_cons, List.not_mem_nil, or_false] at h
  rcases h with rfl | rfl | rfl | rfl <;> exact ⟨_, rfl⟩

/-- Every name that is read has a slot. -/
theorem exists_slot {name : String} (h : name ∈ wireNames) :
    ∃ slot, shape.slots.find? (·.name == name) = some slot := by
  rcases List.mem_append.mp h with hrequired | hoptional
  · obtain ⟨slot, hslot, -⟩ := exists_slot_required hrequired
    exact ⟨slot, hslot⟩
  · exact exists_slot_optional hoptional

/-- Every slot has one of the names. -/
theorem name_mem_wireNames : ∀ slot ∈ shape.slots, slot.name ∈ wireNames := by
  simp [shape, Slot.of, wireNames, requiredNames, optionalNames]

/-- A slot with an optional name is not required. -/
theorem required_eq_false {name : String} (h : name ∈ optionalNames) :
    ∀ slot ∈ shape.slots, slot.name = name → slot.required = false := by
  have hall : ∀ slot ∈ shape.slots, slot.name ∈ optionalNames → slot.required = false := by
    simp [shape, Slot.of, optionalNames]
  rintro slot hslot rfl
  exact hall slot hslot h

/-- The members of two texts, by their names and values, differ in their order,
in members that are none of a message's, and in optional ones that are missing
in one text and `null` in the other. -/
inductive Rearranged : List (String × Bytes) → List (String × Bytes) → Prop
  | refl (members : List (String × Bytes)) : Rearranged members members
  | symm {members members' : List (String × Bytes)} (h : Rearranged members members') :
      Rearranged members' members
  | trans {members members' members'' : List (String × Bytes)} (h : Rearranged members members')
      (h' : Rearranged members' members'') : Rearranged members members''
  | reorder {members members' : List (String × Bytes)} (h : members.Perm members') :
      Rearranged members members'
  | foreign {name : String} (h : name ∉ wireNames) (value : Bytes)
      (before after : List (String × Bytes)) :
      Rearranged (before ++ after) (before ++ (name, value) :: after)
  | null {name : String} (h : name ∈ optionalNames) {value : Bytes} (hnull : IsNull value)
      (before after : List (String × Bytes))
      (habsent : name ∉ (before ++ after).map Prod.fst) :
      Rearranged (before ++ after) (before ++ (name, value) :: after)

/-- The same message is made of them, or none of either. -/
theorem Rearranged.fill {members members' : List (String × Bytes)}
    (h : Rearranged members members') :
    shape.fill [] blank members = shape.fill [] blank members' := by
  induction h with
  | refl => rfl
  | symm _ ih => exact ih.symm
  | trans _ _ ih ih' => exact ih.trans ih'
  | reorder hperm => exact fill_perm shape_independent hperm
  | @foreign name hname value before after =>
      have hnone : ∀ slot ∈ shape.slots, slot.name ≠ name := by
        rintro slot hslot rfl
        exact hname (name_mem_wireNames slot hslot)
      exact (fill_foreign shape_independent hnone before after).symm
  | null hname hnull _ _ habsent =>
      exact (fill_null shape_independent (required_eq_false hname) habsent hnull).symm

/-- A text of which no message can be made is refused. -/
theorem ofWire_error {o : ObjectText} {text : String} (h : o.Spells text)
    (hfill : shape.fill [] blank o.fields = none) : ∃ e, ofWire text = .error e := by
  cases hread : ofWire text with
  | error e => exact ⟨e, rfl⟩
  | ok m =>
      have hsome := (recordOfText_iff shape_independent.scalar h).mp hread
      rw [show shape.blank = blank from rfl, hfill] at hsome
      cases hsome

/-- **What a message shows of its object.**  No message that is read has a
field of the reading side.  Every object that is read as a message is made of
members, and whatever can be read as JSON can be the value of one.  Two objects
that differ in the order of their members, in members that are none of a
message's, and in optional ones that are missing or `null` are read as the same
message or both refused.  And an object is refused if one of the names is there
twice, if a required one is not there, or if it is `null`. -/
theorem ofWire_members :
    (∀ text m, ofWire text = .ok m → m.decoded = none ∧ m.group = none) ∧
      (∀ text m, ofWire text = .ok m → BeginsObject text → ∃ o : ObjectText, o.Spells text) ∧
      (∀ bs v, parse bs = .ok v → IsValue bs) ∧
      ∀ (o : ObjectText) (text : String), o.Spells text →
        (∀ (o' : ObjectText) (text' : String), o'.Spells text' → Rearranged o.fields o'.fields →
          ∀ m, ofWire text = .ok m ↔ ofWire text' = .ok m) ∧
        (∀ name ∈ wireNames, 1 < (o.fields.map Prod.fst).count name →
          ∃ e, ofWire text = .error e) ∧
        (∀ name ∈ requiredNames, name ∉ o.fields.map Prod.fst → ∃ e, ofWire text = .error e) ∧
        ∀ name ∈ requiredNames, ∀ value, (name, value) ∈ o.fields → IsNull value →
          ∃ e, ofWire text = .error e := by
  refine ⟨?_, ?_, fun _ _ => isValue_of_parse, fun o text htext => ⟨?_, ?_, ?_, ?_⟩⟩
  · intro text m hread
    have hm := ofWire_asRead hread
    exact ⟨hm.decoded, hm.group⟩
  · intro text m hread hbegins
    exact exists_spells shape_independent.scalar hread hbegins
  · intro o' text' htext' hchange m
    have hread : ofWire text = .ok m ↔ shape.fill [] blank o.fields = some m :=
      recordOfText_iff shape_independent.scalar htext
    have hread' : ofWire text' = .ok m ↔ shape.fill [] blank o'.fields = some m :=
      recordOfText_iff shape_independent.scalar htext'
    rw [hread, hread', hchange.fill]
  · intro name hname hcount
    obtain ⟨slot, hslot⟩ := exists_slot hname
    exact ofWire_error htext (fill_repeated shape_independent hslot hcount)
  · intro name hname hmissing
    obtain ⟨slot, hslot, hrequired⟩ := exists_slot_required hname
    obtain rfl : slot.name = name := by simpa using List.find?_some hslot
    exact ofWire_error htext (fill_missing (List.mem_of_find?_eq_some hslot) hrequired
      List.not_mem_nil hmissing)
  · intro name hname value hmem hnull
    obtain ⟨slot, hslot, hrequired⟩ := exists_slot_required hname
    exact ofWire_error htext (fill_required_null shape_independent hslot hrequired hmem hnull)

/-- The members of a message the other way round, behind some that are none of
a message's and one that is `null`. -/
def leapNightDressed : List (String × Json) :=
  ("decoded_data", .arr [.obj [("a", .null)]]) :: ("subject", .null) ::
    ("decoded_data", .int 7) :: ("group_name", .str "billing") :: leapNight.members.reverse

/-- The message is read from them as from its own members, and it is refused
with a second id, without any and with `null` instead. -/
theorem ofWire_members_dressed :
    ofWire (Json.obj leapNightDressed).text = .ok leapNight.onWire ∧
      (∃ e, ofWire (Json.obj (("id", .str "e1") :: leapNight.members)).text = .error e) ∧
      (∃ e, ofWire (Json.obj leapNight.members.tail).text = .error e) ∧
      ∃ e, ofWire (Json.obj (("id", .null) :: leapNight.members)).text = .error e := by
  have hvalue {v : Json} (h : v.Every Plain) (hdepth : v.nesting ≤ 2) : IsValue v.bytes :=
    isValue_bytes h (Nat.le_trans hdepth (by decide))
  have hmembers : ∀ member ∈ leapNight.members, IsValue member.2.bytes := by
    intro member hmember
    have hplain : ∀ member ∈ leapNight.members, member.2.Every Plain ∧ member.2.nesting ≤ 2 := by
      simp [members, optionalMember, leapNight, Every, Plain, Proper, NoFloat, nesting]
    exact hvalue (hplain member hmember).1 (hplain member hmember).2
  have hnull : IsValue Json.null.bytes := hvalue ⟨trivial, trivial⟩ (by decide)
  have hdressed : ∀ member ∈ leapNightDressed, IsValue member.2.bytes := by
    simp only [leapNightDressed, List.forall_mem_cons, List.mem_reverse]
    refine ⟨hvalue ?_ ?_, hnull, hvalue ?_ ?_, hvalue ?_ ?_, hmembers⟩
    all_goals simp [Every, EveryItem, EveryMember, Plain, Proper, NoFloat, nesting, nestingItems,
      nestingMembers]
  obtain ⟨o, htext, hfields⟩ := exists_written hmembers
  obtain ⟨dressed, hdressedText, hdressedFields⟩ := exists_written hdressed
  obtain ⟨twice, htwiceText, htwiceFields⟩ := exists_written <| List.forall_mem_cons.mpr
    ⟨hmembers ("id", .str "e1") (by simp [members, leapNight]), hmembers⟩
  obtain ⟨without, hwithoutText, hwithoutFields⟩ := exists_written fun member hmember =>
    hmembers member (List.mem_of_mem_tail hmember)
  obtain ⟨nulled, hnulledText, hnulledFields⟩ := exists_written <| List.forall_mem_cons.mpr
    ⟨(show IsValue ("id", Json.null).2.bytes from hnull), hmembers⟩
  have hread : ofWire leapNight.wire = .ok leapNight.onWire :=
    ofWire_wire ⟨by decide, by simp [leapNight], by decide⟩ ⟨by decide, by decide⟩
  have hisNull : IsNull Json.null.bytes := ⟨[], [], blanks_nil, blanks_nil, rfl⟩
  have hchange : Rearranged o.fields dressed.fields := by
    rw [hfields, hdressedFields]
    simp only [leapNightDressed, List.map_cons, List.map_reverse]
    have hforeign {name : String} (h : name ∉ wireNames) (value : Bytes)
        (members : List (String × Bytes)) : Rearranged members ((name, value) :: members) :=
      .foreign h value [] members
    have hsubject (members : List (String × Bytes)) (h : "subject" ∉ members.map Prod.fst) :
        Rearranged members (("subject", Json.null.bytes) :: members) :=
      .null (by decide) hisNull [] members h
    refine .trans ?_ (hforeign (by decide) _ _)
    refine .trans ?_ (hsubject _ (by decide))
    refine .trans ?_ (hforeign (by decide) _ _)
    refine .trans ?_ (hforeign (by decide) _ _)
    exact .reorder (List.reverse_perm _).symm
  obtain ⟨hfields, hspelled, hvalues, hlaw⟩ := ofWire_members
  refine ⟨?_, ?_, ?_, ?_⟩
  · exact ((hlaw o _ htext).1 dressed _ hdressedText hchange _).mp hread
  · exact (hlaw twice _ htwiceText).2.1 "id" (by decide) (by rw [htwiceFields]; decide)
  · exact (hlaw without _ hwithoutText).2.2.1 "stream" (by decide) (by rw [hwithoutFields]; decide)
  · refine (hlaw nulled _ hnulledText).2.2.2 "id" (by decide) _ ?_ hisNull
    rw [hnulledFields]
    exact List.mem_cons_self

end PubSub.Message
