import Mathlib.Data.List.Basic
import PubSub.Declaration.Expansion
import PubSub.Proofs.Outcome

/-!
# Which declarations expand, and to what

Reading the attributes of a declaration stops at the first thing that is
wrong.  Here all that is wrong is listed, in the order in which it is written:
the attributes on the declaration first, then those on its fields.  A
declaration expands if the list is empty, and otherwise the first flaw of the
list is the error.

* `Declaration.flaws` — all that is wrong;
* `KeysInForm`, `SubjectsInForm`, `flaws_eq_nil_iff` — the grammar;
* `binding_eq_verdict` — reading finds the first flaw, the last key and the
  marked field;
* `Declaration.expand_decides` — the law.
-/

namespace PubSub

namespace Declaration

/-- The entries of an attribute, none if it is no list. -/
def entries (attr : Attribute) : List Entry :=
  match attr.form with
  | .list entries => entries
  | .path | .nameValue => []

/-- What is wrong with an attribute that is no list, and with the entries of
one that is. -/
def flawsOf (entryFlaws : Entry → List Flaw) (attr : Attribute) : List Flaw :=
  match attr.form with
  | .list entries => entries.flatMap entryFlaws
  | .path => [.expectedArguments]
  | .nameValue => [.expectedParentheses]

/-- An entry on the declaration is a key that is set to a text. -/
def keyFlaws : Entry → List Flaw
  | .named path value =>
      if path = "key" then
        match value with
        | .text _ => []
        | .crowded _ => [.expectedComma]
        | .number => [.expectedText]
        | .missing => [.endedBeforeText]
        | .absent | .nested => [.expectedEquals]
      else [.expectedKey]
  | .unnamed found => [.unnamed found]
  | .broken found => [.broken found]

/-- An entry on a field is the word for the subject, and nothing else. -/
def subjectFlaws : Entry → List Flaw
  | .named path value =>
      if path = "subject" then
        if value = .absent then [] else [.expectedComma]
      else [.expectedSubject]
  | .unnamed found => [.unnamed found]
  | .broken found => [.broken found]

/-- Does the attribute mark its field? -/
def hasEntry (attr : Attribute) : Bool := !(entries attr).isEmpty

/-- What is wrong with the attributes of fields, once one has marked its field
or not.  An attribute that marks a field when another one has is wrong as a
whole, after its entries. -/
def markFlaws : (marked : Bool) → List Attribute → List Flaw
  | _, [] => []
  | marked, attr :: attrs =>
      flawsOf subjectFlaws attr ++ (if marked && hasEntry attr then [.secondSubject] else [])
        ++ markFlaws (marked || hasEntry attr) attrs

/-- The attributes of the fields that are meant for us, with the members that
stand for the fields. -/
def marks (d : Declaration) : List (String × Attribute) :=
  d.members.flatMap fun (member, field) =>
    (streamAttributes field.attributes).map (member, ·)

/-- All that is wrong, in the order in which it is written. -/
def flaws (d : Declaration) : List Flaw :=
  (streamAttributes d.attributes).flatMap (flawsOf keyFlaws)
    ++ markFlaws false (d.marks.map Prod.snd)

/-- The text that an entry is set to, if it is. -/
def textOf? : Entry → Option String
  | .named _ (.text s) => some s
  | _ => none

/-- The keys that are given on the declaration. -/
def keyTexts (d : Declaration) : List String :=
  ((streamAttributes d.attributes).flatMap entries).filterMap textOf?

/-- Entries are gone through once the attribute is known to be a list. -/
theorem entriesOf_bind {β : Type} {entryFlaws : Entry → List Flaw}
    {next : List Entry → Except Flaw β} {attr : Attribute} {b : β}
    (h : next (entries attr) = verdict ((entries attr).flatMap entryFlaws) b) :
    entriesOf attr >>= next = verdict (flawsOf entryFlaws attr) b := by
  unfold entriesOf flawsOf
  unfold entries at h
  cases hform : attr.form with
  | list entries =>
      rw [hform] at h
      exact h
  | path => rfl
  | nameValue => rfl

theorem keyOf_eq (entry : Entry) :
    keyOf entry = verdict (keyFlaws entry) ((textOf? entry).getD "") := by
  cases entry with
  | unnamed found => rfl
  | broken found => rfl
  | named path value =>
      by_cases hpath : path = "key"
      · simp only [keyOf, keyFlaws, hpath, ne_eq, not_true_eq_false, if_false, if_true]
        cases value <;> rfl
      · simp only [keyOf, keyFlaws, hpath, ne_eq, not_false_eq_true, if_true, if_false]
        rfl

theorem keyFlaws_eq_nil_iff {entry : Entry} :
    keyFlaws entry = [] ↔ ∃ s, entry = .named "key" (.text s) := by
  cases entry with
  | unnamed found => simp [keyFlaws]
  | broken found => simp [keyFlaws]
  | named path value =>
      unfold keyFlaws
      by_cases hpath : path = "key"
      · cases value <;> simp [hpath]
      · simp [hpath]

/-- Without flaws, every entry has a text. -/
theorem textOf?_of_flawless {entry : Entry} (h : keyFlaws entry = []) :
    ∃ s, textOf? entry = some s := by
  obtain ⟨s, rfl⟩ := keyFlaws_eq_nil_iff.mp h
  exact ⟨s, rfl⟩

/-- Without flaws, the texts of the entries are the texts that there are. -/
theorem texts_of_flawless {es : List Entry} (h : es.flatMap keyFlaws = []) :
    es.map (fun entry => (textOf? entry).getD "") = es.filterMap textOf? := by
  induction es with
  | nil => rfl
  | cons entry es ih =>
      rw [List.flatMap_cons, List.append_eq_nil_iff] at h
      obtain ⟨s, hs⟩ := textOf?_of_flawless h.1
      rw [List.map_cons, ih h.2, List.filterMap_cons, hs]
      rfl

/-- The key is the last of the texts, or there is a flaw. -/
theorem key?_eq_verdict (d : Declaration) :
    d.key? = verdict ((streamAttributes d.attributes).flatMap (flawsOf keyFlaws))
      d.keyTexts.getLast? := by
  have hattr : ∀ attr, (entriesOf attr >>= fun es => es.mapM keyOf) =
      verdict (flawsOf keyFlaws attr) ((entries attr).filterMap textOf?) := by
    intro attr
    refine entriesOf_bind ?_
    rw [mapM_verdict keyOf_eq]
    exact verdict_congr texts_of_flawless
  unfold key?
  rw [mapM_verdict hattr]
  refine verdict_bind_ok ?_
  rw [keyTexts, List.filterMap_flatMap, List.flatMap_def]

theorem checkSubject_eq (entry : Entry) :
    checkSubject entry = verdict (subjectFlaws entry) () := by
  cases entry with
  | unnamed found => rfl
  | broken found => rfl
  | named path value =>
      unfold checkSubject subjectFlaws
      by_cases hpath : path = "subject"
      · by_cases hvalue : value = .absent <;> simp [hpath, hvalue, verdict]
      · simp [hpath, verdict]

theorem marksSubject_eq (attr : Attribute) :
    marksSubject attr = verdict (flawsOf subjectFlaws attr) (hasEntry attr) := by
  refine entriesOf_bind ?_
  rw [forM_verdict checkSubject_eq]
  exact verdict_bind_ok rfl

/-- One more attribute: its own flaws come first, then that it is the second
mark. -/
theorem addMark_eq (member : String) (subject : Option String) (attr : Attribute) :
    addMark member subject attr =
      verdict (flawsOf subjectFlaws attr
          ++ if subject.isSome && hasEntry attr then [.secondSubject] else [])
        (if hasEntry attr then some member else subject) := by
  unfold addMark
  rw [marksSubject_eq]
  refine verdict_bind fun _ => ?_
  cases hasEntry attr with
  | false => simp [verdict]
  | true => cases subject <;> rfl

/-- The members that are marked. -/
def markedBy (marks : List (String × Attribute)) : List String :=
  (marks.filter fun (_, attr) => hasEntry attr).map Prod.fst

/-- Reading the marks stops at the first flaw, or finds the first mark. -/
theorem foldlM_addMark (marks : List (String × Attribute)) (subject : Option String) :
    marks.foldlM (fun subject mark => addMark mark.1 subject mark.2) subject =
      verdict (markFlaws subject.isSome (marks.map Prod.snd))
        (subject.toList ++ markedBy marks).head? := by
  induction marks generalizing subject with
  | nil => cases subject <;> rfl
  | cons mark marks ih =>
      obtain ⟨member, attr⟩ := mark
      rw [List.foldlM_cons, addMark_eq, List.map_cons, markFlaws]
      have hmarked : (if hasEntry attr then some member else subject).isSome =
          (subject.isSome || hasEntry attr) := by
        cases hasEntry attr <;> simp
      have hrest := ih (if hasEntry attr then some member else subject)
      rw [hmarked] at hrest
      refine Eq.trans (b := verdict _ ((if hasEntry attr then some member else subject).toList
        ++ markedBy marks).head?) (verdict_bind fun _ => hrest) (verdict_congr fun hflawless => ?_)
      -- a mark after another one would have been a flaw
      cases hattr : hasEntry attr with
      | false => simp [markedBy, hattr]
      | true =>
          cases subject with
          | none => simp [markedBy, hattr]
          | some s => simp [hattr] at hflawless

/-- The fields one by one are their attributes one by one. -/
theorem subject?_eq_foldlM (d : Declaration) :
    d.subject? = d.marks.foldlM (fun subject mark => addMark mark.1 subject mark.2) none := by
  unfold subject? marks
  generalize (none : Option String) = subject
  induction d.members generalizing subject with
  | nil => rfl
  | cons field fields ih =>
      obtain ⟨member, field⟩ := field
      rw [List.foldlM_cons, List.flatMap_cons, List.foldlM_append, List.foldlM_map]
      exact bind_congr fun subject => ih subject

/-- The members that are marked as the subject. -/
def marked (d : Declaration) : List String := markedBy d.marks

theorem subject?_eq_verdict (d : Declaration) :
    d.subject? = verdict (markFlaws false (d.marks.map Prod.snd)) d.marked.head? := by
  rw [subject?_eq_foldlM, foldlM_addMark]
  rfl

/-- **Reading stops at the first flaw** of all that are there, and otherwise
finds the last key and the marked member. -/
theorem binding_eq_verdict (d : Declaration) :
    d.binding = verdict d.flaws ⟨d.keyTexts.getLast?, d.marked.head?⟩ := by
  unfold binding
  rw [key?_eq_verdict, subject?_eq_verdict]
  exact verdict_bind fun _ => verdict_bind_ok rfl

/-- Every attribute on the declaration that is meant for us is a list of keys
that are set to texts. -/
def KeysInForm (d : Declaration) : Prop :=
  ∀ attr ∈ d.attributes, attr.path = "stream" →
    ∃ es, attr.form = .list es ∧ ∀ entry ∈ es, ∃ s, entry = .named "key" (.text s)

/-- A structure whose fields have names or positions.  A unit has no fields,
and what an alternative or a union holds is no field of the type. -/
def HasFields (d : Declaration) : Prop := d.kind = .named ∨ d.kind = .tuple

/-- The attributes of the fields that are meant for us. -/
def fieldAttributes (d : Declaration) : List Attribute :=
  d.fields.flatMap fun field => streamAttributes field.attributes

/-- Every one of them is a list of bare marks, and at most one has any. -/
def SubjectsInForm (d : Declaration) : Prop :=
  (∀ field ∈ d.fields, ∀ attr ∈ field.attributes, attr.path = "stream" →
    ∃ es, attr.form = .list es ∧ ∀ entry ∈ es, entry = .named "subject" .absent) ∧
  (d.fieldAttributes.filter hasEntry).length ≤ 1

theorem mem_streamAttributes {attr : Attribute} {attrs : List Attribute} :
    attr ∈ streamAttributes attrs ↔ attr ∈ attrs ∧ attr.path = "stream" := by
  simp [streamAttributes]

/-- An attribute without flaws is a list of entries without flaws. -/
theorem flawsOf_eq_nil_iff {entryFlaws : Entry → List Flaw} {attr : Attribute} :
    flawsOf entryFlaws attr = [] ↔
      ∃ es, attr.form = .list es ∧ ∀ entry ∈ es, entryFlaws entry = [] := by
  unfold flawsOf
  cases attr.form with
  | list es => simp [List.flatMap_eq_nil_iff]
  | path => simp
  | nameValue => simp

theorem subjectFlaws_eq_nil_iff {entry : Entry} :
    subjectFlaws entry = [] ↔ entry = .named "subject" .absent := by
  cases entry with
  | unnamed found => simp [subjectFlaws]
  | broken found => simp [subjectFlaws]
  | named path value =>
      unfold subjectFlaws
      by_cases hpath : path = "subject"
      · by_cases hvalue : value = .absent <;> simp [hpath, hvalue]
      · simp [hpath]

/-- The attributes of fields have no flaws if each of them has none and at most
one of them marks its field. -/
theorem markFlaws_eq_nil_iff (marked : Bool) (attrs : List Attribute) :
    markFlaws marked attrs = [] ↔
      (∀ attr ∈ attrs, flawsOf subjectFlaws attr = []) ∧
        marked.toNat + (attrs.filter hasEntry).length ≤ 1 := by
  induction attrs generalizing marked with
  | nil => simp [markFlaws, Bool.toNat_le]
  | cons attr attrs ih =>
      rw [markFlaws, List.append_eq_nil_iff, List.append_eq_nil_iff, ih, List.forall_mem_cons,
        List.filter_cons]
      cases hattr : hasEntry attr with
      | false => simp [and_assoc]
      | true =>
          cases marked with
          | false => simp [and_assoc, Nat.add_comm 1]
          | true => simp

/-- The fields that are looked at are all that there are, if the type has
any. -/
theorem members_of_hasFields {d : Declaration} (h : d.HasFields) :
    d.members.map Prod.snd = d.fields := by
  unfold members
  rcases h with hkind | hkind
  · rw [hkind]
    simp [Function.comp_def]
  · rw [hkind]
    refine List.ext_getElem? fun i => ?_
    simp [Function.comp_def]

theorem members_of_no_fields {d : Declaration} (h : ¬d.HasFields) : d.members = [] := by
  unfold members
  cases hkind : d.kind with
  | named => exact absurd (.inl hkind) h
  | tuple => exact absurd (.inr hkind) h
  | unit => rfl
  | enum => rfl
  | union => rfl

/-- So are their attributes. -/
theorem marks_of_hasFields {d : Declaration} (h : d.HasFields) :
    d.marks.map Prod.snd = d.fieldAttributes := by
  rw [fieldAttributes, ← members_of_hasFields h, marks, List.map_flatMap, List.flatMap_map]
  simp [Function.comp_def]

theorem marks_of_no_fields {d : Declaration} (h : ¬d.HasFields) : d.marks = [] := by
  rw [marks, members_of_no_fields h]
  rfl

/-- **Nothing is wrong just when the declaration keeps to the grammar.** -/
theorem flaws_eq_nil_iff (d : Declaration) :
    d.flaws = [] ↔ d.KeysInForm ∧ (d.HasFields → d.SubjectsInForm) := by
  have hkeys : (streamAttributes d.attributes).flatMap (flawsOf keyFlaws) = [] ↔ d.KeysInForm := by
    simp only [List.flatMap_eq_nil_iff, mem_streamAttributes, and_imp, flawsOf_eq_nil_iff,
      keyFlaws_eq_nil_iff, KeysInForm]
  have hsubjects : markFlaws false (d.marks.map Prod.snd) = [] ↔
      (d.HasFields → d.SubjectsInForm) := by
    by_cases h : d.HasFields
    · rw [marks_of_hasFields h, markFlaws_eq_nil_iff]
      simp only [h, true_imp_iff, SubjectsInForm, fieldAttributes, List.mem_flatMap,
        mem_streamAttributes, flawsOf_eq_nil_iff, subjectFlaws_eq_nil_iff, Bool.toNat_false,
        Nat.zero_add]
      refine and_congr_left fun _ => ?_
      constructor
      · intro hall field hfield attr hattr hpath
        exact hall attr ⟨field, hfield, hattr, hpath⟩
      · rintro hall attr ⟨field, hfield, hattr, hpath⟩
        exact hall field hfield attr hattr hpath
    · rw [marks_of_no_fields h]
      simp [h, markFlaws]
  rw [flaws, List.append_eq_nil_iff, hkeys, hsubjects]

/-- The word for a field in an expression: its name, or its position. -/
def memberName (d : Declaration) (i : Nat) (field : DeclaredField) : String :=
  if d.kind = .tuple then toString i else field.name

/-- The word stands for a field of the type that an attribute marks. -/
def Marks (d : Declaration) (member : String) : Prop :=
  d.HasFields ∧ ∃ i field, d.fields[i]? = some field ∧ member = d.memberName i field ∧
    ∃ attr ∈ field.attributes, attr.path = "stream" ∧ hasEntry attr = true

/-- The members are the fields under their words. -/
theorem mem_members {d : Declaration} {member : String} {field : DeclaredField} :
    (member, field) ∈ d.members ↔
      d.HasFields ∧ ∃ i, d.fields[i]? = some field ∧ member = d.memberName i field := by
  unfold members HasFields memberName
  cases hkind : d.kind with
  | named =>
      simp only [List.mem_map, Prod.mk.injEq, reduceCtorEq, or_false, true_and, if_false]
      constructor
      · rintro ⟨_, hfield, rfl, rfl⟩
        obtain ⟨i, hi⟩ := List.mem_iff_getElem?.mp hfield
        exact ⟨i, hi, rfl⟩
      · rintro ⟨i, hi, rfl⟩
        exact ⟨field, List.mem_of_getElem? hi, rfl, rfl⟩
  | tuple =>
      simp only [List.mem_mapIdx, Prod.mk.injEq, reduceCtorEq, false_or, true_and, if_true]
      constructor
      · rintro ⟨i, hi, rfl, rfl⟩
        exact ⟨i, List.getElem?_eq_getElem hi, rfl⟩
      · rintro ⟨i, hi, rfl⟩
        obtain ⟨hlt, hfield⟩ := List.getElem?_eq_some_iff.mp hi
        exact ⟨i, hlt, rfl, hfield⟩
  | unit => simp
  | enum => simp
  | union => simp

/-- The marked members are the words of marked fields. -/
theorem mem_marked {d : Declaration} {member : String} : member ∈ d.marked ↔ d.Marks member := by
  have hmark : ∀ attr, (member, attr) ∈ d.marks ↔
      ∃ field, (member, field) ∈ d.members ∧ attr ∈ field.attributes ∧ attr.path = "stream" := by
    simp [marks, mem_streamAttributes]
  simp only [marked, markedBy, List.mem_map, List.mem_filter, Prod.exists, exists_and_right,
    exists_eq_right, hmark, mem_members, Marks]
  constructor
  · rintro ⟨attr, ⟨field, ⟨hfields, i, hi, hmember⟩, hattr, hpath⟩, hentry⟩
    exact ⟨hfields, i, field, hi, hmember, attr, hattr, hpath, hentry⟩
  · rintro ⟨hfields, i, field, hi, hmember, attr, hattr, hpath, hentry⟩
    exact ⟨attr, ⟨field, ⟨hfields, i, hi, hmember⟩, hattr, hpath⟩, hentry⟩

/-- Without flaws, there is at most one. -/
theorem length_marked_le {d : Declaration} (h : d.flaws = []) : d.marked.length ≤ 1 := by
  obtain ⟨-, hmarks⟩ := List.append_eq_nil_iff.mp h
  have hfew := ((markFlaws_eq_nil_iff false _).mp hmarks).2
  rw [marked, markedBy, List.length_map]
  rw [List.filter_map, List.length_map, Bool.toNat_false, Nat.zero_add] at hfew
  exact hfew

/-- So the first one is the only one. -/
theorem head?_marked_iff {d : Declaration} (h : d.flaws = []) {member : String} :
    d.marked.head? = some member ↔ d.Marks member := by
  rw [← mem_marked]
  have hfew := length_marked_le h
  cases hmarked : d.marked with
  | nil => simp
  | cons first rest =>
      rw [hmarked, List.length_cons] at hfew
      obtain rfl : rest = [] := List.eq_nil_of_length_eq_zero (by omega)
      simp [eq_comm]

/-- A declaration expands to its key and its subject, or to its first flaw. -/
theorem expand_eq_verdict (d : Declaration) (parameters : List String) :
    d.expand parameters = verdict d.flaws
      ⟨(d.keyTexts.getLast?.map KeyExpression.literal).getD (.qualified d.name), d.marked.head?,
        parameters.map Parameter.ofText⟩ := by
  unfold expand
  rw [binding_eq_verdict]
  exact verdict_bind_ok rfl

/-- **A declaration expands just when it keeps to the grammar.**  Its key is
then the last that is given, or the path of the module and its name; and its
subject is the one field that is marked, by its name or its position, if there
is one.  Otherwise the error is the first of all that is wrong, the attributes
on the declaration before those on its fields.  A type without fields of its
own may have anything on what it holds. -/
theorem expand_decides (d : Declaration) (parameters : List String) :
    ((∃ x, d.expand parameters = .ok x) ↔ d.KeysInForm ∧ (d.HasFields → d.SubjectsInForm)) ∧
      (∀ x, d.expand parameters = .ok x →
        (∀ path, x.key.value path = d.keyTexts.getLast?.getD (path ++ "::" ++ d.name)) ∧
          ∀ member, x.subject = some member ↔ d.Marks member) ∧
      (∀ flaw, d.expand parameters = .error flaw ↔ d.flaws.head? = some flaw) ∧
      (¬d.HasFields → ∀ fields, { d with fields }.expand parameters = d.expand parameters) := by
  rw [expand_eq_verdict]
  refine ⟨?_, ?_, ?_, ?_⟩
  · rw [← flaws_eq_nil_iff]
    constructor
    · rintro ⟨x, hx⟩
      exact (verdict_ok_iff.mp hx).1
    · intro hnone
      exact ⟨_, verdict_ok_iff.mpr ⟨hnone, rfl⟩⟩
  · intro x hx
    obtain ⟨hnone, rfl⟩ := verdict_ok_iff.mp hx
    refine ⟨?_, ?_⟩
    · intro path
      cases d.keyTexts.getLast? <;> rfl
    · intro member
      exact head?_marked_iff hnone
  · intro flaw
    exact verdict_error_iff
  · intro hfields fields
    have hother : ¬{ d with fields }.HasFields := hfields
    rw [expand_eq_verdict]
    simp only [flaws, marked, marks_of_no_fields hfields, marks_of_no_fields hother]
    rfl

/-- A pair with two keys, an attribute of somebody else, an empty list on its
first half and a repeated word on its second. -/
def rekeyed : Declaration where
  name := "Pair"
  kind := .tuple
  attributes :=
    [⟨"stream", .list [.named "key" (.text "misc.Old")]⟩, ⟨"serde", .path⟩,
      ⟨"stream", .list [.named "key" (.text "misc.Pair")]⟩]
  fields :=
    [⟨"", [⟨"stream", .list []⟩]⟩,
      ⟨"", [⟨"stream", .list [.named "subject" .absent, .named "subject" .absent]⟩]⟩]

/-- The same with a second mark that has a wrong word behind it. -/
def remarked : Declaration :=
  { rekeyed with
    fields := rekeyed.fields ++
      [⟨"", [⟨"stream", .list [.named "subject" .absent, .named "key" (.text "x")]⟩]⟩] }

/-- The later key counts, the second half is the subject, and a wrong word is
found before it is noticed that its attribute is one too many. -/
theorem expand_decides_rekeyed :
    (∃ x, rekeyed.expand ["T"] = .ok x ∧ x.key.value "shop" = "misc.Pair" ∧
      x.subject = some "1") ∧
    remarked.expand ["T"] = .error .expectedSubject := by
  obtain ⟨hgrammar, hfound, -, -⟩ := expand_decides rekeyed ["T"]
  obtain ⟨-, -, hflaw, -⟩ := expand_decides remarked ["T"]
  have hkeys : rekeyed.KeysInForm := by simp [KeysInForm, rekeyed]
  have hsubjects : rekeyed.SubjectsInForm := by
    refine ⟨by simp [rekeyed], ?_⟩
    decide
  obtain ⟨x, hx⟩ := hgrammar.mpr ⟨hkeys, fun _ => hsubjects⟩
  obtain ⟨hkey, hsubject⟩ := hfound x hx
  refine ⟨⟨x, hx, hkey "shop", (hsubject "1").mpr ?_⟩, (hflaw _).mpr rfl⟩
  exact ⟨.inr rfl, 1, _, rfl, rfl, _, List.mem_singleton_self _, rfl, rfl⟩

end Declaration
end PubSub
