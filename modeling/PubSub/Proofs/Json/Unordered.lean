import Mathlib.Data.List.Pairwise
import PubSub.Proofs.Json.ObjectText

/-!
# Records whose members do not depend on each other

If each slot puts its value at a place of its own, the order of the members of
an object makes no difference, and neither do members that no slot takes.  An
optional member that is missing may as well be `null`.  Nothing is forgiven
beyond that: a name with a slot stands there once at most, and all that is
required stands there and is not `null`.

* `Slot.Regular`, `Shape.Independent` — such records;
* `fill_perm`, `fill_foreign`, `fill_null` — what makes no difference;
* `fill_repeated`, `fill_missing`, `fill_required_null` — what is refused.
-/

namespace PubSub.Json

variable {σ α β : Type}

/-- The text of `null`, among blanks. -/
def IsNull (bs : Bytes) : Prop :=
  ∃ before after, Blanks before ∧ Blanks after ∧
    bs = before ++ Ascii.letterN :: (wordNull ++ after)

/-- Two slots take their values in either order. -/
def Slot.Commutes (slot slot' : Slot σ) : Prop :=
  ∀ draft value value', ((slot.take draft value).bind fun next => slot'.take next value') =
    (slot'.take draft value').bind fun next => slot.take next value

/-- A slot that takes a string or a number, and `null` as nothing or not at
all. -/
structure Slot.Regular (blank : σ) (slot : Slot σ) : Prop where
  scalar : ∀ draft, ReadsScalars (slot.read draft)
  refuses_null : slot.required = true → ∀ draft value, IsNull value → slot.take draft value = none
  passes_null : slot.required = false → ∀ value, IsNull value → slot.take blank value = some blank

/-- A record whose members do not depend on each other. -/
structure Shape.Independent (shape : Shape σ) : Prop where
  scalar : shape.Scalar
  commutes : ∀ slot ∈ shape.slots, ∀ slot' ∈ shape.slots, slot.name ≠ slot'.name →
    slot.Commutes slot'
  refuses_null : ∀ slot ∈ shape.slots, slot.required = true → ∀ draft value, IsNull value →
    slot.take draft value = none
  passes_null : ∀ slot ∈ shape.slots, slot.required = false → ∀ value, IsNull value →
    slot.take shape.blank value = some shape.blank

/-- What a slot takes is what its reader takes, put into the draft. -/
theorem take_of {name : String} {required : Bool} {reader : Reader α} {set : σ → α → σ}
    (draft : σ) (value : Bytes) : (Slot.of name required reader set).take draft value =
      (reader value).toOption.map fun read => set draft read.1 := by
  unfold Slot.take Slot.of
  cases hread : reader value with
  | error fault => simp [hread, bind, Except.bind, Except.toOption]
  | ok read => simp [hread, bind, Except.bind, Except.toOption]

/-- Slots commute if what they set does. -/
theorem commutes_of {name name' : String} {required required' : Bool} {reader : Reader α}
    {reader' : Reader β} {set : σ → α → σ} {set' : σ → β → σ}
    (h : ∀ draft a b, set' (set draft a) b = set (set' draft b) a) :
    (Slot.of name required reader set).Commutes (.of name' required' reader' set') := by
  intro draft value value'
  simp only [take_of]
  cases (reader value).toOption with
  | none => cases (reader' value').toOption <;> rfl
  | some read =>
      cases (reader' value').toOption with
      | none => rfl
      | some read' => simp [h]

/-- The order in which two slots are named does not matter. -/
theorem Slot.Commutes.symm {slot slot' : Slot σ} (h : slot.Commutes slot') :
    slot'.Commutes slot :=
  fun draft value value' => (h draft value' value).symm

instance : Std.Symm (@Slot.Commutes σ) := ⟨fun _ _ => Slot.Commutes.symm⟩

/-- A string is not `null`. -/
theorem readTextAs_null {expected : String} {accept : String → Except Mismatch α} {bs : Bytes}
    (h : IsNull bs) (read : α × Bytes) : readTextAs expected accept bs ≠ .ok read := by
  obtain ⟨before, after, hbefore, -, rfl⟩ := h
  intro hread
  rw [readTextAs, hbefore.skip_cons rfl] at hread
  have hmistyped : mistyped expected (Ascii.letterN :: (wordNull ++ after)) = .ok read := hread
  exact mistyped_ne_ok hmistyped

/-- Nor is a number. -/
theorem readUnsigned_null {expected : String} {bits : Nat} {bs : Bytes} (h : IsNull bs)
    (read : Nat × Bytes) : readUnsigned expected bits bs ≠ .ok read := by
  obtain ⟨before, after, hbefore, -, rfl⟩ := h
  intro hread
  rw [readUnsigned, hbefore.skip_cons rfl] at hread
  have hmistyped : mistyped expected (Ascii.letterN :: (wordNull ++ after)) = .ok read := hread
  exact mistyped_ne_ok hmistyped

/-- What may be `null` may be nothing. -/
theorem readOptional_null {reader : Reader α} {bs : Bytes} (h : IsNull bs) :
    ∃ rest, readOptional reader bs = .ok (none, rest) := by
  obtain ⟨before, after, hbefore, -, rfl⟩ := h
  refine ⟨after, ?_⟩
  rw [readOptional, hbefore.skip_cons rfl]
  simp only [reduceIte, readWord_iff.mpr rfl, bind, Except.bind]

/-- Some reader of `null` takes nothing. -/
theorem take_null {name : String} {required : Bool} {reader : Reader α} {set : σ → α → σ}
    {value : Bytes} (h : ∀ read, reader value ≠ .ok read) (draft : σ) :
    (Slot.of name required reader set).take draft value = none := by
  rw [take_of]
  cases hread : reader value with
  | error fault => rfl
  | ok read => exact absurd hread (h read)

/-- An optional value that is `null` is set to none. -/
theorem take_optional_null {name : String} {required : Bool} {reader : Reader α}
    {set : σ → Option α → σ} {value : Bytes} (h : IsNull value) (draft : σ) :
    (Slot.of name required (readOptional reader) set).take draft value = some (set draft none) := by
  obtain ⟨rest, hread⟩ : ∃ rest, readOptional reader value = .ok (none, rest) :=
    readOptional_null h
  rw [take_of, hread]
  rfl

/-- A required slot is regular if its reader takes no `null`. -/
theorem regular_required {name : String} {reader : Reader α} {set : σ → α → σ} {blank : σ}
    (h : ReadsScalars reader) (hnull : ∀ {bs}, IsNull bs → ∀ read, reader bs ≠ .ok read) :
    (Slot.of name true reader set).Regular blank where
  scalar := h.slot name true set
  refuses_null := fun _ draft _ hvalue => take_null (hnull hvalue) draft
  passes_null := fun hoptional => Bool.noConfusion hoptional

/-- An optional one is if nothing leaves the blank record as it is. -/
theorem regular_optional {name : String} {reader : Reader α} {set : σ → Option α → σ} {blank : σ}
    (h : ReadsScalars reader) (hset : set blank none = blank) :
    (Slot.of name false (readOptional reader) set).Regular blank where
  scalar := h.optional.slot name false set
  refuses_null := fun hrequired => Bool.noConfusion hrequired
  passes_null := fun _ value hvalue => by rw [take_optional_null hvalue, hset]

/-- The slots of an independent record are regular and commute. -/
theorem Shape.independent_of {shape : Shape σ} (h : ∀ slot ∈ shape.slots, slot.Regular shape.blank)
    (hcommutes : shape.slots.Pairwise Slot.Commutes) : shape.Independent where
  scalar := fun slot hslot => (h slot hslot).scalar
  commutes := by
    intro slot hslot slot' hslot' hname
    refine hcommutes.forall hslot hslot' ?_
    rintro rfl
    exact hname rfl
  refuses_null := fun slot hslot => (h slot hslot).refuses_null
  passes_null := fun slot hslot => (h slot hslot).passes_null

variable {shape : Shape σ} {seen seen' : List String} {draft : σ}
  {members members' : List (String × Bytes)} {name : String} {value : Bytes}

/-- Only names that may still come, or that must have come, are looked up among
those that were seen. -/
theorem fill_seen (h : ∀ name, (name ∈ members.map Prod.fst ∨
      ∃ slot ∈ shape.slots, slot.required = true ∧ slot.name = name) →
        (name ∈ seen ↔ name ∈ seen')) :
    shape.fill seen draft members = shape.fill seen' draft members := by
  induction members generalizing seen seen' draft with
  | nil =>
      have hcomplete : shape.Complete seen ↔ shape.Complete seen' :=
        forall₂_congr fun slot hslot => imp_congr_right fun hrequired =>
          h slot.name (.inr ⟨slot, hslot, hrequired, rfl⟩)
      rw [Shape.fill, Shape.fill]
      simp only [hcomplete]
  | cons member members ih =>
      obtain ⟨name, value⟩ := member
      have hrest : ∀ other, (other ∈ members.map Prod.fst ∨
          ∃ slot ∈ shape.slots, slot.required = true ∧ slot.name = other) →
            (other ∈ seen ↔ other ∈ seen') :=
        fun other hother => h other (hother.imp_left (List.mem_cons_of_mem _))
      rw [Shape.fill, Shape.fill]
      cases shape.slots.find? (·.name == name) with
      | none => exact ih hrest
      | some slot =>
          have hname : name ∈ seen ↔ name ∈ seen' := h name (.inl List.mem_cons_self)
          have hnext (next : σ) : shape.fill (name :: seen) next members =
              shape.fill (name :: seen') next members := by
            refine ih fun other hother => ?_
            rw [List.mem_cons, List.mem_cons, hrest other hother]
          simp only [hname, hnext]

/-- Two neighbours change places. -/
theorem fill_swap (h : shape.Independent) (member member' : String × Bytes) :
    shape.fill seen draft (member :: member' :: members) =
      shape.fill seen draft (member' :: member :: members) := by
  obtain ⟨name, value⟩ := member
  obtain ⟨name', value'⟩ := member'
  simp only [Shape.fill]
  cases hslot : shape.slots.find? (·.name == name) with
  | none => rfl
  | some slot =>
      cases hslot' : shape.slots.find? (·.name == name') with
      | none => rfl
      | some slot' =>
          have hname : slot.name = name := by simpa using List.find?_some hslot
          have hname' : slot'.name = name' := by simpa using List.find?_some hslot'
          by_cases hsame : name = name'
          · -- a name that stands there twice is refused in either order
            subst hsame
            cases slot.take draft value <;> cases slot'.take draft value' <;> simp
          have hother : name' ≠ name := fun heq => hsame heq.symm
          have hseen (next : σ) : shape.fill (name' :: name :: seen) next members =
              shape.fill (name :: name' :: seen) next members := by
            refine fill_seen fun other _ => ?_
            simp only [List.mem_cons]
            exact or_left_comm
          have hcommutes := h.commutes slot (List.mem_of_find?_eq_some hslot) slot'
            (List.mem_of_find?_eq_some hslot') (by rwa [hname, hname']) draft value value'
          by_cases hold : name ∈ seen
          · cases slot'.take draft value' <;> simp [hold]
          by_cases hold' : name' ∈ seen
          · cases slot.take draft value <;> simp [hold']
          simp only [List.mem_cons, hold, hold', hsame, hother, or_self, if_false, hseen]
          rw [← Option.bind_assoc, ← Option.bind_assoc, hcommutes]

/-- **The order of the members makes no difference.** -/
theorem fill_perm (h : shape.Independent) (hperm : members.Perm members') :
    shape.fill seen draft members = shape.fill seen draft members' := by
  induction hperm generalizing seen draft with
  | nil => rfl
  | cons member _ ih =>
      obtain ⟨name, value⟩ := member
      simp only [Shape.fill, ih]
  | swap member member' members => exact fill_swap h member' member
  | trans _ _ ih ih' => exact ih.trans ih'

/-- A member without a slot makes no difference. -/
theorem fill_foreign (h : shape.Independent) (hname : ∀ slot ∈ shape.slots, slot.name ≠ name)
    (before after : List (String × Bytes)) :
    shape.fill seen draft (before ++ (name, value) :: after) =
      shape.fill seen draft (before ++ after) := by
  have hslot : shape.slots.find? (·.name == name) = none := by
    rw [List.find?_eq_none]
    intro slot hmem
    simpa using hname slot hmem
  rw [fill_perm h List.perm_middle, Shape.fill, hslot]

/-- An optional member that is missing may be `null`. -/
theorem fill_null (h : shape.Independent)
    (hoptional : ∀ slot ∈ shape.slots, slot.name = name → slot.required = false)
    {before after : List (String × Bytes)} (habsent : name ∉ (before ++ after).map Prod.fst)
    (hnull : IsNull value) :
    shape.fill [] shape.blank (before ++ (name, value) :: after) =
      shape.fill [] shape.blank (before ++ after) := by
  rw [fill_perm h List.perm_middle, Shape.fill]
  cases hslot : shape.slots.find? (·.name == name) with
  | none => rfl
  | some slot =>
      have hmem := List.mem_of_find?_eq_some hslot
      have hname : slot.name = name := by simpa using List.find?_some hslot
      have htake := h.passes_null slot hmem (hoptional slot hmem hname) value hnull
      have hseen : shape.fill [name] shape.blank (before ++ after) =
          shape.fill [] shape.blank (before ++ after) := by
        refine fill_seen fun other hother => ?_
        have hne : other ≠ name := by
          rintro rfl
          rcases hother with hthere | ⟨slot', hmem', hrequired, hname'⟩
          · exact habsent hthere
          · rw [hoptional slot' hmem' hname'] at hrequired
            cases hrequired
        simp [hne]
      simp [htake, hseen]

variable {slot : Slot σ}

/-- A member of a name may stand first. -/
theorem exists_perm_cons (h : name ∈ members.map Prod.fst) :
    ∃ value others, members.Perm ((name, value) :: others) := by
  obtain ⟨⟨_, value⟩, hmem, rfl⟩ := List.mem_map.mp h
  obtain ⟨before, after, rfl⟩ := List.append_of_mem hmem
  exact ⟨value, before ++ after, List.perm_middle⟩

/-- **A name that has a slot stands there once at most.** -/
theorem fill_repeated (h : shape.Independent)
    (hslot : shape.slots.find? (·.name == name) = some slot)
    (hcount : 1 < (members.map Prod.fst).count name) :
    shape.fill seen draft members = none := by
  have hfirst : name ∈ members.map Prod.fst := List.count_pos_iff.mp (by omega)
  obtain ⟨value, others, hperm⟩ := exists_perm_cons hfirst
  rw [(hperm.map Prod.fst).count_eq, List.map_cons, List.count_cons_self] at hcount
  have hsecond : name ∈ others.map Prod.fst := List.count_pos_iff.mp (by omega)
  obtain ⟨value', others', hperm'⟩ := exists_perm_cons hsecond
  rw [fill_perm h (hperm.trans (hperm'.cons _))]
  simp only [Shape.fill, hslot]
  cases slot.take draft value <;> simp

/-- **What is required stands there.** -/
theorem fill_missing (hslot : slot ∈ shape.slots) (hrequired : slot.required = true)
    (hunseen : slot.name ∉ seen) (hmissing : slot.name ∉ members.map Prod.fst) :
    shape.fill seen draft members = none := by
  induction members generalizing seen draft with
  | nil =>
      have hincomplete : ¬shape.Complete seen := fun hall => hunseen (hall slot hslot hrequired)
      rw [Shape.fill, if_neg hincomplete]
  | cons member members ih =>
      obtain ⟨name, value⟩ := member
      rw [List.map_cons, List.mem_cons, not_or] at hmissing
      obtain ⟨hname, hmissing⟩ := hmissing
      rw [Shape.fill]
      split
      · exact ih hunseen hmissing
      · have hnext (next : σ) : shape.fill (name :: seen) next members = none :=
          ih (by simpa [hname] using hunseen) hmissing
        simp [hnext]

/-- **And it is not `null`.** -/
theorem fill_required_null (h : shape.Independent)
    (hslot : shape.slots.find? (·.name == name) = some slot) (hrequired : slot.required = true)
    (hmem : (name, value) ∈ members) (hnull : IsNull value) :
    shape.fill seen draft members = none := by
  obtain ⟨before, after, rfl⟩ := List.append_of_mem hmem
  have htake := h.refuses_null slot (List.mem_of_find?_eq_some hslot) hrequired draft value hnull
  rw [fill_perm h List.perm_middle]
  simp [Shape.fill, hslot, htake]

end PubSub.Json
