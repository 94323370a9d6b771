import Mathlib.Data.List.Induction
import PubSub.Reader.Options

/-!
# Layers of options, option by option

A layer sets some of eight options and leaves the others alone.  However many
layers lie over one another, each option is what the last layer that sets it
says, and what the layers do to the other options does not matter.  So layers
can be put together in any grouping, as long as they keep their order.

* `Setting`, `ReaderOptions.get` — an option by name, and what a layer sets it to;
* `ReaderOptions.get_overlay` — an option of one layer over another;
* `ReaderOptions.overlay_assoc`, `ReaderOptions.resolve_append` — groupings;
* `ReaderOptions.LastSet`, `ReaderOptions.get_resolve_iff` — an option of any
  number of layers;
* `ReaderOptions.layered` — all of it.
-/

namespace PubSub

/-- The options of a reader by name. -/
inductive Setting where
  | group
  | concurrency
  | initialInterval
  | maxInterval
  | timeout
  | poolSize
  | driver
  | driverConfig
  deriving DecidableEq, Repr

/-- What an option may be set to, where `δ` names drivers. -/
abbrev Setting.Value (δ : Type) : Setting → Type
  | .group | .driverConfig => String
  | .concurrency | .initialInterval | .maxInterval | .timeout | .poolSize => Nat
  | .driver => δ

namespace ReaderOptions

variable {δ : Type}

/-- What a layer sets an option to, if it does. -/
def get (o : ReaderOptions δ) : (k : Setting) → Option (k.Value δ)
  | .group => o.group
  | .concurrency => o.concurrency
  | .initialInterval => o.initialInterval
  | .maxInterval => o.maxInterval
  | .timeout => o.timeout
  | .poolSize => o.poolSize
  | .driver => o.driver
  | .driverConfig => o.driverConfig

/-- A layer is what it sets its options to. -/
theorem ext_get {a b : ReaderOptions δ} (h : ∀ k, a.get k = b.get k) : a = b := by
  cases a
  cases b
  rw [mk.injEq]
  exact ⟨h .group, h .concurrency, h .initialInterval, h .maxInterval, h .timeout,
    h .poolSize, h .driver, h .driverConfig⟩

/-- The layer that sets nothing leaves every option unset. -/
@[simp] theorem get_unset (k : Setting) : (unset : ReaderOptions δ).get k = none := by
  cases k <;> rfl

/-- The upper layer wins wherever it sets an option. -/
@[simp] theorem get_overlay (lower upper : ReaderOptions δ) (k : Setting) :
    (lower.overlay upper).get k = (upper.get k).or (lower.get k) := by
  cases k <;> exact Option.orElse_eq_or

/-- Three layers may be put together from below or from above. -/
theorem overlay_assoc (a b c : ReaderOptions δ) :
    (a.overlay b).overlay c = a.overlay (b.overlay c) :=
  ext_get fun k => by simp only [get_overlay, Option.or_assoc]

/-- A layer over one that sets nothing. -/
theorem unset_overlay (o : ReaderOptions δ) : unset.overlay o = o :=
  ext_get fun k => by simp only [get_overlay, get_unset, Option.or_none]

/-- A layer under one that sets nothing. -/
theorem overlay_unset (o : ReaderOptions δ) : o.overlay unset = o :=
  ext_get fun k => by simp only [get_overlay, get_unset, Option.none_or]

/-- An option that is set stays set. -/
theorem isSome_get_overlay {lower : ReaderOptions δ} {k : Setting}
    (h : (lower.get k).isSome) (upper : ReaderOptions δ) :
    ((lower.overlay upper).get k).isSome := by
  rw [get_overlay, Option.isSome_or, h, Bool.or_true]

/-- What layers, the lowest first, come to for one option: it is unset if none
of them sets it, and otherwise it is what the last that does sets it to. -/
inductive LastSet (k : Setting) : List (ReaderOptions δ) → Option (k.Value δ) → Prop
  | never {layers : List (ReaderOptions δ)} (hunset : ∀ o ∈ layers, o.get k = none) :
      LastSet k layers none
  | last (before : List (ReaderOptions δ)) {o : ReaderOptions δ}
      {after : List (ReaderOptions δ)} {v : k.Value δ} (hset : o.get k = some v)
      (hafter : ∀ o' ∈ after, o'.get k = none) :
      LastSet k (before ++ o :: after) (some v)

/-- One more layer. -/
theorem resolve_concat (layers : List (ReaderOptions δ)) (o : ReaderOptions δ) :
    resolve (layers ++ [o]) = (resolve layers).overlay o :=
  List.foldl_append

/-- Layers may be put together in two groups, one over the other. -/
theorem resolve_append (layers more : List (ReaderOptions δ)) :
    resolve (layers ++ more) = (resolve layers).overlay (resolve more) := by
  -- Layers are added at the upper end, so the induction takes them off there.
  induction more using List.reverseRecOn with
  | nil =>
      rw [List.append_nil]
      exact (overlay_unset _).symm
  | append_singleton more o ih =>
      rw [← List.append_assoc, resolve_concat, resolve_concat, ih, overlay_assoc]

/-- Layers may be put together in any number of groups. -/
theorem resolve_flatten (groups : List (List (ReaderOptions δ))) :
    resolve (groups.map resolve) = resolve groups.flatten := by
  induction groups using List.reverseRecOn with
  | nil => rfl
  | append_singleton groups layers ih =>
      rw [List.map_append, List.map_singleton, resolve_concat, ih, List.flatten_append,
        List.flatten_singleton, resolve_append]

/-- An option is looked for from the highest layer down. -/
theorem get_resolve (layers : List (ReaderOptions δ)) (k : Setting) :
    (resolve layers).get k = layers.reverse.findSome? (·.get k) := by
  induction layers using List.reverseRecOn with
  | nil => exact get_unset k
  | append_singleton layers o ih =>
      rw [resolve_concat, get_overlay, ih, List.reverse_concat, List.findSome?_cons]
      cases o.get k <;> rfl

/-- Layers come to what is found first from the highest layer down. -/
theorem lastSet_iff {layers : List (ReaderOptions δ)} {k : Setting} {v : Option (k.Value δ)} :
    LastSet k layers v ↔ layers.reverse.findSome? (·.get k) = v := by
  constructor
  · intro h
    cases h with
    | never hunset =>
        exact List.findSome?_eq_none_iff.mpr fun o ho => hunset o (List.mem_reverse.mp ho)
    | @last before o after v hset hafter =>
        refine List.findSome?_eq_some_iff.mpr
          ⟨after.reverse, o, before.reverse, ?_, hset,
            fun o' ho' => hafter o' (List.mem_reverse.mp ho')⟩
        rw [List.reverse_append, List.reverse_cons, List.append_assoc, List.singleton_append]
  · rintro rfl
    cases hfound : layers.reverse.findSome? (·.get k) with
    | none =>
        exact .never fun o ho =>
          List.findSome?_eq_none_iff.mp hfound o (List.mem_reverse.mpr ho)
    | some v =>
        obtain ⟨after, o, before, hlayers, hset, hafter⟩ := List.findSome?_eq_some_iff.mp hfound
        have hsplit : layers = before.reverse ++ o :: after.reverse := by
          rw [List.reverse_eq_iff] at hlayers
          rw [hlayers, List.reverse_append, List.reverse_cons, List.append_assoc,
            List.singleton_append]
        rw [hsplit]
        exact .last _ hset fun o' ho' => hafter o' (List.mem_reverse.mp ho')

/-- **Each option is what the last layer that sets it says.** -/
theorem get_resolve_iff (layers : List (ReaderOptions δ)) (k : Setting)
    (v : Option (k.Value δ)) : (resolve layers).get k = v ↔ LastSet k layers v := by
  rw [lastSet_iff, get_resolve]

/-- What holds of layers of options, however many there are. -/
structure Layered (δ : Type) : Prop where
  /-- Each option is what the last layer that sets it says. -/
  last : ∀ (layers : List (ReaderOptions δ)) k v,
    (resolve layers).get k = v ↔ LastSet k layers v
  /-- There are no other options. -/
  ext : ∀ a b : ReaderOptions δ, (∀ k, a.get k = b.get k) → a = b
  assoc : ∀ a b c : ReaderOptions δ, (a.overlay b).overlay c = a.overlay (b.overlay c)
  /-- The layer that sets nothing changes nothing, above or below. -/
  identity : ∀ o : ReaderOptions δ, unset.overlay o = o ∧ o.overlay unset = o
  /-- Layers may be put together in any grouping. -/
  grouped : ∀ groups : List (List (ReaderOptions δ)),
    resolve (groups.map resolve) = resolve groups.flatten
  /-- An option that is set stays set. -/
  kept : ∀ (lower upper : ReaderOptions δ) k,
    (lower.get k).isSome → ((lower.overlay upper).get k).isSome

/-- Layers of options do what they should. -/
theorem layered (δ : Type) : Layered δ where
  last := get_resolve_iff
  ext _ _ := ext_get
  assoc := overlay_assoc
  identity o := ⟨unset_overlay o, overlay_unset o⟩
  grouped := resolve_flatten
  kept _ upper _ h := isSome_get_overlay h upper

end ReaderOptions
end PubSub
