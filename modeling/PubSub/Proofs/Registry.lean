import PubSub.Registry

/-!
# Entries of a registry

Setting a key changes the entry of that key and of no other.

* `lookup_putLast` — lists of bindings;
* `Registry.get_set` — registries.
-/

namespace PubSub

/-- The first binding decides, or the others. -/
private theorem lookup_cons_ite {α : Type} (key other : String) (value : α)
    (bindings : List (String × α)) :
    ((key, value) :: bindings).lookup other =
      if other = key then some value else bindings.lookup other := by
  by_cases h : other = key
  · simp [h]
  · have hne : (other == key) = false := beq_false_of_ne h
    simp [List.lookup_cons, hne, h]

/-- A bound key is found, and no other key is touched. -/
theorem lookup_putLast {α : Type} (key other : String) (value : α)
    (bindings : List (String × α)) :
    (putLast key value bindings).lookup other =
      if other = key then some value else bindings.lookup other := by
  induction bindings with
  | nil => exact lookup_cons_ite key other value []
  | cons binding rest ih =>
      obtain ⟨k, v⟩ := binding
      by_cases hk : k = key
      · subst hk
        rw [putLast, if_pos rfl, lookup_cons_ite, lookup_cons_ite]
        by_cases h : other = k
        · rw [if_pos h, if_pos h]
        · rw [if_neg h, if_neg h, if_neg h]
      · rw [putLast, if_neg hk, lookup_cons_ite, ih, lookup_cons_ite]
        by_cases h : other = k
        · rw [if_pos h, if_pos h, if_neg (h ▸ hk)]
        · rw [if_neg h, if_neg h]

namespace Registry

/-- The entry of a key after a key was set. -/
theorem get_set (r : Registry) (key other : String) (m : Metadata) :
    (r.set key m).get other = if other = key then .ok m else r.get other := by
  simp only [get, entry?, set, lookup_putLast]
  by_cases h : other = key
  · simp [h]
  · simp [h]

end Registry
end PubSub
