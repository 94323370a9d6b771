import Mathlib.Data.List.Nodup
import Mathlib.Data.List.Perm.Basic

/-!
# Lists of numbered things

The calls and the invocations of a bus are lists of things with distinct
numbers, and are looked up, changed and removed by number.  Other keys
serve as well as numbers.

* `perm_cons_others` — a thing and the others;
* `map_update_perm` — the same after a change to the thing;
* `find?_of_mem` — looking it up;
* `nodup_concat` — a new thing with the next number.
-/

namespace PubSub.Keyed

variable {α κ : Type} [DecidableEq κ] {key : α → κ} {xs : List α} {x : α}

/-- Nothing else has the number of a thing that stands first. -/
private theorem others_of_cons (hnd : ((x :: xs).map key).Nodup) :
    xs.filter (fun y => key y ≠ key x) = xs := by
  rw [List.map_cons, List.nodup_cons] at hnd
  refine List.filter_eq_self.mpr ?_
  intro y hy
  have hne : key y ≠ key x := fun heq => hnd.1 (heq ▸ List.mem_map_of_mem hy)
  simpa using hne

/-- A list of numbered things is one of them and the others. -/
theorem perm_cons_others (hnd : (xs.map key).Nodup) (hx : x ∈ xs) :
    xs.Perm (x :: xs.filter fun y => key y ≠ key x) := by
  induction xs with
  | nil => cases hx
  | cons y ys ih =>
      rcases List.mem_cons.mp hx with rfl | hys
      · rw [List.filter_cons_of_neg (by simp), others_of_cons hnd]
      · have hnd' := List.nodup_cons.mp (List.map_cons ▸ hnd)
        have hne : key y ≠ key x := fun heq => hnd'.1 (heq ▸ List.mem_map_of_mem hys)
        rw [List.filter_cons_of_pos (by simpa using hne)]
        exact ((ih hnd'.2 hys).cons y).trans (List.Perm.swap x y _)

/-- Changing the thing of a number leaves the others as they are. -/
theorem map_update_perm (f : α → α) (hnd : (xs.map key).Nodup) (hx : x ∈ xs) :
    (xs.map fun y => if key y = key x then f y else y).Perm
      (f x :: xs.filter fun y => key y ≠ key x) := by
  have hmap := (perm_cons_others hnd hx).map fun y => if key y = key x then f y else y
  rw [List.map_cons, if_pos rfl] at hmap
  have hsame : (xs.filter fun y => key y ≠ key x).map
      (fun y => if key y = key x then f y else y) =
      xs.filter fun y => key y ≠ key x := by
    calc (xs.filter fun y => key y ≠ key x).map (fun y => if key y = key x then f y else y)
        = (xs.filter fun y => key y ≠ key x).map id := by
          refine List.map_congr_left ?_
          intro y hy
          have hne : key y ≠ key x := by simpa using (List.mem_filter.mp hy).2
          exact if_neg hne
      _ = xs.filter fun y => key y ≠ key x := List.map_id _
  rw [hsame] at hmap
  exact hmap

/-- When the thing keeps its number, numbers stay distinct. -/
theorem map_update_nodup {f : α → α} (hnd : (xs.map key).Nodup) (hx : x ∈ xs)
    (hkey : key (f x) = key x) :
    ((xs.map fun y => if key y = key x then f y else y).map key).Nodup := by
  have hnew := (map_update_perm f hnd hx).map key
  have hold := (perm_cons_others hnd hx).map key
  rw [List.map_cons, hkey, ← List.map_cons] at hnew
  exact (hnew.trans hold.symm).nodup_iff.mpr hnd

/-- A thing is found under its number. -/
theorem find?_of_mem (hnd : (xs.map key).Nodup) (hx : x ∈ xs) :
    xs.find? (fun y => key y == key x) = some x := by
  cases hfind : xs.find? (fun y => key y == key x) with
  | none =>
      have hnot := List.find?_eq_none.mp hfind x hx
      simp at hnot
  | some y =>
      have hkey : key y = key x := by simpa using List.find?_some hfind
      rw [List.inj_on_of_nodup_map hnd (List.mem_of_find?_eq_some hfind) hx hkey]

section Next

variable {number : α → Nat} {next : Nat}

/-- A new thing has a number of its own. -/
theorem nodup_concat (hnd : (xs.map number).Nodup) (hlt : ∀ y ∈ xs, number y < next)
    (hx : number x = next) : ((xs ++ [x]).map number).Nodup := by
  rw [List.map_append, List.map_singleton, hx]
  refine List.nodup_append.mpr ⟨hnd, List.nodup_singleton next, ?_⟩
  simpa using fun y hy => Nat.ne_of_lt (hlt y hy)

/-- Its number is given out. -/
theorem lt_concat (hlt : ∀ y ∈ xs, number y < next) (hx : number x = next) :
    ∀ y ∈ xs ++ [x], number y < next + 1 := by
  rw [List.forall_mem_append, List.forall_mem_singleton, hx]
  exact ⟨fun y hy => Nat.lt_succ_of_lt (hlt y hy), Nat.lt_succ_self next⟩

end Next

end PubSub.Keyed
