import Mathlib.Data.Finset.Card
import Mathlib.Data.List.Induction
import PubSub.Proofs.Registry

/-!
# Entries and index agree

The index of a registry has a row for a stream name as long as some key
is bound to it, and the row names such a key.  So a name that is no key
is found whenever it can be found, and never through an entry that has
gone over to another stream.

* `Registration`, `Registry.ofHistory` — how a registry came about;
* `Registry.Coherent` — entries and index agree;
* `Registry.keyOf?_set` — the row of a name after a registration;
* `Registry.FoundThrough` — a name that is no key, and the key it is found
  through;
* `Registry.history_decides` — what a history of registrations amounts to.
-/

namespace PubSub

/-- An entry for a registry, under a key or for a payload type. -/
inductive Registration where
  | set (key : String) (metadata : Metadata)
  | bind (type : PayloadType) (metadata : Metadata)

namespace Registration

/-- The key that is bound. -/
def key : Registration → String
  | set key _ => key
  | bind type _ => type.key

/-- What it is bound to. -/
def metadata : Registration → Metadata
  | set _ m => m
  | bind type m => { m with type := some type }

/-- The stream that the key is bound to. -/
def stream (op : Registration) : String := op.metadata.stream

end Registration

/-- What a key was bound to last. -/
def latest (history : List Registration) (key : String) : Option Metadata :=
  (history.filter (·.key = key)).getLast?.map Registration.metadata

/-- One more registration decides for its own key. -/
theorem latest_concat (history : List Registration) (op : Registration) (key : String) :
    latest (history ++ [op]) key =
      if op.key = key then some op.metadata else latest history key := by
  by_cases h : op.key = key <;> simp [latest, List.filter_append, h]

/-- A key is bound as soon as it has been registered. -/
theorem latest_isSome_iff {history : List Registration} {key : String} :
    (latest history key).isSome ↔ key ∈ history.map Registration.key := by
  induction history using List.reverseRecOn with
  | nil => simp [latest]
  | append_singleton history op ih =>
      rw [latest_concat]
      by_cases h : op.key = key
      · simp [h]
      · simpa [h, Ne.symm h] using ih

/-- Without the rows of a name, the other names are found as before. -/
theorem lookup_filter_ne (rows : List (String × String)) (name other : String) :
    (rows.filter (·.1 != name)).lookup other =
      if other = name then none else rows.lookup other := by
  induction rows with
  | nil => simp
  | cons row rows ih =>
      obtain ⟨k, v⟩ := row
      by_cases hk : k = name
      · subst hk
        rw [List.filter_cons_of_neg (by simp), ih, List.lookup_cons]
        by_cases h : other = k
        · simp [h]
        · simp [h, beq_false_of_ne h]
      · rw [List.filter_cons_of_pos (by simpa using hk), List.lookup_cons, List.lookup_cons, ih]
        by_cases h : other = k
        · subst h
          simp [hk]
        · simp [beq_false_of_ne h]

namespace Registry

/-- A registry with one more entry. -/
def register (r : Registry) : Registration → Registry
  | .set key m => r.set key m
  | .bind type m => r.bind type m

/-- The registry that a history of registrations has led to. -/
def ofHistory (history : List Registration) : Registry := history.foldl register empty

/-- Both ways of registering set the key. -/
theorem register_eq (r : Registry) (op : Registration) :
    r.register op = r.set op.key op.metadata := by
  cases op <;> rfl

/-- One more registration. -/
theorem ofHistory_concat (history : List Registration) (op : Registration) :
    ofHistory (history ++ [op]) = (ofHistory history).set op.key op.metadata := by
  rw [ofHistory, List.foldl_append, List.foldl_cons, List.foldl_nil, register_eq]
  rfl

/-- Keys are distinct, every row of the index names a key that is bound to
the row's stream, and every stream has a row. -/
structure Coherent (r : Registry) : Prop where
  distinct : (r.entries.map Prod.fst).Nodup
  bound : ∀ {name key}, r.keyOf? name = some key →
    ∃ m, r.entry? key = some m ∧ m.stream = name
  indexed : ∀ {key m}, r.entry? key = some m → ∃ other, r.keyOf? m.stream = some other

variable {r : Registry} {key name other : String} {m : Metadata}

/-- Setting a key changes its own entry only. -/
theorem entry?_set (r : Registry) (key other : String) (m : Metadata) :
    entry? (r.set key m) other = if other = key then some m else r.entry? other :=
  lookup_putLast key other m r.entries

/-- A bound key keeps its place among the keys, a new one comes last. -/
theorem map_fst_putLast {α : Type} (key : String) (value : α)
    (bindings : List (String × α)) :
    (putLast key value bindings).map Prod.fst =
      if key ∈ bindings.map Prod.fst then bindings.map Prod.fst
      else bindings.map Prod.fst ++ [key] := by
  induction bindings with
  | nil => rfl
  | cons binding rest ih =>
      obtain ⟨k, v⟩ := binding
      by_cases hk : k = key
      · simp [putLast, hk]
      · simp only [putLast, if_neg hk, List.map_cons, ih, List.mem_cons, Ne.symm hk, false_or]
        split <;> simp

/-- Keys stay distinct. -/
theorem nodup_putLast {α : Type} {key : String} {value : α} {bindings : List (String × α)}
    (h : (bindings.map Prod.fst).Nodup) : ((putLast key value bindings).map Prod.fst).Nodup := by
  rw [map_fst_putLast]
  split
  · exact h
  · rename_i hnew
    exact List.nodup_append.mpr ⟨h, List.nodup_singleton key, by grind⟩

/-- With distinct keys, what is listed is what is found. -/
theorem Coherent.entry?_of_mem (h : r.Coherent) (hmem : (key, m) ∈ r.entries) :
    r.entry? key = some m := by
  obtain ⟨before, after, hsplit⟩ := List.append_of_mem hmem
  refine List.lookup_eq_some_iff.mpr ⟨before, after, hsplit, ?_⟩
  have hnd := h.distinct
  rw [hsplit, List.map_append, List.nodup_append] at hnd
  intro entry hentry
  refine bne_iff_ne.mpr ?_
  exact (hnd.2.2 entry.1 (List.mem_map_of_mem hentry) key (by simp)).symm

/-- What is found is listed. -/
theorem mem_entries (h : r.entry? key = some m) : (key, m) ∈ r.entries := by
  obtain ⟨before, after, hsplit, -⟩ := List.lookup_eq_some_iff.mp h
  rw [hsplit]
  exact List.mem_append_right before List.mem_cons_self

/-- The key that takes over a name is another one that is bound to it. -/
theorem Coherent.otherKey?_some (h : r.Coherent) (hother : r.otherKey? key name = some other) :
    other ≠ key ∧ ∃ m, r.entry? other = some m ∧ m.stream = name := by
  obtain ⟨⟨k, m⟩, hfind, rfl⟩ := Option.map_eq_some_iff.mp hother
  have hcond := List.find?_some hfind
  simp only [Bool.and_eq_true, bne_iff_ne, ne_eq, beq_iff_eq] at hcond
  exact ⟨hcond.1, m, h.entry?_of_mem (List.mem_of_find?_eq_some hfind), hcond.2⟩

/-- No key takes over a name only if no other key is bound to it. -/
theorem otherKey?_none (hnone : r.otherKey? key name = none) (hne : other ≠ key)
    (hentry : r.entry? other = some m) : m.stream ≠ name := by
  intro hstream
  have hfind := List.find?_eq_none.mp (Option.map_eq_none_iff.mp hnone) (other, m)
    (mem_entries hentry)
  simp [hne, hstream] at hfind

/-- The index before the new entry is added: a name that was found through
the key, and is not what the key is bound to now, has been handed over. -/
theorem Coherent.lookup_release (h : r.Coherent) (key name : String) (m : Metadata) :
    (r.release key m).lookup name =
      if r.keyOf? name = some key ∧ name ≠ m.stream then r.otherKey? key name
      else r.keyOf? name := by
  by_cases hleave : r.keyOf? name = some key ∧ name ≠ m.stream
  · obtain ⟨hkey, hne⟩ := hleave
    obtain ⟨previous, hentry, rfl⟩ := h.bound hkey
    rw [if_pos ⟨hkey, hne⟩]
    simp only [release, hentry, hkey, hne, ne_eq, not_false_eq_true, and_self, if_true, reassign]
    cases hother : r.otherKey? key previous.stream with
    | none => simp [lookup_filter_ne]
    | some other => simp [List.lookup_append, lookup_filter_ne]
  · rw [if_neg hleave]
    unfold release
    split
    · rename_i previous hentry
      split
      · rename_i hrelease
        have hname : name ≠ previous.stream := by
          rintro rfl
          exact hleave ⟨hrelease.2, hrelease.1⟩
        unfold reassign
        cases r.otherKey? key previous.stream with
        | none => simp [lookup_filter_ne, hname, keyOf?]
        | some other =>
            simp [List.lookup_append, lookup_filter_ne, hname, keyOf?, beq_false_of_ne hname]
      · rfl
    · rfl

/-- The new entry's stream gets a row if it has none; no other row is
touched. -/
theorem keyOf?_set_release (r : Registry) (key name : String) (m : Metadata) :
    (r.set key m).keyOf? name =
      if name = m.stream then some (((r.release key m).lookup name).getD key)
      else (r.release key m).lookup name := by
  simp only [keyOf?, set]
  cases hrow : (r.release key m).lookup m.stream with
  | some other =>
      by_cases hname : name = m.stream
      · simp [hname, hrow]
      · simp [hname]
  | none =>
      by_cases hname : name = m.stream
      · simp [hname, hrow, List.lookup_append]
      · simp [hname, List.lookup_append]

/-- **The row of a name after a registration.**  A stream that had no row
gets one; a name that was found through the key goes over to another key
when the key is bound to another stream; every other row stays. -/
theorem Coherent.keyOf?_set (h : r.Coherent) (key name : String) (m : Metadata) :
    (r.set key m).keyOf? name =
      if name = m.stream then some ((r.keyOf? name).getD key)
      else if r.keyOf? name = some key then r.otherKey? key name
      else r.keyOf? name := by
  rw [keyOf?_set_release, h.lookup_release]
  by_cases hname : name = m.stream <;> simp [hname]

/-- An empty registry is coherent. -/
theorem Coherent.empty : Registry.empty.Coherent where
  distinct := List.nodup_nil
  bound := by simp [Registry.empty, keyOf?]
  indexed := by simp [Registry.empty, entry?]

/-- Setting a key keeps entries and index in agreement. -/
theorem Coherent.set (h : r.Coherent) (key : String) (m : Metadata) :
    (r.set key m).Coherent where
  distinct := nodup_putLast h.distinct
  bound := by
    intro name found hfound
    rw [h.keyOf?_set] at hfound
    rw [entry?_set]
    by_cases hname : name = m.stream
    · rw [if_pos hname, Option.some.injEq] at hfound
      cases hrow : r.keyOf? name with
      | none =>
          rw [hrow, Option.getD_none] at hfound
          exact ⟨m, if_pos hfound.symm, hname.symm⟩
      | some row =>
          rw [hrow, Option.getD_some] at hfound
          subst hfound
          by_cases hkey : row = key
          · exact ⟨m, if_pos hkey, hname.symm⟩
          · rw [if_neg hkey]
            exact h.bound hrow
    · rw [if_neg hname] at hfound
      by_cases hrow : r.keyOf? name = some key
      · rw [if_pos hrow] at hfound
        obtain ⟨hne, hbound⟩ := h.otherKey?_some hfound
        rw [if_neg hne]
        exact hbound
      · rw [if_neg hrow] at hfound
        have hne : found ≠ key := by
          rintro rfl
          exact hrow hfound
        rw [if_neg hne]
        exact h.bound hfound
  indexed := by
    intro other entry hentry
    rw [entry?_set] at hentry
    rw [h.keyOf?_set]
    by_cases hname : entry.stream = m.stream
    · exact ⟨_, if_pos hname⟩
    · rw [if_neg hname]
      by_cases hother : other = key
      · rw [if_pos hother, Option.some.injEq] at hentry
        exact absurd (congrArg Metadata.stream hentry.symm) hname
      · rw [if_neg hother] at hentry
        by_cases hrow : r.keyOf? entry.stream = some key
        · rw [if_pos hrow]
          cases hnext : r.otherKey? key entry.stream with
          | some next => exact ⟨next, rfl⟩
          | none => exact absurd rfl (otherKey?_none hnext hother hentry)
        · rw [if_neg hrow]
          exact h.indexed hentry

/-- Every history leads to a coherent registry. -/
theorem coherent_ofHistory (history : List Registration) : (ofHistory history).Coherent := by
  induction history using List.reverseRecOn with
  | nil => exact .empty
  | append_singleton history op ih =>
      rw [ofHistory_concat]
      exact ih.set op.key op.metadata

/-- The entry of a key is what it was bound to last. -/
theorem entry?_ofHistory (history : List Registration) (key : String) :
    entry? (ofHistory history) key = latest history key := by
  induction history using List.reverseRecOn with
  | nil => rfl
  | append_singleton history op ih =>
      rw [ofHistory_concat, entry?_set, latest_concat, ih]
      simp only [eq_comm]

/-- The keys are those that were registered. -/
theorem keys_ofHistory (history : List Registration) :
    ((ofHistory history).entries.map Prod.fst).toFinset =
      (history.map Registration.key).toFinset := by
  induction history using List.reverseRecOn with
  | nil => rfl
  | append_singleton history op ih =>
      rw [ofHistory_concat]
      simp only [Registry.set, map_fst_putLast, List.map_append, List.toFinset_append, ← ih]
      split
      · rename_i hmem
        have hknown := List.mem_toFinset.mpr hmem
        simp [Finset.insert_eq_of_mem hknown, Finset.union_comm]
      · simp

/-- There are as many entries as keys that were registered. -/
theorem size_ofHistory (history : List Registration) :
    (ofHistory history).size = (history.map Registration.key).toFinset.card := by
  have hdistinct := (coherent_ofHistory history).distinct
  rw [size, ← keys_ofHistory, List.card_toFinset, List.dedup_eq_self.mpr hdistinct,
    List.length_map]

/-- A name under which nothing was registered has no entry. -/
theorem entry?_of_noKey {history : List Registration}
    (hname : name ∉ history.map Registration.key) : entry? (ofHistory history) name = none := by
  rw [entry?_ofHistory, ← Option.not_isSome_iff_eq_none, latest_isSome_iff]
  exact hname

/-- A key means its own entry, also as the name of a stream. -/
theorem resolve_of_key {history : List Registration}
    (hname : name ∈ history.map Registration.key) :
    ∃ m, (ofHistory history).resolve name = .ok m ∧ (ofHistory history).get name = .ok m := by
  obtain ⟨m, hm⟩ := Option.isSome_iff_exists.mp (latest_isSome_iff.mpr hname)
  refine ⟨m, ?_, ?_⟩ <;> simp [resolve, get, entry?_ofHistory, hm]

/-- A name that is no key is found through a key. -/
structure FoundThrough (r : Registry) (name key : String) : Prop where
  noKey : r.entry? name = none
  row : r.keyOf? name = some key

/-- Such a name leads to the entry of that key, which is bound to the name. -/
theorem FoundThrough.resolve_eq (h : r.FoundThrough name key) (hr : r.Coherent) :
    ∃ m, r.entry? key = some m ∧ m.stream = name ∧ r.resolve name = .ok m := by
  obtain ⟨m, hentry, hstream⟩ := hr.bound h.row
  exact ⟨m, hentry, hstream, by simp [resolve, h.noKey, h.row, hentry]⟩

/-- The key stays the same unless it is bound to another stream. -/
theorem FoundThrough.set (h : r.FoundThrough name key) (hr : r.Coherent) (hother : name ≠ other)
    (hstay : other = key → m.stream = name) : (r.set other m).FoundThrough name key := by
  refine ⟨?_, ?_⟩
  · rw [entry?_set, if_neg hother]
    exact h.noKey
  · rw [hr.keyOf?_set, h.row]
    by_cases hname : name = m.stream
    · rw [if_pos hname, Option.getD_some]
    · have hkey : key ≠ other := fun hkey => hname (hstay hkey.symm).symm
      rw [if_neg hname, if_neg (by simpa using hkey)]

/-- When the key is bound to another stream, another key that is bound to
the name takes over, if there is one. -/
theorem FoundThrough.handOver (h : r.FoundThrough name key) (hr : r.Coherent)
    (hleave : m.stream ≠ name) :
    (∃ next, next ≠ key ∧ (∃ entry, r.entry? next = some entry ∧ entry.stream = name) ∧
        (r.set key m).FoundThrough name next) ∨
      (∀ next, next ≠ key → ∀ entry, r.entry? next = some entry → entry.stream ≠ name) ∧
        (r.set key m).resolve name = .error (.missingStream name) := by
  have hne : name ≠ key := by
    rintro rfl
    obtain ⟨entry, hentry, -⟩ := hr.bound h.row
    rw [h.noKey] at hentry
    cases hentry
  have hentry : entry? (r.set key m) name = none := by
    rw [entry?_set, if_neg hne]
    exact h.noKey
  have hrow : (r.set key m).keyOf? name = r.otherKey? key name := by
    rw [hr.keyOf?_set, if_neg (Ne.symm hleave), if_pos h.row]
  cases hother : r.otherKey? key name with
  | some next =>
      obtain ⟨hnext, hbound⟩ := hr.otherKey?_some hother
      exact .inl ⟨next, hnext, hbound, hentry, hrow.trans hother⟩
  | none =>
      refine .inr ⟨fun next hnext entry hbound => otherKey?_none hother hnext hbound, ?_⟩
      simp [resolve, hentry, hrow, hother]

/-- A name that nothing was ever bound to has no row. -/
theorem keyOf?_of_unbound {history : List Registration}
    (hnone : ∀ op ∈ history, op.stream ≠ name) : (ofHistory history).keyOf? name = none := by
  cases hrow : (ofHistory history).keyOf? name with
  | none => rfl
  | some key =>
      obtain ⟨m, hentry, hstream⟩ := (coherent_ofHistory history).bound hrow
      rw [entry?_ofHistory] at hentry
      obtain ⟨op, hlast, rfl⟩ := Option.map_eq_some_iff.mp hentry
      exact absurd hstream (hnone op (List.mem_of_mem_filter (List.mem_of_getLast? hlast)))

/-- A name goes with the first key that is bound to it for as long as the
key stays. -/
theorem keyOf?_first (before after : List Registration) (op : Registration)
    (hnew : ∀ earlier ∈ before, earlier.stream ≠ op.stream)
    (hstays : ∀ later ∈ after, later.key = op.key → later.stream = op.stream) :
    (ofHistory (before ++ op :: after)).keyOf? op.stream = some op.key := by
  induction after using List.reverseRecOn with
  | nil =>
      rw [ofHistory_concat, (coherent_ofHistory before).keyOf?_set,
        keyOf?_of_unbound hnew]
      exact if_pos rfl
  | append_singleton after last ih =>
      have hbefore := ih fun later hlater => hstays later (List.mem_append_left _ hlater)
      have hlast := hstays last (List.mem_append_right _ (List.mem_singleton_self last))
      rw [← List.cons_append, ← List.append_assoc, ofHistory_concat,
        (coherent_ofHistory _).keyOf?_set, hbefore]
      by_cases hname : op.stream = last.metadata.stream
      · rw [if_pos hname, Option.getD_some]
      · have hkey : op.key ≠ last.key := fun hkey => hname (hlast hkey.symm).symm
        rw [if_neg hname, if_neg (by simpa using hkey)]

/-- The names that can be found, the keys apart, are the streams that keys
are bound to. -/
theorem resolve_of_noKey (history : List Registration) {name : String}
    (hname : name ∉ history.map Registration.key) :
    (∃ key m, (ofHistory history).FoundThrough name key ∧ latest history key = some m ∧
        m.stream = name ∧ (ofHistory history).resolve name = .ok m) ∨
      (∀ key m, latest history key = some m → m.stream ≠ name) ∧
        (ofHistory history).resolve name = .error (.missingStream name) := by
  have hcoherent := coherent_ofHistory history
  have hentry := entry?_of_noKey hname
  cases hrow : (ofHistory history).keyOf? name with
  | some key =>
      have hfound : (ofHistory history).FoundThrough name key := ⟨hentry, hrow⟩
      obtain ⟨m, hkey, hstream, hresolve⟩ := hfound.resolve_eq hcoherent
      rw [entry?_ofHistory] at hkey
      exact .inl ⟨key, m, hfound, hkey, hstream, hresolve⟩
  | none =>
      refine .inr ⟨?_, by simp [resolve, hentry, hrow]⟩
      rintro key m hkey rfl
      rw [← entry?_ofHistory] at hkey
      obtain ⟨other, hother⟩ := hcoherent.indexed hkey
      rw [hrow] at hother
      cases hother

/-- A name is found if it is a key or a stream that a key is bound to. -/
theorem resolve_ok_iff (history : List Registration) (name : String) :
    (∃ m, (ofHistory history).resolve name = .ok m) ↔ name ∈ history.map Registration.key ∨
      ∃ key m, latest history key = some m ∧ m.stream = name := by
  by_cases hname : name ∈ history.map Registration.key
  · obtain ⟨m, hresolve, -⟩ := resolve_of_key hname
    exact iff_of_true ⟨m, hresolve⟩ (.inl hname)
  · rcases resolve_of_noKey history hname with ⟨key, m, -, hkey, hstream, hresolve⟩ |
      ⟨hnone, hresolve⟩
    · exact iff_of_true ⟨m, hresolve⟩ (.inr ⟨key, m, hkey, hstream⟩)
    · refine iff_of_false ?_ ?_
      · rintro ⟨m, hm⟩
        rw [hresolve] at hm
        cases hm
      · rintro (hmem | ⟨key, m, hkey, hstream⟩)
        · exact hname hmem
        · exact hnone key m hkey hstream

/-- **What a history of registrations amounts to.**  A key has the entry it
was bound to last.  A name is found if it is a key, and then it means that
key, or if some key is bound to it now, and then it means such a key: the
first that was ever bound to it as long as that one stays, and in general
the same one until that one is bound to another stream.  Then another key
that is bound to the name takes over, and if there is none, the name is
not found any more. -/
theorem history_decides (history : List Registration) :
    let r := ofHistory history
    let keys := history.map Registration.key
    let Bound (key name : String) := ∃ m, latest history key = some m ∧ m.stream = name
    (∀ key, r.get key = match latest history key with
      | some m => .ok m
      | none => .error (.missingStream key)) ∧
    r.size = keys.toFinset.card ∧
    (∀ name, (∃ m, r.resolve name = .ok m) ↔ name ∈ keys ∨ ∃ key, Bound key name) ∧
    (∀ name ∈ keys, r.resolve name = r.get name) ∧
    (∀ name, name ∉ keys → match r.resolve name with
      | .ok m => ∃ key, r.FoundThrough name key ∧ latest history key = some m ∧ m.stream = name
      | .error e => e = .missingStream name) ∧
    (∀ before op after, history = before ++ op :: after → op.stream ∉ keys →
      (∀ earlier ∈ before, earlier.stream ≠ op.stream) →
      (∀ later ∈ after, later.key = op.key → later.stream = op.stream) →
      r.FoundThrough op.stream op.key) ∧
    (∀ name key, r.FoundThrough name key → r.resolve name = r.get key ∧
      ∀ op : Registration, op.key ≠ name →
        (¬ (op.key = key ∧ op.stream ≠ name) → (r.register op).FoundThrough name key) ∧
        (op.key = key → op.stream ≠ name →
          (∀ next, next ≠ key → Bound next name →
            (∀ other, other ≠ key → Bound other name → other = next) →
            (r.register op).FoundThrough name next) ∧
          ((∀ next, next ≠ key → ¬ Bound next name) →
            (r.register op).resolve name = .error (.missingStream name)))) := by
  intro r keys Bound
  have hcoherent : r.Coherent := coherent_ofHistory history
  have hentries : ∀ key, r.entry? key = latest history key := entry?_ofHistory history
  refine ⟨?entry, size_ofHistory history, resolve_ok_iff history, ?ofKey, ?ofName, ?first, ?stays⟩
  case entry =>
    intro key
    cases hlast : latest history key <;> simp only [get, hentries, hlast]
  case ofKey =>
    intro name hname
    obtain ⟨m, hresolve, hget⟩ := resolve_of_key hname
    exact hresolve.trans hget.symm
  case ofName =>
    intro name hname
    rcases resolve_of_noKey history hname with ⟨key, m, hfound, hkey, hstream, hresolve⟩ |
      ⟨-, hresolve⟩
    · rw [hresolve]
      exact ⟨key, hfound, hkey, hstream⟩
    · rw [hresolve]
  case first =>
    intro before op after hhistory hname hnew hstays
    refine ⟨entry?_of_noKey hname, ?_⟩
    change (ofHistory history).keyOf? op.stream = some op.key
    rw [hhistory]
    exact keyOf?_first before after op hnew hstays
  case stays =>
    intro name key hfound
    obtain ⟨m, hkey, -, hresolve⟩ := hfound.resolve_eq hcoherent
    refine ⟨by rw [hresolve, get, hkey], ?_⟩
    intro op hop
    rw [register_eq]
    refine ⟨?_, ?_⟩
    · intro hkeeps
      refine hfound.set hcoherent (Ne.symm hop) ?_
      intro hsame
      by_contra hleave
      exact hkeeps ⟨hsame, hleave⟩
    · rintro rfl hleave
      rcases hfound.handOver hcoherent hleave with ⟨next, hne, ⟨entry, hentry, hstream⟩, htakes⟩ |
        ⟨hnone, hmissing⟩
      · rw [hentries] at hentry
        refine ⟨?_, fun hnobody => absurd ⟨entry, hentry, hstream⟩ (hnobody next hne)⟩
        intro only _ _ honly
        rw [← honly next hne ⟨entry, hentry, hstream⟩]
        exact htakes
      · refine ⟨?_, fun _ => hmissing⟩
        rintro next hne ⟨entry, hentry, hstream⟩
        rw [← hentries] at hentry
        exact absurd hstream (hnone next hne entry hentry)

/-- Two keys share a stream, and the first one leaves it. -/
theorem history_decides_moved :
    let history := [Registration.set "k1" (.ofStream "alpha"), .set "k2" (.ofStream "alpha")]
    let moved := Registration.set "k1" (.ofStream "beta")
    (ofHistory history).FoundThrough "alpha" "k1" ∧
      ((ofHistory history).register moved).FoundThrough "alpha" "k2" ∧
      ((ofHistory (history ++ [moved])).resolve "alpha").toOption.map (·.stream) = some "alpha" ∧
      (ofHistory (history ++ [moved])).size = 2 := by
  intro history moved
  obtain ⟨-, -, -, -, -, hfirst, hstays⟩ := history_decides history
  have hfound : (ofHistory history).FoundThrough "alpha" "k1" :=
    hfirst [] (.set "k1" (.ofStream "alpha")) [.set "k2" (.ofStream "alpha")] rfl (by decide)
      nofun (by decide)
  obtain ⟨-, hmoved⟩ := hstays "alpha" "k1" hfound
  refine ⟨hfound, ?_, rfl, rfl⟩
  refine ((hmoved moved (by decide)).2 rfl (by decide)).1 "k2" (by decide) ⟨_, rfl, rfl⟩ ?_
  rintro other hne ⟨m, hm, -⟩
  have hmem : other ∈ history.map Registration.key :=
    latest_isSome_iff.mp (Option.isSome_iff_exists.mpr ⟨m, hm⟩)
  simp only [history, List.map_cons, List.map_nil, List.mem_cons, List.not_mem_nil, or_false,
    Registration.key] at hmem
  exact hmem.resolve_left hne

end Registry
end PubSub
