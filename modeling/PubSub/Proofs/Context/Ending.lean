import Mathlib.Order.Bounds.Defs
import PubSub.Proofs.Context.Forest

/-!
# When the contexts of a forest end

A context is cancelled through its own token or through one that it was
derived under, and by nothing else; its deadline is the earliest that was
asked for on the way from its root; its ids are those attached last on that
way.  So a context ends no later than those it was made from, and stays
ended.

* `Forest.Sound.climb` — going up to a root, link by link;
* `Forest.Sound.isCancelled_iff`, `Forest.Sound.reaches_own` — who cancels;
* `Forest.Sound.earliest`, `Forest.Sound.attached` — deadlines and ids;
* `Forest.Lawful`, `Forest.lawful_run` — all of it, for every forest.
-/

namespace PubSub.Forest

variable {f f' : Forest} {i j k n t : Nat} {l : Link} {b p : Branch}

/-- What holds of roots, and is handed on by every link, holds of all
contexts. -/
theorem Sound.climb (h : f.Sound) {P : Nat → Branch → Prop}
    (hroot : ∀ (i : Nat) (b : Branch) (token : Nat), f.branches[i]? = some b →
      f.stem? i = none → b.ctx = ⟨[token], none, none, none⟩ → b.limit = none → P i b)
    (hlink : ∀ (i n : Nat) (l : Link) (b p : Branch) (token : Nat), f.branches[i]? = some b →
      f.stem? i = some (n, l) → n < i → f.branches[n]? = some p →
      b.ctx = l.result p.ctx token b.limit → P n p → P i b) :
    ∀ (i : Nat) (b : Branch), f.branches[i]? = some b → P i b := by
  intro i
  induction i using Nat.strongRecOn with
  | _ i ih =>
      intro b hb
      have hstem : f.stem? i = b.stem := by
        rw [stem?, hb]
        rfl
      cases h.grown i b hb with
      | root token hnone hctx hlimit =>
          exact hroot i b token hb (hstem.trans hnone) hctx hlimit
      | link token hsome hn hp hctx =>
          exact hlink i _ _ b _ token hb (hstem.trans hsome) hn hp hctx (ih _ hn _ hp)

/-- A context comes after those it was made from. -/
theorem Sound.le_of_descends (h : f.Sound) (hdesc : f.Descends j i) : j ≤ i := by
  obtain ⟨b, hb⟩ : ∃ b, f.branches[i]? = some b := ⟨_, List.getElem?_eq_getElem hdesc.lt⟩
  refine h.climb (P := fun i _ => ∀ j, f.Descends j i → j ≤ i) ?_ ?_ i b hb j hdesc
  · intro i b token hb hstem _ _ j hj
    rw [descends_iff_eq (List.getElem?_eq_some_iff.mp hb).1 hstem] at hj
    exact Nat.le_of_eq hj
  · intro i n l b p token _ hstem hn _ _ ih j hj
    rcases (descends_iff hstem).mp hj with rfl | hj
    · exact Nat.le_refl _
    · exact Nat.le_trans (ih j hj) (Nat.le_of_lt hn)

/-- Two contexts are not made from each other. -/
theorem Sound.antisymm (h : f.Sound) (hij : f.Descends i j) (hji : f.Descends j i) : i = j :=
  Nat.le_antisymm (h.le_of_descends hij) (h.le_of_descends hji)

/-- A context depends on those it was made from. -/
theorem Sound.under (h : f.Sound) (hdesc : f.Descends j i) (hb : f.branches[i]? = some b)
    (hp : f.branches[j]? = some p) : b.ctx.Under p.ctx := by
  refine h.climb (P := fun i b => ∀ (j : Nat) (p : Branch), f.Descends j i →
    f.branches[j]? = some p → b.ctx.Under p.ctx) ?_ ?_ i b hb j p hdesc hp
  · intro i b token hb hstem _ _ j p hj hp
    rw [descends_iff_eq (List.getElem?_eq_some_iff.mp hb).1 hstem] at hj
    subst hj
    rw [hb] at hp
    cases hp
    exact .refl _
  · intro i n l b q token hb hstem _ hq hctx ih j p hj hp
    rcases (descends_iff hstem).mp hj with rfl | hj
    · rw [hb] at hp
      cases hp
      exact .refl _
    · rw [hctx]
      exact (l.result_under q.ctx token b.limit).trans (ih j p hj hp)

/-- Every context holds a token. -/
theorem Sound.exists_token (h : f.Sound) (hi : i < f.branches.length) :
    ∃ t, f.token? i = some t := by
  have hb := List.getElem?_eq_getElem hi
  have hlineage : f.branches[i].ctx.lineage ≠ [] := by
    refine h.climb (P := fun _ b => b.ctx.lineage ≠ []) ?_ ?_ i _ hb
    · intro i b token _ _ hctx _
      rw [hctx]
      exact List.cons_ne_nil _ _
    · intro i n l b p token _ _ _ _ hctx ih hnil
      rw [hctx] at hnil
      exact ih (List.suffix_nil.mp (hnil ▸ (l.result_under p.ctx token b.limit).lineage))
  obtain ⟨t, rest, hcons⟩ := List.exists_cons_of_ne_nil hlineage
  refine ⟨t, ?_⟩
  rw [token?, hb, Option.bind_some, hcons]
  rfl

/-- A copy holds the token of what it is a copy of. -/
theorem Sound.token?_copy (h : f.Sound) (hcopy : f.CopyOf j i) : f.token? i = f.token? j := by
  induction hcopy with
  | self _ => rfl
  | @link i n l hstem hl _ ih =>
      obtain ⟨b, hb, hsome⟩ := Option.bind_eq_some_iff.mp hstem
      cases h.grown i b hb with
      | root token hnone hctx hlimit =>
          rw [hnone] at hsome
          cases hsome
      | link token hstem' hn hp hctx =>
          rw [hstem'] at hsome
          cases hsome
          rw [← ih, token?, token?, hb, hp, Option.bind_some, Option.bind_some, hctx]
          simp [Link.result, hl]

/-- Every context is a copy of one with a token of its own. -/
theorem Sound.exists_own (h : f.Sound) (hi : i < f.branches.length) :
    ∃ o, f.CopyOf o i ∧ f.IsOwn o := by
  refine h.climb (P := fun i _ => ∃ o, f.CopyOf o i ∧ f.IsOwn o) ?_ ?_ i _
    (List.getElem?_eq_getElem hi)
  · intro i b token hb hstem _ _
    have hlt := (List.getElem?_eq_some_iff.mp hb).1
    refine ⟨i, .self hlt, hlt, ?_⟩
    intro n l hsome
    rw [hstem] at hsome
    cases hsome
  · intro i n l b p token _ hstem _ _ _ ih
    cases hl : l.isDerived with
    | false =>
        obtain ⟨o, hcopy, hown⟩ := ih
        exact ⟨o, .link hstem hl hcopy, hown⟩
    | true =>
        have hlt := lt_of_stem? hstem
        refine ⟨i, .self hlt, hlt, ?_⟩
        intro n' l' hsome
        rw [hstem] at hsome
        cases hsome
        exact hl

/-- Contexts hold the same token when they are copies of the same one. -/
theorem Sound.shares_iff (h : f.Sound) (hi : i < f.branches.length)
    (hj : j < f.branches.length) : f.Shares i j ↔ f.token? i = f.token? j := by
  constructor
  · rintro ⟨o, hcopy, hcopy'⟩
    exact (h.token?_copy hcopy).trans (h.token?_copy hcopy').symm
  · intro htoken
    obtain ⟨o, hcopy, hown⟩ := h.exists_own hi
    obtain ⟨o', hcopy', hown'⟩ := h.exists_own hj
    have hsame : o = o' := by
      refine h.distinct o o' hown hown' ?_
      rw [← h.token?_copy hcopy, ← h.token?_copy hcopy', htoken]
    exact ⟨o, hcopy, hsame ▸ hcopy'⟩

/-- The tokens of a context are those held on the way from its root. -/
theorem Sound.mem_lineage_iff (h : f.Sound) (hb : f.branches[i]? = some b) :
    t ∈ b.ctx.lineage ↔ ∃ k, f.Descends k i ∧ f.token? k = some t := by
  refine h.climb (P := fun i b => t ∈ b.ctx.lineage ↔ ∃ k, f.Descends k i ∧ f.token? k = some t)
    ?_ ?_ i b hb
  · intro i b token hb hstem hctx _
    have htoken : f.token? i = some token := by
      rw [token?, hb, Option.bind_some, hctx]
      rfl
    simp only [descends_iff_eq (List.getElem?_eq_some_iff.mp hb).1 hstem]
    rw [hctx]
    constructor
    · intro ht
      rw [List.mem_singleton.mp ht]
      exact ⟨i, rfl, htoken⟩
    · rintro ⟨k, rfl, ht⟩
      rw [htoken] at ht
      cases ht
      exact List.mem_singleton_self _
  · intro i n l b p token hb hstem _ hp hctx ih
    have htoken : f.token? i = b.ctx.lineage.head? := by
      rw [token?, hb]
      rfl
    simp only [descends_iff hstem]
    constructor
    · intro ht
      rw [hctx] at ht
      cases hl : l.isDerived with
      | false =>
          simp only [Link.result, hl, Bool.false_eq_true, if_false] at ht
          obtain ⟨k, hk, htk⟩ := ih.mp ht
          exact ⟨k, .inr hk, htk⟩
      | true =>
          simp only [Link.result, hl, if_true, List.mem_cons] at ht
          rcases ht with rfl | ht
          · refine ⟨i, .inl rfl, ?_⟩
            rw [htoken, hctx]
            simp [Link.result, hl]
          · obtain ⟨k, hk, htk⟩ := ih.mp ht
            exact ⟨k, .inr hk, htk⟩
    · rintro ⟨k, rfl | hk, htk⟩
      · rw [htoken] at htk
        exact List.mem_of_mem_head? htk
      · have hmem := ih.mpr ⟨k, hk, htk⟩
        rw [hctx]
        exact (l.result_under p.ctx token b.limit).lineage.subset hmem

/-- **Who cancels a context**: who cancels one that shares its token, or the
token of one that it was made from. -/
theorem Sound.isCancelled_iff (h : f.Sound) (hb : f.branches[i]? = some b) :
    b.ctx.isCancelled f.present.tokens = true ↔ ∃ n ∈ f.cancels, f.Reaches n i := by
  unfold Context.isCancelled
  rw [List.any_eq_true]
  constructor
  · rintro ⟨t, hmem, ht⟩
    rw [List.contains_iff_mem, h.cancelled t] at ht
    obtain ⟨n, hn, htn⟩ := ht
    obtain ⟨k, hk, htk⟩ := (h.mem_lineage_iff hb).mp hmem
    refine ⟨n, hn, k, hk, (h.shares_iff (h.called n hn) hk.origin_lt).mpr ?_⟩
    rw [htn, htk]
  · rintro ⟨n, hn, k, hk, hshares⟩
    have hsame := (h.shares_iff (h.called n hn) hk.origin_lt).mp hshares
    obtain ⟨q, hq⟩ : ∃ q, f.branches[k]? = some q := ⟨_, List.getElem?_eq_getElem hk.origin_lt⟩
    obtain ⟨t, ht⟩ := h.exists_token hk.origin_lt
    refine ⟨t, (h.mem_lineage_iff hb).mpr ⟨k, hk, ht⟩, ?_⟩
    rw [List.contains_iff_mem, h.cancelled t]
    exact ⟨n, hn, hsame.trans ht⟩

/-- Cancelling a context with a token of its own reaches what was made from it,
and nothing else. -/
theorem reaches_own (hown : f.IsOwn j) : f.Reaches j i ↔ f.Descends j i := by
  constructor
  · rintro ⟨k, hk, o, hcopy, hcopy'⟩
    have hself : o = j := by
      cases hcopy with
      | self _ => rfl
      | link hstem hl _ =>
          rw [hown.2 _ _ hstem] at hl
          cases hl
    subst hself
    exact hcopy'.descends.trans hk
  · intro h
    exact ⟨j, h, j, .self h.origin_lt, .self h.origin_lt⟩

/-- What lies between a context and a copy of it is a copy as well. -/
theorem Sound.copyOf_between (h : f.Sound) (hcopy : f.CopyOf n j) (hij : f.Descends i j)
    (hni : f.Descends n i) : f.CopyOf n i := by
  induction hcopy with
  | self hn =>
      rw [h.antisymm hij hni]
      exact .self hn
  | @link j m l hstem hl hcopy ih =>
      rcases (descends_iff hstem).mp hij with rfl | hij
      · exact .link hstem hl hcopy
      · exact ih hij

/-- Cancelling what was made from a context does not reach that one, unless they
share a token. -/
theorem Sound.shares_of_reaches (h : f.Sound) (hdesc : f.Descends i j)
    (hreach : f.Reaches j i) : f.Shares i j := by
  obtain ⟨k, hk, n, hcopy, hcopy'⟩ := hreach
  exact ⟨n, h.copyOf_between hcopy hdesc (hcopy'.descends.trans hk), hcopy⟩

/-- The earliest of the instants that were asked for on the way to `i`, if there
are any. -/
def Earliest (f : Forest) (i : Nat) : Option Nat → Prop
  | some d => IsLeast {d | f.Asked i d} d
  | none => ∀ d, ¬ f.Asked i d

/-- What was asked for on the way to a context was asked for at the last link, or
on the way before. -/
theorem asked_iff (hstem : f.stem? i = some (n, l)) {d : Nat} :
    f.Asked i d ↔ f.limit? i = some d ∨ f.Asked n d := by
  unfold Asked
  simp only [descends_iff hstem]
  constructor
  · rintro ⟨k, rfl | hk, hlimit⟩
    · exact .inl hlimit
    · exact .inr ⟨k, hk, hlimit⟩
  · rintro (hlimit | ⟨k, hk, hlimit⟩)
    · exact ⟨i, .inl rfl, hlimit⟩
    · exact ⟨k, .inr hk, hlimit⟩

/-- The earlier of two instants is the least when the first was. -/
theorem earlier_isLeast {asked asked' : Nat → Prop} {deadline : Option Nat} {d : Nat}
    (hold : match deadline with
      | some d => IsLeast {d | asked d} d
      | none => ∀ d, ¬ asked d)
    (hnew : ∀ d', asked' d' ↔ d = d' ∨ asked d') :
    IsLeast {d | asked' d} (Context.earlier deadline d) := by
  cases deadline with
  | none =>
      refine ⟨(hnew d).mpr (.inl rfl), ?_⟩
      intro d' hd'
      rcases (hnew d').mp hd' with rfl | hd'
      · exact Nat.le_refl _
      · exact absurd hd' (hold d')
  | some before =>
      simp only [Context.earlier]
      refine ⟨?_, ?_⟩
      · split
        · exact (hnew before).mpr (.inr hold.1)
        · exact (hnew d).mpr (.inl rfl)
      · intro d' hd'
        rcases (hnew d').mp hd' with rfl | hd'
        · split <;> omega
        · have hle : before ≤ d' := hold.2 hd'
          split <;> omega

/-- **The deadline of a context** is the earliest that was asked for on the way
from its root. -/
theorem Sound.earliest (h : f.Sound) (hb : f.branches[i]? = some b) :
    f.Earliest i b.ctx.deadline := by
  refine h.climb (P := fun i b => f.Earliest i b.ctx.deadline) ?_ ?_ i b hb
  · intro i b token hb hstem hctx hlimit
    rw [hctx]
    rintro d ⟨k, hk, hd⟩
    rw [descends_iff_eq (List.getElem?_eq_some_iff.mp hb).1 hstem] at hk
    subst hk
    rw [limit?, hb, Option.bind_some, hlimit] at hd
    cases hd
  · intro i n l b p token hb hstem _ _ hctx ih
    have hasked : ∀ d, f.Asked i d ↔ b.limit = some d ∨ f.Asked n d := by
      intro d
      rw [asked_iff hstem, limit?, hb, Option.bind_some]
    cases hlimit : b.limit with
    | none =>
        have hdeadline : b.ctx.deadline = p.ctx.deadline := by rw [hctx, hlimit]; rfl
        have hsame : f.Asked i = f.Asked n := by
          funext d
          simp [hasked, hlimit]
        rw [hdeadline]
        unfold Earliest
        rw [hsame]
        exact ih
    | some d =>
        have hdeadline : b.ctx.deadline = some (Context.earlier p.ctx.deadline d) := by
          rw [hctx, hlimit]
          rfl
        rw [hdeadline]
        refine earlier_isLeast ih ?_
        intro d'
        rw [hasked, hlimit, Option.some_inj]

/-- What was attached last on the way to `i`, if anything was. -/
def Attached (f : Forest) (pick : Link → Option String) (i : Nat) : Option String → Prop
  | some id => f.LastAttached pick i id
  | none => ∀ k, f.Descends k i → f.attached? pick k = none

/-- **The ids of a context** are those attached last on the way from its root.
Here `id?` is one of the ids, which roots do not have and which a link replaces
by the one that it attaches. -/
theorem Sound.attached (h : f.Sound) (pick : Link → Option String) (id? : Context → Option String)
    (hroot : ∀ token, id? ⟨[token], none, none, none⟩ = none)
    (hlink : ∀ l ctx token limit, id? (Link.result l ctx token limit) = (pick l <|> id? ctx))
    (hb : f.branches[i]? = some b) : f.Attached pick i (id? b.ctx) := by
  refine h.climb (P := fun i b => f.Attached pick i (id? b.ctx)) ?_ ?_ i b hb
  · intro i b token hb hstem hctx _
    rw [hctx, hroot]
    intro k hk
    rw [descends_iff_eq (List.getElem?_eq_some_iff.mp hb).1 hstem] at hk
    rw [hk, attached?, hstem, Option.bind_none]
  · intro i n l b p token hb hstem _ _ hctx ih
    have hself : f.attached? pick i = pick l := by rw [attached?, hstem, Option.bind_some]
    rw [hctx, hlink]
    cases hpick : pick l with
    | some id =>
        refine ⟨i, .self (lt_of_stem? hstem), hself.trans hpick, ?_⟩
        intro k hk hik hne
        exact absurd (h.antisymm hk hik) hne
    | none =>
        rw [hpick] at hself
        cases hid : id? p.ctx with
        | none =>
            rw [hid] at ih
            intro k hk
            rcases (descends_iff hstem).mp hk with rfl | hk
            · exact hself
            · exact ih k hk
        | some id =>
            rw [hid] at ih
            obtain ⟨k, hk, hid, hlast⟩ := ih
            refine ⟨k, .link hstem hk, hid, ?_⟩
            intro k' hk' hkk' hne
            rcases (descends_iff hstem).mp hk' with rfl | hk'
            · exact hself
            · exact hlast k' hk' hkk' hne

/-- `f'` is what has become of `f`. -/
structure Becomes (f f' : Forest) : Prop where
  later : f.present.Later f'.present
  branches : f.branches <+: f'.branches
  cancels : f.cancels <+: f'.cancels

theorem Becomes.refl (f : Forest) : f.Becomes f :=
  ⟨.refl _, List.prefix_refl _, List.prefix_refl _⟩

theorem Becomes.trans {mid : Forest} (h : f.Becomes mid) (h' : mid.Becomes f') : f.Becomes f' :=
  ⟨h.later.trans h'.later, h.branches.trans h'.branches, h.cancels.trans h'.cancels⟩

/-- Contexts stay, what was cancelled stays so, and the clock does not go back. -/
theorem grow_becomes {g : Growth} (hg : f.grow g = .ok f') : f.Becomes f' := by
  cases g with
  | root =>
      cases hg
      exact ⟨⟨Nat.le_refl _, List.Subset.refl _⟩, List.prefix_append _ _, List.prefix_refl _⟩
  | link origin l =>
      simp only [grow] at hg
      split at hg
      · cases hg
        exact .refl f
      · obtain ⟨⟨ctx, tokens⟩, hmake, hadd⟩ := of_bind_ok hg
        cases hadd
        obtain ⟨-, rfl⟩ := Link.make_ok hmake
        exact ⟨⟨Nat.le_refl _, List.Subset.refl _⟩, List.prefix_append _ _, List.prefix_refl _⟩
  | cancel number =>
      simp only [grow] at hg
      split at hg
      · cases hg
        exact .refl f
      · cases hg
        exact ⟨⟨Nat.le_refl _, List.subset_append_right _ _⟩, List.prefix_refl _,
          List.prefix_append _ _⟩
  | advance nanos =>
      cases hg
      exact ⟨⟨Nat.le_add_right _ _, List.Subset.refl _⟩, List.prefix_refl _, List.prefix_refl _⟩

theorem growAll_becomes {growths : List Growth} (hg : f.growAll growths = .ok f') :
    f.Becomes f' := by
  induction growths generalizing f with
  | nil =>
      cases hg
      exact .refl _
  | cons g growths ih =>
      obtain ⟨mid, hfirst, hrest⟩ := of_bind_ok hg
      exact (grow_becomes hfirst).trans (ih hrest)

/-- What happens happens bit by bit. -/
theorem growAll_append (f : Forest) (before after : List Growth) :
    f.growAll (before ++ after) = (f.growAll before).bind (·.growAll after) := by
  induction before generalizing f with
  | nil => rfl
  | cons g before ih =>
      simp only [List.cons_append, growAll]
      cases f.grow g with
      | error why => rfl
      | ok mid => exact ih mid

/-- One thing can happen, and then the rest, if all timeouts can be added. -/
theorem grow_ok {g : Growth} {growths : List Growth}
    (h : Growth.Addable f.present.instant (g :: growths)) :
    ∃ f', f.grow g = .ok f' ∧ Growth.Addable f'.present.instant growths := by
  cases g with
  | root => exact ⟨_, rfl, h⟩
  | link origin l =>
      have hrest : Growth.Addable f.present.instant growths := by
        cases l with
        | derived d => cases d with
          | timeout span => exact h.2
          | child => exact h
          | deadline instant => exact h
        | copied => exact h
        | correlated id => exact h
        | caused id => exact h
      simp only [grow]
      split
      · exact ⟨f, rfl, hrest⟩
      · next b hb =>
          obtain ⟨made, hmade⟩ := Link.exists_make (l := l) b.ctx (m := f.present) <| by
            intro span hl
            subst hl
            exact h.1
          rw [hmade]
          exact ⟨_, rfl, hrest⟩
  | cancel number =>
      simp only [grow]
      split
      · exact ⟨f, rfl, h⟩
      · exact ⟨_, rfl, h⟩
  | advance nanos => exact ⟨_, rfl, h⟩

theorem growAll_ok {growths : List Growth} (h : Growth.Addable f.present.instant growths) :
    ∃ f', f.growAll growths = .ok f' := by
  induction growths generalizing f with
  | nil => exact ⟨f, rfl⟩
  | cons g growths ih =>
      obtain ⟨mid, hmid, hrest⟩ := grow_ok h
      obtain ⟨f', hf'⟩ := ih hrest
      refine ⟨f', ?_⟩
      rw [growAll, hmid]
      exact hf'

/-- What holds of every context `b` of a forest, whose number is `i`. -/
structure LawfulAt (f : Forest) (i : Nat) (b : Branch) : Prop where
  /-- It is cancelled through its own token, or the token of one that it was
  made from, whenever that was cancelled, and by nothing else. -/
  cancelled : b.ctx.isCancelled f.present.tokens = true ↔ ∃ n ∈ f.cancels, f.Reaches n i
  deadline : f.Earliest i b.ctx.deadline
  correlation : f.Attached Link.correlation? i b.ctx.correlationId
  causation : f.Attached Link.causation? i b.ctx.causationId
  err_cancelled : f.present.err b.ctx = some .cancelled ↔
    b.ctx.isCancelled f.present.tokens = true
  err_overdue : f.present.err b.ctx = some .deadlineExceeded ↔
    b.ctx.isCancelled f.present.tokens = false ∧
      ∃ d, b.ctx.deadline = some d ∧ d ≤ f.present.instant
  done : f.present.isDone b.ctx = true ↔
    b.ctx.isCancelled f.present.tokens = true ∨
      ∃ d, b.ctx.deadline = some d ∧ d ≤ f.present.instant

/-- What holds of every forest. -/
structure Lawful (f : Forest) : Prop where
  each : ∀ (i : Nat) (b : Branch), f.branches[i]? = some b → f.LawfulAt i b
  /-- A context with a token of its own cancels itself and what was made from
  it. -/
  downward : ∀ i j, f.IsOwn j → (f.Reaches j i ↔ f.Descends j i)
  /-- No context cancels one that it was made from, except as a copy of it. -/
  upward : ∀ i j, f.Descends i j → f.Reaches j i → f.Shares i j
  /-- A context has no later deadline than one that it was made from. -/
  sooner : ∀ (i j : Nat) (b p : Branch), f.branches[i]? = some b → f.branches[j]? = some p →
    f.Descends j i → ∀ d, p.ctx.deadline = some d → ∃ d', b.ctx.deadline = some d' ∧ d' ≤ d
  /-- A context has ended when one that it was made from has. -/
  inherited : ∀ (i j : Nat) (b p : Branch), f.branches[i]? = some b → f.branches[j]? = some p →
    f.Descends j i → f.present.isDone p.ctx = true → f.present.isDone b.ctx = true

theorem Sound.lawful (h : f.Sound) : f.Lawful where
  each _ _ hb :=
    { cancelled := h.isCancelled_iff hb
      deadline := h.earliest hb
      correlation := h.attached _ (·.correlationId) (fun _ => rfl) (fun _ _ _ _ => rfl) hb
      causation := h.attached _ (·.causationId) (fun _ => rfl) (fun _ _ _ _ => rfl) hb
      err_cancelled := Present.err_cancelled_iff
      err_overdue := Present.err_overdue_iff
      done := Present.isDone_iff }
  downward _ _ hown := reaches_own hown
  upward _ _ hdesc hreach := h.shares_of_reaches hdesc hreach
  sooner _ _ _ _ hb hp hdesc := (h.under hdesc hb hp).deadline
  inherited _ _ _ _ hb hp hdesc hdone := (h.under hdesc hb hp).isDone_at hdone

/-- **Contexts made from contexts.**  Contexts are derived from others, copied
and given ids, cancelled at any time and in any order, and time passes.  Then
cancelling a context reaches those that share its token, and all that were ever
made from one of these, and no other; a deadline is the earliest that was asked
for on the way from the root, and an id the one attached last on that way.  So
what was made from a context that has ended has ended, and what has ended stays
so. -/
theorem lawful_run (growths : List Growth) (h : Growth.Addable 0 growths) :
    ∃ f, bare.growAll growths = .ok f ∧ f.Lawful ∧
      ∀ before after, growths = before ++ after →
        ∃ f₀, bare.growAll before = .ok f₀ ∧ f₀.Becomes f ∧
          ∀ (i : Nat) (b : Branch), f₀.branches[i]? = some b →
            f.branches[i]? = some b ∧
              (f₀.present.isDone b.ctx = true → f.present.isDone b.ctx = true) := by
  obtain ⟨f, hf⟩ := growAll_ok (f := bare) h
  refine ⟨f, hf, (growAll_sound .bare hf).lawful, ?_⟩
  intro before after hgrowths
  subst hgrowths
  rw [growAll_append] at hf
  obtain ⟨f₀, hbefore, hafter⟩ := of_bind_ok hf
  have hbecomes := growAll_becomes hafter
  refine ⟨f₀, hbefore, hbecomes, ?_⟩
  intro i b hb
  refine ⟨?_, hbecomes.later.isDone⟩
  obtain ⟨rest, hrest⟩ := hbecomes.branches
  rw [← hrest, List.getElem?_append_left (List.getElem?_eq_some_iff.mp hb).1, hb]

/-- A root with a child, a copy of the child, a grandchild that is given two
milliseconds and a child of the root that is given four. -/
def sampleGrowths : List Growth :=
  [.root, .link 0 (.derived .child), .link 1 (.correlated "order"),
    .link 2 (.derived (.timeout (Span.ofMillis 2))),
    .link 0 (.derived (.timeout (Span.ofMillis 4))), .advance (Span.ofMillis 3), .cancel 2,
    .link 1 .copied, .advance (Span.ofMillis 1)]

/-- Which contexts are cancelled, and which have ended. -/
def upshots (f : Forest) : List (Bool × Bool) :=
  f.branches.map fun b => (b.ctx.isCancelled f.present.tokens, f.present.isDone b.ctx)

/-- Cancelling the copy cancels the child and the grandchild, and not the root;
the other child reaches its deadline. -/
theorem lawful_run_grafted :
    Growth.Addable 0 sampleGrowths ∧
      ∃ f, bare.growAll sampleGrowths = .ok f ∧ f.Lawful ∧
        f.upshots = [(false, false), (true, true), (true, true), (true, true), (false, true),
          (true, true)] := by
  have haddable : Growth.Addable 0 sampleGrowths := by
    simp only [sampleGrowths, Growth.Addable, Span.ofMillis, Span.milli, Span.second,
      Context.endOfTime]
    decide
  obtain ⟨f, hf, hlawful, -⟩ := lawful_run sampleGrowths haddable
  refine ⟨haddable, f, hf, hlawful, ?_⟩
  have hupshots : (bare.growAll sampleGrowths).toOption.map upshots =
      some [(false, false), (true, true), (true, true), (true, true), (false, true),
        (true, true)] := by
    decide +kernel
  rw [hf] at hupshots
  exact Option.some.inj hupshots

end PubSub.Forest
