import PubSub.Proofs.Context
import PubSub.Proofs.Outcome
import PubSub.Proofs.Site.Basic

/-!
# Forests of contexts

Contexts are made from others, again and again: derived with a token of
their own, copied, or given an id.  Any of them may be cancelled at any
time, and time passes meanwhile.  A forest keeps, beside the contexts, how
each of them was made, and which of them were cancelled; these records say
what to expect of a context without a look at it.

* `Link`, `Growth`, `Forest.growAll` — how a forest grows;
* `Forest.Descends`, `Forest.Shares` — the records: what was made from what;
* `Forest.Sound`, `Forest.growAll_sound` — contexts agree with the records;
* `Forest.descends_iff_eq`, `Forest.descends_iff` — the way to a root, link
  by link.
-/

namespace PubSub

/-- The context derived at a moment, and the tokens afterwards. -/
def Derivation.deriveAt (d : Derivation) (ctx : Context) (m : Present) :
    Except Abort (Context × Tokens) :=
  match d with
  | .child => .ok (ctx.child m.tokens)
  | .timeout span => do .ok (ctx.withDeadline (← m.after span) m.tokens)
  | .deadline instant => .ok (ctx.withDeadline instant m.tokens)

/-- What is derived when the clock has just come to read what it reads. -/
theorem Derivation.deriveAt_present (d : Derivation) (ctx : Context) (a : Ambient) :
    d.deriveAt ctx a.present = d.derive ctx a := by
  cases d <;> rfl

/-- A span that was added to the clock gives the instant it stands for. -/
theorem Present.eq_of_after (m : Present) {span deadline : Nat} (h : m.after span = .ok deadline) :
    deadline = m.instant + span := by
  unfold after at h
  split at h
  · exact (Except.ok.inj h).symm
  · cases h

/-- How a context is made from another one. -/
inductive Link where
  /-- With a token of its own. -/
  | derived (d : Derivation)
  | copied
  | correlated (id : String)
  | caused (id : String)

namespace Link

/-- Does the new context get a token of its own? -/
def isDerived : Link → Bool
  | .derived _ => true
  | _ => false

/-- The instant at which the new context is asked to end, if it is. -/
def limit? (now : Nat) : Link → Option Nat
  | .derived (.timeout span) => some (now + span)
  | .derived (.deadline instant) => some instant
  | _ => none

/-- The correlation id that is attached, if one is. -/
def correlation? : Link → Option String
  | .correlated id => some id
  | _ => none

/-- The causation id that is attached, if one is. -/
def causation? : Link → Option String
  | .caused id => some id
  | _ => none

/-- The new context, and the tokens afterwards. -/
def make (l : Link) (ctx : Context) (m : Present) : Except Abort (Context × Tokens) :=
  match l with
  | .derived d => d.deriveAt ctx m
  | .copied => .ok (ctx, m.tokens)
  | .correlated id => .ok ({ ctx with correlationId := some id }, m.tokens)
  | .caused id => .ok ({ ctx with causationId := some id }, m.tokens)

/-- What a context becomes, if `token` is free and it is asked to end at
`limit`. -/
def result (l : Link) (ctx : Context) (token : Nat) (limit : Option Nat) : Context where
  lineage := if l.isDerived then token :: ctx.lineage else ctx.lineage
  deadline := match limit with
    | some d => some (Context.earlier ctx.deadline d)
    | none => ctx.deadline
  correlationId := l.correlation? <|> ctx.correlationId
  causationId := l.causation? <|> ctx.causationId

variable {l : Link} {ctx made : Context} {m : Present} {tokens : Tokens}

/-- A link that was made gives this result; the token is the next one, and is
used up by a derivation. -/
theorem make_ok (h : l.make ctx m = .ok (made, tokens)) :
    made = l.result ctx m.tokens.issued (l.limit? m.instant) ∧
      tokens = { m.tokens with
        issued := m.tokens.issued + if l.isDerived then 1 else 0 } := by
  cases l with
  | derived d =>
      cases d with
      | child => cases h; exact ⟨rfl, rfl⟩
      | deadline instant => cases h; exact ⟨rfl, rfl⟩
      | timeout span =>
          obtain ⟨deadline, hafter, hderived⟩ := of_bind_ok h
          rw [m.eq_of_after hafter] at hderived
          cases hderived
          exact ⟨rfl, rfl⟩
  | copied => cases h; exact ⟨rfl, rfl⟩
  | correlated id => cases h; exact ⟨rfl, rfl⟩
  | caused id => cases h; exact ⟨rfl, rfl⟩

/-- A link can be made, if the span of a timeout can be added to the clock. -/
theorem exists_make (ctx : Context)
    (h : ∀ span, l = .derived (.timeout span) →
      (m.instant + span) / Span.second < Context.endOfTime) :
    ∃ made, l.make ctx m = .ok made := by
  cases l with
  | derived d =>
      cases d with
      | child => exact ⟨_, rfl⟩
      | deadline instant => exact ⟨_, rfl⟩
      | timeout span =>
          have hafter : m.after span = .ok (m.instant + span) := if_pos (h span rfl)
          refine ⟨ctx.withDeadline (m.instant + span) m.tokens, ?_⟩
          rw [make, Derivation.deriveAt, hafter]
          rfl
  | copied => exact ⟨_, rfl⟩
  | correlated id => exact ⟨_, rfl⟩
  | caused id => exact ⟨_, rfl⟩

/-- The result depends on the context it was made from. -/
theorem result_under (l : Link) (ctx : Context) (token : Nat) (limit : Option Nat) :
    (l.result ctx token limit).Under ctx := by
  refine ⟨?_, ?_⟩
  · unfold result
    dsimp only
    split
    · exact List.suffix_cons _ _
    · exact List.suffix_refl _
  · intro d hd
    cases limit with
    | none => exact ⟨d, hd, Nat.le_refl d⟩
    | some instant => exact ⟨_, rfl, Context.earlier_le instant d hd⟩

/-- The tokens that the result holds have been handed out. -/
theorem result_issued {issued : Nat} {limit : Option Nat} (h : ∀ t ∈ ctx.lineage, t < issued) :
    ∀ t ∈ (l.result ctx issued limit).lineage, t < issued + if l.isDerived then 1 else 0 := by
  intro t ht
  cases hl : l.isDerived with
  | false =>
      simp only [result, hl, Bool.false_eq_true, if_false] at ht ⊢
      exact h t ht
  | true =>
      simp only [result, hl, if_true, List.mem_cons] at ht ⊢
      rcases ht with rfl | ht
      · exact Nat.lt_succ_self _
      · exact Nat.lt_succ_of_lt (h t ht)

end Link

/-- A context of a forest, with the record of how it was made. -/
structure Branch where
  ctx : Context
  /-- The number of the context it was made from, and how; nothing for a
  root. -/
  stem : Option (Nat × Link)
  /-- The instant at which it was asked to end, if it was. -/
  limit : Option Nat

/-- Contexts by their numbers, and the clock and the tokens. -/
structure Forest where
  present : Present
  branches : List Branch
  /-- The numbers of the contexts that were cancelled themselves. -/
  cancels : List Nat

/-- What happens in a forest.  Nothing happens to a number that no context
has. -/
inductive Growth where
  | root
  | link (origin : Nat) (l : Link)
  | cancel (number : Nat)
  /-- Let time pass. -/
  | advance (nanos : Nat)

/-- Every timeout can be added to the clock, if that reads `now` at first. -/
def Growth.Addable : (now : Nat) → List Growth → Prop
  | _, [] => True
  | now, .link _ (.derived (.timeout span)) :: rest =>
      (now + span) / Span.second < Context.endOfTime ∧ Addable now rest
  | now, .advance nanos :: rest => Addable (now + nanos) rest
  | now, _ :: rest => Addable now rest

namespace Forest

/-- A forest without contexts, at the beginning of time. -/
def bare : Forest := ⟨⟨0, .none⟩, [], []⟩

/-- The forest with one more context. -/
def add (f : Forest) (b : Branch) (tokens : Tokens) : Forest :=
  { f with present := { f.present with tokens }, branches := f.branches ++ [b] }

/-- The forest after one thing has happened. -/
def grow (f : Forest) : Growth → Except Abort Forest
  | .root =>
      let (ctx, tokens) := Context.fresh f.present.tokens
      .ok (f.add ⟨ctx, none, none⟩ tokens)
  | .link origin l =>
      match f.branches[origin]? with
      | none => .ok f
      | some b => do
          let (ctx, tokens) ← l.make b.ctx f.present
          .ok (f.add ⟨ctx, some (origin, l), l.limit? f.present.instant⟩ tokens)
  | .cancel number =>
      match f.branches[number]? with
      | none => .ok f
      | some b => .ok { f with
          present := { f.present with tokens := f.present.tokens.cancel b.ctx }
          cancels := f.cancels ++ [number] }
  | .advance nanos =>
      .ok { f with present := { f.present with instant := f.present.instant + nanos } }

/-- The forest after many things have happened. -/
def growAll (f : Forest) : List Growth → Except Abort Forest
  | [] => .ok f
  | g :: growths => do (← f.grow g).growAll growths

/-- What a context was made from, and how. -/
def stem? (f : Forest) (i : Nat) : Option (Nat × Link) := (f.branches[i]?).bind (·.stem)

/-- The token that a context holds. -/
def token? (f : Forest) (i : Nat) : Option Nat :=
  (f.branches[i]?).bind (·.ctx.lineage.head?)

/-- The instant at which a context was asked to end. -/
def limit? (f : Forest) (i : Nat) : Option Nat := (f.branches[i]?).bind (·.limit)

/-- What was attached to a context when it was made. -/
def attached? (f : Forest) (pick : Link → Option String) (i : Nat) : Option String :=
  (f.stem? i).bind fun stem => pick stem.2

/-- The way from a root to `i` leads through `j`. -/
inductive Descends (f : Forest) (j : Nat) : Nat → Prop
  | self (h : j < f.branches.length) : f.Descends j j
  | link {i n : Nat} {l : Link} (hstem : f.stem? i = some (n, l)) (h : f.Descends j n) :
      f.Descends j i

/-- `i` was made from `j` by copying and attaching ids alone. -/
inductive CopyOf (f : Forest) (j : Nat) : Nat → Prop
  | self (h : j < f.branches.length) : f.CopyOf j j
  | link {i n : Nat} {l : Link} (hstem : f.stem? i = some (n, l)) (hl : l.isDerived = false)
      (h : f.CopyOf j n) : f.CopyOf j i

/-- Contexts that are copies of the same one share its token. -/
def Shares (f : Forest) (i j : Nat) : Prop := ∃ o, f.CopyOf o i ∧ f.CopyOf o j

/-- A context with a token of its own: a root, or a derived context. -/
def IsOwn (f : Forest) (i : Nat) : Prop :=
  i < f.branches.length ∧ ∀ n l, f.stem? i = some (n, l) → l.isDerived = true

/-- Cancelling `j` reaches `i`: it shares its token with `i`, or with one that
`i` was made from. -/
def Reaches (f : Forest) (j i : Nat) : Prop := ∃ k, f.Descends k i ∧ f.Shares j k

/-- On the way from a root to `i`, an end was asked for at the instant `d`. -/
def Asked (f : Forest) (i d : Nat) : Prop := ∃ k, f.Descends k i ∧ f.limit? k = some d

/-- `id` was attached on the way from a root to `i`, and none after it. -/
def LastAttached (f : Forest) (pick : Link → Option String) (i : Nat) (id : String) : Prop :=
  ∃ k, f.Descends k i ∧ f.attached? pick k = some id ∧
    ∀ k', f.Descends k' i → f.Descends k k' → k' ≠ k → f.attached? pick k' = none

/-- The context of a number is what its record says. -/
inductive GrownAt (f : Forest) (i : Nat) (b : Branch) : Prop
  | root (token : Nat) (hstem : b.stem = none) (hctx : b.ctx = ⟨[token], none, none, none⟩)
      (hlimit : b.limit = none)
  | link {n : Nat} {l : Link} {p : Branch} (token : Nat) (hstem : b.stem = some (n, l))
      (hn : n < i) (hp : f.branches[n]? = some p)
      (hctx : b.ctx = l.result p.ctx token b.limit)

/-- What holds of a forest at any time: contexts are what their records say,
those with tokens of their own hold distinct ones, and the tokens that were
cancelled are those of the contexts that were. -/
structure Sound (f : Forest) : Prop where
  grown : ∀ (i : Nat) (b : Branch), f.branches[i]? = some b → f.GrownAt i b
  distinct : ∀ i j, f.IsOwn i → f.IsOwn j → f.token? i = f.token? j → i = j
  issued : ∀ (i : Nat) (b : Branch), f.branches[i]? = some b →
    ∀ t ∈ b.ctx.lineage, t < f.present.tokens.issued
  called : ∀ n ∈ f.cancels, n < f.branches.length
  cancelled : ∀ t, t ∈ f.present.tokens.cancelled ↔ ∃ n ∈ f.cancels, f.token? n = some t

variable {f f' : Forest} {i j k n t : Nat} {l : Link} {b new : Branch} {tokens : Tokens}

/-- A context that is what its record says stays so, as long as the others are
there. -/
theorem GrownAt.of_lookup (h : f.GrownAt i b)
    (hkept : ∀ (n : Nat) (p : Branch), f.branches[n]? = some p → f'.branches[n]? = some p) :
    f'.GrownAt i b := by
  cases h with
  | root token hstem hctx hlimit => exact .root token hstem hctx hlimit
  | link token hstem hn hp hctx => exact .link token hstem hn (hkept _ _ hp) hctx

theorem lt_of_stem? (h : f.stem? i = some (n, l)) : i < f.branches.length := by
  obtain ⟨b, hb, -⟩ := Option.bind_eq_some_iff.mp h
  exact (List.getElem?_eq_some_iff.mp hb).1

theorem Descends.lt (h : f.Descends j i) : i < f.branches.length := by
  cases h with
  | self h => exact h
  | link hstem h => exact lt_of_stem? hstem

/-- What a context was made from is there as well. -/
theorem Descends.origin_lt (h : f.Descends j i) : j < f.branches.length := by
  induction h with
  | self h => exact h
  | link _ _ ih => exact ih

theorem Descends.trans (h : f.Descends k j) (h' : f.Descends j i) : f.Descends k i := by
  induction h' with
  | self _ => exact h
  | link hstem _ ih => exact .link hstem ih

/-- A copy was made from what it is a copy of. -/
theorem CopyOf.descends (h : f.CopyOf j i) : f.Descends j i := by
  induction h with
  | self h => exact .self h
  | link hstem _ _ ih => exact .link hstem ih

/-- The way to a root ends there. -/
theorem descends_iff_eq (hi : i < f.branches.length) (hstem : f.stem? i = none) :
    f.Descends k i ↔ k = i := by
  constructor
  · intro h
    cases h with
    | self _ => rfl
    | link hsome _ => rw [hstem] at hsome; cases hsome
  · rintro rfl
    exact .self hi

/-- The way to another context leads through the one it was made from. -/
theorem descends_iff (hstem : f.stem? i = some (n, l)) :
    f.Descends k i ↔ k = i ∨ f.Descends k n := by
  constructor
  · intro h
    cases h with
    | self _ => exact .inl rfl
    | link hsome h =>
        rw [hstem] at hsome
        cases hsome
        exact .inr h
  · rintro (rfl | h)
    · exact .self (lt_of_stem? hstem)
    · exact .link hstem h

section Add

/-- A new context is the last one, and all others are as before. -/
theorem getElem?_add :
    (f.add new tokens).branches[i]? = some b ↔
      f.branches[i]? = some b ∨ i = f.branches.length ∧ new = b := by
  change (f.branches ++ [new])[i]? = some b ↔ _
  by_cases hi : i < f.branches.length
  · rw [List.getElem?_append_left hi]
    simp [Nat.ne_of_lt hi]
  · have hnone : f.branches[i]? = none := List.getElem?_eq_none (Nat.le_of_not_lt hi)
    rw [List.getElem?_append_right (Nat.le_of_not_lt hi), List.getElem?_singleton, hnone]
    have hlast : i - f.branches.length = 0 ↔ i = f.branches.length := by omega
    simp [hlast]

/-- Nothing else is recorded of the contexts that were there. -/
theorem record_add {α : Type} (new : Branch) (tokens : Tokens) (g : Branch → Option α)
    (hi : i < f.branches.length) :
    ((f.add new tokens).branches[i]?).bind g = (f.branches[i]?).bind g := by
  change ((f.branches ++ [new])[i]?).bind g = _
  rw [List.getElem?_append_left hi]

/-- What is recorded of the new one. -/
theorem record_add_self {α : Type} (f : Forest) (new : Branch) (tokens : Tokens)
    (g : Branch → Option α) :
    ((f.add new tokens).branches[f.branches.length]?).bind g = g new := by
  change ((f.branches ++ [new])[f.branches.length]?).bind g = _
  simp

/-- A context with a token of its own is the new one, or was there. -/
theorem isOwn_add (h : (f.add new tokens).IsOwn i) :
    f.IsOwn i ∨ i = f.branches.length ∧ ∀ n l, new.stem = some (n, l) → l.isDerived = true := by
  obtain ⟨hi, hown⟩ := h
  by_cases hlt : i < f.branches.length
  · refine .inl ⟨hlt, ?_⟩
    intro n l hstem
    exact hown n l ((record_add new tokens (·.stem) hlt).trans hstem)
  · have hlast : i = f.branches.length := by
      have hlength : (f.add new tokens).branches.length = f.branches.length + 1 := by simp [add]
      omega
    subst hlast
    refine .inr ⟨rfl, ?_⟩
    intro n l hstem
    exact hown n l ((record_add_self f new tokens (·.stem)).trans hstem)

end Add

namespace Sound

/-- The tokens that are held have been handed out. -/
theorem token_lt (h : f.Sound) (ht : f.token? i = some t) : t < f.present.tokens.issued := by
  obtain ⟨b, hb, hhead⟩ := Option.bind_eq_some_iff.mp ht
  exact h.issued i b hb t (List.mem_of_mem_head? hhead)

/-- There is nothing to be wrong in a forest without contexts. -/
theorem bare : bare.Sound where
  grown i b hb := by simp [Forest.bare] at hb
  distinct i j hi := by simp [IsOwn, Forest.bare] at hi
  issued i b hb := by simp [Forest.bare] at hb
  called n hn := by simp [Forest.bare] at hn
  cancelled t := by simp [Forest.bare, Tokens.none]

/-- A forest with one more context, made as its record says.  If it has a token
of its own, that is the next one. -/
theorem add (h : f.Sound) (hgrown : (f.add new tokens).GrownAt f.branches.length new)
    (hcancelled : tokens.cancelled = f.present.tokens.cancelled)
    (hissued : f.present.tokens.issued ≤ tokens.issued)
    (hlineage : ∀ t ∈ new.ctx.lineage, t < tokens.issued)
    (hown : (∀ n l, new.stem = some (n, l) → l.isDerived = true) →
      new.ctx.lineage.head? = some f.present.tokens.issued) : (f.add new tokens).Sound where
  grown i b hb := by
    rcases getElem?_add.mp hb with hb | ⟨rfl, rfl⟩
    · exact (h.grown i b hb).of_lookup fun n p hp => getElem?_add.mpr (.inl hp)
    · exact hgrown
  distinct i j hi hj htoken := by
    -- the next token is held by nobody yet
    have hfresh : ∀ i, f.IsOwn i →
        (f.add new tokens).token? i ≠ some f.present.tokens.issued := by
      intro i hi ht
      exact Nat.lt_irrefl _ (h.token_lt ((record_add new tokens _ hi.1).symm.trans ht))
    have hself := fun hstem =>
      (record_add_self f new tokens (·.ctx.lineage.head?)).trans (hown hstem)
    rcases isOwn_add hi with hold | ⟨rfl, hnew⟩
    · rcases isOwn_add hj with hold' | ⟨rfl, hnew'⟩
      · refine h.distinct i j hold hold' ?_
        have hti := record_add new tokens (·.ctx.lineage.head?) hold.1
        have htj := record_add new tokens (·.ctx.lineage.head?) hold'.1
        exact hti.symm.trans (htoken.trans htj)
      · exact absurd (htoken.trans (hself hnew')) (hfresh i hold)
    · rcases isOwn_add hj with hold' | ⟨rfl, hnew'⟩
      · exact absurd (htoken.symm.trans (hself hnew)) (hfresh j hold')
      · rfl
  issued i b hb t ht := by
    rcases getElem?_add.mp hb with hb | ⟨-, rfl⟩
    · exact Nat.lt_of_lt_of_le (h.issued i b hb t ht) hissued
    · exact hlineage t ht
  called n hn := by
    have hlt := h.called n hn
    simp only [Forest.add, List.length_append, List.length_singleton]
    omega
  cancelled t := by
    have hsame : (f.add new tokens).present.tokens.cancelled = f.present.tokens.cancelled :=
      hcancelled
    rw [hsame, h.cancelled t]
    refine exists_congr fun n => and_congr_right fun hn => ?_
    have htoken : (f.add new tokens).token? n = f.token? n :=
      record_add new tokens _ (h.called n hn)
    rw [htoken]

/-- A context is made from another one. -/
theorem link (h : f.Sound) {p : Branch} {ctx : Context} (hp : f.branches[n]? = some p)
    (hmake : l.make p.ctx f.present = .ok (ctx, tokens)) :
    (f.add ⟨ctx, some (n, l), l.limit? f.present.instant⟩ tokens).Sound := by
  obtain ⟨rfl, rfl⟩ := Link.make_ok hmake
  have hlt := (List.getElem?_eq_some_iff.mp hp).1
  refine h.add (.link _ rfl hlt (getElem?_add.mpr (.inl hp)) rfl) rfl (Nat.le_add_right _ _)
    (Link.result_issued (h.issued n p hp)) fun hown => ?_
  have hl : l.isDerived = true := hown n l rfl
  simp [Link.result, hl]

/-- A context is cancelled. -/
theorem cancel (h : f.Sound) (hb : f.branches[n]? = some b) :
    ({ f with
      present := { f.present with tokens := f.present.tokens.cancel b.ctx }
      cancels := f.cancels ++ [n] } : Forest).Sound where
  grown i b hb := (h.grown i b hb).of_lookup fun _ _ hp => hp
  distinct := h.distinct
  issued := h.issued
  called k hk := by
    rcases List.mem_append.mp hk with hk | hk
    · exact h.called k hk
    · rw [List.mem_singleton.mp hk]
      exact (List.getElem?_eq_some_iff.mp hb).1
  cancelled t := by
    have htoken : f.token? n = b.ctx.lineage.head? := by
      rw [token?, hb]
      rfl
    have htake : t ∈ b.ctx.lineage.take 1 ↔ f.token? n = some t := by
      rw [htoken]
      cases b.ctx.lineage <;> simp [eq_comm]
    have hbefore := h.cancelled t
    simp only [Tokens.cancel, List.mem_append, List.mem_singleton, htake, hbefore]
    constructor
    · rintro (ht | ⟨k, hk, ht⟩)
      · exact ⟨n, .inr rfl, ht⟩
      · exact ⟨k, .inl hk, ht⟩
    · rintro ⟨k, hk | rfl, ht⟩
      · exact .inr ⟨k, hk, ht⟩
      · exact .inl ht

/-- Whatever happens, contexts agree with the records. -/
theorem grow (h : f.Sound) {g : Growth} (hg : f.grow g = .ok f') : f'.Sound := by
  cases g with
  | root =>
      cases hg
      refine h.add (.root _ rfl rfl rfl) rfl (Nat.le_succ _) ?_ fun _ => rfl
      intro t ht
      rw [List.mem_singleton.mp ht]
      exact Nat.lt_succ_self _
  | link origin l =>
      cases horigin : f.branches[origin]? with
      | none =>
          simp only [Forest.grow, horigin] at hg
          cases hg
          exact h
      | some p =>
          simp only [Forest.grow, horigin] at hg
          obtain ⟨⟨ctx, tokens⟩, hmake, hadd⟩ := of_bind_ok hg
          cases hadd
          exact h.link horigin hmake
  | cancel number =>
      cases hnumber : f.branches[number]? with
      | none =>
          simp only [Forest.grow, hnumber] at hg
          cases hg
          exact h
      | some b =>
          simp only [Forest.grow, hnumber] at hg
          cases hg
          exact h.cancel hnumber
  | advance nanos =>
      cases hg
      exact ⟨fun i b hb => (h.grown i b hb).of_lookup fun _ _ hp => hp, h.distinct, h.issued,
        h.called, h.cancelled⟩

end Sound

/-- In every forest, contexts agree with the records. -/
theorem growAll_sound {growths : List Growth} (h : f.Sound)
    (hg : f.growAll growths = .ok f') : f'.Sound := by
  induction growths generalizing f with
  | nil =>
      cases hg
      exact h
  | cons g growths ih =>
      obtain ⟨mid, hfirst, hrest⟩ := of_bind_ok hg
      exact ih (h.grow hfirst) hrest

end Forest
end PubSub
