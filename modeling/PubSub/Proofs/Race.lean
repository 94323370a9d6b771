import PubSub.Bus.Step
import PubSub.Proofs.Context
import PubSub.Race

/-!
# Who wins a race

While work goes on under a context, contexts are cancelled, time passes, and
now and then the race is resumed.  Who wins does not depend on luck: at each
resumption the context is asked first, so the work comes to its own end exactly
when it does so before the first resumption at which the wait for the end of the
context is over.

* `Present.isDone_of_isReleased` — the two notions of a deadline;
* `Incident`, `Race` — what happens around a race, and the race;
* `Race.Stands`, `Race.stands_run` — the record of a race, step by step;
* `Race.fixed_winner` — the law of races;
* `Context.resume_present`, `Bus.pollInvocation_resume` — races that are resumed
  at whole milliseconds, such as those of a bus.
-/

namespace PubSub

namespace Present

variable {m : Present} {ctx : Context} {d d' : Nat}

/-- A wait is over no earlier than it should be. -/
theorem le_of_isPast (h : m.isPast d = true) : d ≤ m.instant :=
  Nat.le_trans (wakeAt_bounds d).1 (of_decide_eq_true h)

/-- Waits that end on the same millisecond end together, and one that ends
before is over before. -/
theorem isPast_of_le (hle : wakeAt d ≤ wakeAt d') (h : m.isPast d' = true) :
    m.isPast d = true :=
  decide_eq_true (Nat.le_trans (Nat.mul_le_mul_right _ hle) (of_decide_eq_true h))

/-- The wait for the end of a context is over when it is cancelled, or the
millisecond of its deadline has come. -/
theorem isReleased_iff :
    m.isReleased ctx = true ↔
      ctx.isCancelled m.tokens = true ∨ ∃ d, ctx.deadline = some d ∧ m.isPast d = true := by
  simp [isReleased, Option.any_eq_true]

/-- When the wait for the end of a context is over, the context has ended. -/
theorem isDone_of_isReleased (h : m.isReleased ctx = true) : m.isDone ctx = true := by
  rcases isReleased_iff.mp h with hcancelled | ⟨d, hd, hpast⟩
  · exact isDone_iff.mpr (.inl hcancelled)
  · exact isDone_iff.mpr (.inr ⟨d, hd, le_of_isPast hpast⟩)

/-- Why a context has ended: it was cancelled, or else its deadline has
come. -/
def reason (m : Present) (ctx : Context) : Error :=
  if ctx.isCancelled m.tokens then .cancelled else .deadlineExceeded

/-- When the wait for the end of a context is over, there is a reason. -/
theorem err_of_isReleased (h : m.isReleased ctx = true) :
    m.err ctx = some (m.reason ctx) := by
  obtain ⟨e, he⟩ := Option.isSome_iff_exists.mp (isDone_of_isReleased h)
  rw [he]
  unfold err at he
  unfold reason
  split at he
  · next hcancelled => rw [if_pos hcancelled, he]
  · next hlive =>
      rw [if_neg hlive]
      split at he
      · exact he.symm
      · cases he

/-- At whole milliseconds, a context has ended when the wait for its end is
over. -/
theorem isReleased_present (a : Ambient) (ctx : Context) :
    a.present.isReleased ctx = a.isDone ctx := by
  rw [Bool.eq_iff_iff]
  refine ⟨isDone_of_isReleased, ?_⟩
  intro hdone
  have hdone : a.present.isDone ctx = true := hdone
  rcases isDone_iff.mp hdone with hcancelled | ⟨d, hd, hle⟩
  · exact isReleased_iff.mpr (.inl hcancelled)
  · refine isReleased_iff.mpr (.inr ⟨d, hd, decide_eq_true ?_⟩)
    exact Nat.mul_le_mul_right _ ((wakeAt_le_iff d a.now).mpr hle)

end Present

variable {ι σ α : Type}

/-- The work, which writes down its steps. -/
def Work.recorded (work : Work ι σ α) : Work ι (σ × List (Present × ι)) α :=
  fun m input (x, steps) =>
    let (x, conclusion?) := work m input x
    ((x, steps ++ [(m, input)]), conclusion?)

/-- What the work comes to when it is asked at these times and nobody asks the
context. -/
def Work.alone (work : Work ι σ α) : σ → List (Present × ι) → σ × Option (Conclusion α)
  | x, [] => (x, none)
  | x, poll :: polls =>
      match work poll.1 poll.2 x with
      | (y, none) => alone work y polls
      | (y, some conclusion) => (y, some conclusion)

/-- What happens around a race.  A step of the work that cancels a context is
followed by that cancellation. -/
inductive Incident (ι : Type) where
  | cancel (ctx : Context)
  /-- Let time pass. -/
  | pass (nanos : Nat)
  /-- The race is resumed. -/
  | resume (input : ι)

/-- The present after an incident. -/
def Present.next (m : Present) : Incident ι → Present
  | .cancel ctx => { m with tokens := m.tokens.cancel ctx }
  | .pass nanos => { m with instant := m.instant + nanos }
  | .resume _ => m

/-- When a race is resumed, with what. -/
def Incident.polls (m : Present) : List (Incident ι) → List (Present × ι)
  | [] => []
  | .resume input :: rest => (m, input) :: polls m rest
  | incident :: rest => polls (m.next incident) rest

/-- A race, and the steps that the work has taken. -/
structure Race (ι σ α : Type) where
  present : Present
  state : σ
  verdict : Verdict α
  steps : List (Present × ι)

namespace Race

/-- A race that has just begun. -/
def begin (ctx : Context) (work : Work ι σ α) (m : Present) (input : ι) (x : σ) : Race ι σ α :=
  let ((state, steps), verdict) := ctx.race work.recorded m input (x, [])
  ⟨m, state, verdict, steps⟩

/-- The race after an incident.  A race that is decided is not resumed. -/
def next (ctx : Context) (work : Work ι σ α) (r : Race ι σ α) (incident : Incident ι) :
    Race ι σ α :=
  match incident, r.verdict with
  | .resume input, .undecided =>
      let ((state, steps), verdict) :=
        ctx.resume work.recorded r.present input (r.state, r.steps)
      ⟨r.present, state, verdict, steps⟩
  | incident, _ => { r with present := r.present.next incident }

/-- The race after many incidents. -/
def run (ctx : Context) (work : Work ι σ α) (r : Race ι σ α) (schedule : List (Incident ι)) :
    Race ι σ α :=
  schedule.foldl (next ctx work) r

/-- The race that begins with `input` at `m`, after many incidents. -/
def held (ctx : Context) (work : Work ι σ α) (m : Present) (input : ι) (x : σ)
    (schedule : List (Incident ι)) : Race ι σ α :=
  (begin ctx work m input x).run ctx work schedule

variable {ctx : Context} {work : Work ι σ α} {r : Race ι σ α} {m : Present} {input : ι} {x y : σ}
  {polls polls' : List (Present × ι)} {poll : Present × ι} {conclusion : Conclusion α}

/-- One more step, as long as there is no conclusion. -/
theorem alone_concat (h : work.alone x polls = (y, none)) :
    work.alone x (polls ++ [poll]) = work poll.1 poll.2 y := by
  induction polls generalizing x with
  | nil =>
      cases h
      simp only [List.nil_append, Work.alone]
      split <;> simp_all
  | cons first polls ih =>
      simp only [List.cons_append, Work.alone] at h ⊢
      split at h
      · exact ih h
      · cases h

/-- After its conclusion, the work takes no step. -/
theorem alone_append (h : (work.alone x polls).2 = some conclusion) :
    work.alone x (polls ++ polls') = work.alone x polls := by
  induction polls generalizing x with
  | nil => cases h
  | cons first polls ih =>
      simp only [List.cons_append, Work.alone] at h ⊢
      split at h
      · exact ih h
      · rfl

/-- What the work comes to, it comes to at any later time. -/
theorem alone_later (h : (work.alone x polls).2 = some conclusion) (hle : polls <+: polls') :
    (work.alone x polls').2 = some conclusion := by
  obtain ⟨rest, rfl⟩ := hle
  rw [alone_append h, h]

/-- It comes to a conclusion at one of its polls, and at no other. -/
theorem eq_of_concludes {before before' : List (Present × ι)} {last last' : Present × ι}
    {conclusion' : Conclusion α} (hbegins : before ++ [last] <+: polls)
    (hbegins' : before' ++ [last'] <+: polls) (hbefore : (work.alone x before).2 = none)
    (hbefore' : (work.alone x before').2 = none)
    (hlast : (work.alone x (before ++ [last])).2 = some conclusion)
    (hlast' : (work.alone x (before' ++ [last'])).2 = some conclusion') :
    before ++ [last] = before' ++ [last'] := by
  rcases List.prefix_or_prefix_of_prefix hbegins hbegins' with hle | hle
  · rcases List.prefix_concat_iff.mp hle with hsame | hle
    · exact hsame
    · rw [alone_later hlast hle] at hbefore'
      cases hbefore'
  · rcases List.prefix_concat_iff.mp hle with hsame | hle
    · exact hsame.symm
    · rw [alone_later hlast' hle] at hbefore
      cases hbefore

/-- How a race stands that began at the first of these polls, with `x`, under a
context that had not ended. -/
inductive Stands (ctx : Context) (work : Work ι σ α) (x : σ) (polls : List (Present × ι))
    (r : Race ι σ α) : Prop
  /-- The work has taken a step at each poll, and the context never came first. -/
  | undecided (hverdict : r.verdict = .undecided) (hsome : r.steps ≠ []) (hpolls : polls = r.steps)
      (halone : work.alone x r.steps = (r.state, none))
      (hlive : ∀ poll ∈ r.steps.tail, poll.1.isReleased ctx = false)
  /-- The last step of the work was its conclusion. -/
  | own (conclusion : Conclusion α) (before : List (Present × ι)) (last : Present × ι)
      (hverdict : r.verdict = .own conclusion) (hsteps : r.steps = before ++ [last])
      (hpolls : r.steps <+: polls) (hbefore : (work.alone x before).2 = none)
      (halone : work.alone x r.steps = (r.state, some conclusion))
      (hlive : ∀ poll ∈ r.steps.tail, poll.1.isReleased ctx = false)
  /-- At the poll after the last step, the wait for the end of the context was
  over. -/
  | ended (poll : Present × ι) (hverdict : r.verdict = .ended (poll.1.reason ctx))
      (hsome : r.steps ≠ []) (hpolls : r.steps ++ [poll] <+: polls)
      (halone : work.alone x r.steps = (r.state, none))
      (hlive : ∀ poll ∈ r.steps.tail, poll.1.isReleased ctx = false)
      (hover : poll.1.isReleased ctx = true)

/-- A race that is resumed goes on as its record says. -/
theorem Stands.resume (h : Stands ctx work x polls r) (input : ι) :
    Stands ctx work x (polls ++ [(r.present, input)]) (r.next ctx work (.resume input)) := by
  cases h with
  | undecided hverdict hsome hpolls halone hlive =>
      subst hpolls
      simp only [next, hverdict, Context.resume]
      by_cases hover : r.present.isReleased ctx = true
      · rw [if_pos hover, Present.err_of_isReleased hover]
        exact .ended (r.present, input) rfl hsome (List.prefix_refl _) halone hlive hover
      · rw [if_neg hover]
        have hlive' : ∀ poll ∈ (r.steps ++ [(r.present, input)]).tail,
            poll.1.isReleased ctx = false := by
          rw [List.tail_append_of_ne_nil hsome]
          intro poll hpoll
          rcases List.mem_append.mp hpoll with hpoll | hpoll
          · exact hlive poll hpoll
          · rw [List.mem_singleton.mp hpoll]
            exact Bool.eq_false_iff.mpr hover
        have hnext : work.alone x (r.steps ++ [(r.present, input)]) =
            work r.present input r.state := alone_concat halone
        cases hstep : work r.present input r.state with
        | mk y conclusion? =>
            simp only [Work.recorded, hstep]
            rw [hstep] at hnext
            cases conclusion? with
            | none =>
                exact .undecided rfl (List.append_ne_nil_of_right_ne_nil _ (List.cons_ne_nil _ _))
                  rfl hnext hlive'
            | some conclusion =>
                exact .own conclusion r.steps (r.present, input) rfl rfl (List.prefix_refl _)
                  (by rw [halone]) hnext hlive'
  | own conclusion before last hverdict hsteps hpolls hbefore halone hlive =>
      simp only [next, hverdict]
      exact .own conclusion before last rfl hsteps (hpolls.trans (List.prefix_append _ _)) hbefore
        halone hlive
  | ended poll hverdict hsome hpolls halone hlive hover =>
      simp only [next, hverdict]
      exact .ended poll rfl hsome (hpolls.trans (List.prefix_append _ _)) halone hlive hover

/-- Nothing else changes how a race stands. -/
theorem Stands.surround (h : Stands ctx work x polls r) (m : Present) :
    Stands ctx work x polls { r with present := m } := by
  cases h with
  | undecided hverdict hsome hpolls halone hlive =>
      exact .undecided hverdict hsome hpolls halone hlive
  | own conclusion before last hverdict hsteps hpolls hbefore halone hlive =>
      exact .own conclusion before last hverdict hsteps hpolls hbefore halone hlive
  | ended poll hverdict hsome hpolls halone hlive hover =>
      exact .ended poll hverdict hsome hpolls halone hlive hover

/-- The present does not depend on the race. -/
theorem present_next (ctx : Context) (work : Work ι σ α) (r : Race ι σ α) (incident : Incident ι) :
    (r.next ctx work incident).present = r.present.next incident := by
  unfold next
  split <;> rfl

/-- Whatever happens, a race goes on as its record says. -/
theorem stands_run (h : Stands ctx work x polls r) (schedule : List (Incident ι)) :
    Stands ctx work x (polls ++ Incident.polls r.present schedule)
      (r.run ctx work schedule) := by
  induction schedule generalizing polls r with
  | nil =>
      rw [Incident.polls, List.append_nil]
      exact h
  | cons incident rest ih =>
      cases incident with
      | resume input =>
          have hrest := ih (h.resume input)
          rw [present_next, List.append_assoc] at hrest
          exact hrest
      | cancel other => exact ih (h.surround _)
      | pass nanos => exact ih (h.surround _)

/-- A race that begins under a context that has not ended takes its first step
at once. -/
theorem begin_eq (hlive : m.err ctx = none) :
    begin ctx work m input x =
      ⟨m, (work m input x).1, (work m input x).2.elim .undecided .own, [(m, input)]⟩ := by
  have hheld : m.isReleased ctx = false := by
    rw [Bool.eq_false_iff]
    intro hover
    rw [Present.err_of_isReleased hover] at hlive
    cases hlive
  simp [begin, Context.race, Context.resume, hlive, hheld, Work.recorded]

theorem begin_stands (hlive : m.err ctx = none) :
    Stands ctx work x [(m, input)] (begin ctx work m input x) := by
  have hfirst : work.alone x ([] ++ [(m, input)]) = work m input x := alone_concat rfl
  rw [begin_eq hlive]
  cases hstep : work m input x with
  | mk y conclusion? =>
      rw [hstep] at hfirst
      have hnone : ∀ poll ∈ [(m, input)].tail, poll.1.isReleased ctx = false :=
        fun _ hpoll => absurd hpoll List.not_mem_nil
      cases conclusion? with
      | none => exact .undecided rfl (List.cons_ne_nil _ _) rfl hfirst hnone
      | some conclusion =>
          exact .own conclusion [] (m, input) rfl rfl (List.prefix_refl _) rfl hfirst hnone

/-- A race that is decided stays as it is. -/
theorem run_decided (ctx : Context) (work : Work ι σ α) (hverdict : r.verdict ≠ .undecided)
    (schedule : List (Incident ι)) :
    (r.run ctx work schedule).state = r.state ∧ (r.run ctx work schedule).verdict = r.verdict ∧
      (r.run ctx work schedule).steps = r.steps := by
  induction schedule generalizing r with
  | nil => exact ⟨rfl, rfl, rfl⟩
  | cons incident rest ih =>
      have hnext : r.next ctx work incident =
          { r with present := r.present.next incident } := by
        unfold next
        split
        · next hundecided => exact absurd hundecided hverdict
        · rfl
      have hrest := ih (r := { r with present := r.present.next incident }) hverdict
      simp only [run, List.foldl_cons]
      rw [hnext]
      exact hrest

/-- The work wins when it comes to its conclusion before the first resumption at
which the wait for the end of the context is over. -/
theorem Stands.own_iff (h : Stands ctx work x polls r) :
    r.verdict = .own conclusion ↔
      ∃ before last, before ++ [last] <+: polls ∧ (work.alone x before).2 = none ∧
        (work.alone x (before ++ [last])).2 = some conclusion ∧
        ∀ poll ∈ (before ++ [last]).tail, poll.1.isReleased ctx = false := by
  constructor
  · intro hown
    cases h with
    | undecided hverdict _ _ _ _ => rw [hverdict] at hown; cases hown
    | ended poll hverdict _ _ _ _ _ => rw [hverdict] at hown; cases hown
    | own conclusion' before last hverdict hsteps hpolls hbefore halone hlive =>
        rw [hverdict] at hown
        cases hown
        rw [hsteps] at hpolls halone hlive
        exact ⟨before, last, hpolls, hbefore, by rw [halone], hlive⟩
  · rintro ⟨before, last, hbegins, hbefore, hlast, hlive⟩
    cases h with
    | undecided _ _ hpolls halone _ =>
        subst hpolls
        have hsome := alone_later hlast hbegins
        rw [halone] at hsome
        cases hsome
    | own conclusion' before' last' hverdict hsteps hpolls hbefore' halone hlive' =>
        rw [hsteps] at hpolls halone
        have hlast' : (work.alone x (before' ++ [last'])).2 = some conclusion' := by rw [halone]
        have hsame := eq_of_concludes hbegins hpolls hbefore hbefore' hlast hlast'
        rw [hsame, hlast'] at hlast
        cases hlast
        exact hverdict
    | ended poll _ hsome hpolls halone _ hover =>
        exfalso
        rcases List.prefix_or_prefix_of_prefix hbegins hpolls with hle | hle
        · rcases List.prefix_concat_iff.mp hle with hsame | hle
          · have hpoll := hlive poll (by
              rw [hsame, List.tail_append_of_ne_nil hsome]
              exact List.mem_append_right _ (List.mem_singleton_self _))
            rw [hover] at hpoll
            cases hpoll
          · have hconclusion := alone_later hlast hle
            rw [halone] at hconclusion
            cases hconclusion
        · obtain ⟨rest, hrest⟩ := hle
          have hpoll := hlive poll (by
            rw [← hrest, List.append_assoc, List.tail_append_of_ne_nil hsome]
            exact List.mem_append_right _ (List.mem_cons_self ..))
          rw [hover] at hpoll
          cases hpoll

/-- What holds of a race that begins with `input` at `m`, whatever happens
around it. -/
structure Lawful (ctx : Context) (work : Work ι σ α) (m : Present) (input : ι) (x : σ) :
    Prop where
  /-- Under a context that has ended, the work takes no step. -/
  refused : ∀ why, m.err ctx = some why → ∀ schedule,
    (held ctx work m input x schedule).verdict = .ended why ∧
      (held ctx work m input x schedule).state = x ∧
      (held ctx work m input x schedule).steps = []
  /-- Under another one, it takes its first step at once. -/
  begun : m.err ctx = none → held ctx work m input x [] =
    ⟨m, (work m input x).1, (work m input x).2.elim .undecided .own, [(m, input)]⟩
  /-- Once the wait for the end of the context is over, the race is over when it
  is resumed, and the work takes no further step. -/
  stopped : ∀ before input' r, held ctx work m input x before = r →
    r.verdict = .undecided → r.present.isReleased ctx = true →
    held ctx work m input x (before ++ [.resume input']) =
      { r with verdict := .ended (if ctx.isCancelled r.present.tokens then .cancelled
        else .deadlineExceeded) }
  /-- Until then, the work takes a step, and the race is over when that is its
  conclusion. -/
  stepped : ∀ before input' r, held ctx work m input x before = r →
    r.verdict = .undecided → r.present.isReleased ctx = false →
    held ctx work m input x (before ++ [.resume input']) =
      ⟨r.present, (work r.present input' r.state).1,
        (work r.present input' r.state).2.elim .undecided .own,
        r.steps ++ [(r.present, input')]⟩
  /-- Nothing else changes a race. -/
  surround : ∀ before incident r, held ctx work m input x before = r →
    (∀ input', incident ≠ .resume input') →
    held ctx work m input x (before ++ [incident]) =
      { r with present := r.present.next incident }
  /-- A race that is over stays as it is. -/
  settled : ∀ before after r, held ctx work m input x before = r → r.verdict ≠ .undecided →
    (held ctx work m input x (before ++ after)).state = r.state ∧
      (held ctx work m input x (before ++ after)).verdict = r.verdict ∧
      (held ctx work m input x (before ++ after)).steps = r.steps
  /-- The work wins when, asked at the same times but by itself, it comes to its
  conclusion at the beginning or at a resumption, and by then there was none at
  which the wait for the end of the context was over. -/
  own_iff : ∀ schedule conclusion,
    (held ctx work m input x schedule).verdict = .own conclusion ↔
      m.err ctx = none ∧ ∃ before last,
        before ++ [last] <+: (m, input) :: Incident.polls m schedule ∧
        (work.alone x before).2 = none ∧
        (work.alone x (before ++ [last])).2 = some conclusion ∧
        ∀ poll ∈ (before ++ [last]).tail, poll.1.isReleased ctx = false
  /-- Work that waits for an instant on the millisecond of the deadline, or on a
  later one, never wins. -/
  tie : ∀ d d', ctx.deadline = some d → wakeAt d ≤ wakeAt d' →
    (∀ m' input' y, m'.isPast d' = false → (work m' input' y).2 = none) →
    ∀ schedule conclusion, (held ctx work m input x schedule).verdict ≠ .own conclusion

theorem held_concat (ctx : Context) (work : Work ι σ α) (m : Present) (input : ι) (x : σ)
    (before after : List (Incident ι)) :
    held ctx work m input x (before ++ after) =
      (held ctx work m input x before).run ctx work after :=
  List.foldl_append ..

/-- Under a context that has ended, there is no race. -/
theorem held_refused (work : Work ι σ α) (input : ι) (x : σ) {why : Error}
    (h : m.err ctx = some why) (schedule : List (Incident ι)) :
    (held ctx work m input x schedule).state = x ∧
      (held ctx work m input x schedule).verdict = .ended why ∧
      (held ctx work m input x schedule).steps = [] := by
  have hbegin : begin ctx work m input x = ⟨m, x, .ended why, []⟩ := by
    simp [begin, Context.race, h]
  unfold held
  rw [hbegin]
  exact run_decided ctx work (by simp) schedule

/-- The work wins when it comes to its conclusion in time. -/
theorem held_own_iff (ctx : Context) (work : Work ι σ α) (m : Present) (input : ι) (x : σ)
    (schedule : List (Incident ι)) (conclusion : Conclusion α) :
    (held ctx work m input x schedule).verdict = .own conclusion ↔
      m.err ctx = none ∧ ∃ before last,
        before ++ [last] <+: (m, input) :: Incident.polls m schedule ∧
        (work.alone x before).2 = none ∧
        (work.alone x (before ++ [last])).2 = some conclusion ∧
        ∀ poll ∈ (before ++ [last]).tail, poll.1.isReleased ctx = false := by
  cases herr : m.err ctx with
  | some why =>
      rw [(held_refused work input x herr schedule).2.1]
      simp
  | none =>
      have hbegun : Stands ctx work x [(m, input)] (begin ctx work m input x) :=
        begin_stands herr
      have hpresent : (begin ctx work m input x).present = m := by rw [begin_eq herr]
      have hstands := stands_run hbegun schedule
      rw [hpresent] at hstands
      constructor
      · intro hverdict
        exact ⟨rfl, hstands.own_iff.mp hverdict⟩
      · rintro ⟨-, hwins⟩
        exact hstands.own_iff.mpr hwins

/-- Work that waits until the millisecond of the deadline, or a later one, does
not win. -/
theorem not_own_of_tie {d d' : Nat} (hd : ctx.deadline = some d) (hle : wakeAt d ≤ wakeAt d')
    (hwaits : ∀ m' input' y, m'.isPast d' = false → (work m' input' y).2 = none)
    (schedule : List (Incident ι)) (conclusion : Conclusion α) :
    (held ctx work m input x schedule).verdict ≠ .own conclusion := by
  intro hverdict
  obtain ⟨hlive, before, last, hbegins, hbefore, hlast, hheld⟩ :=
    (held_own_iff ctx work m input x schedule conclusion).mp hverdict
  have hover : last.1.isReleased ctx = true := by
    have hstep : work.alone x before = ((work.alone x before).1, none) := Prod.ext rfl hbefore
    rw [alone_concat hstep] at hlast
    cases hpast : last.1.isPast d' with
    | true => exact Present.isReleased_iff.mpr (.inr ⟨d, hd, Present.isPast_of_le hle hpast⟩)
    | false =>
        rw [hwaits _ _ _ hpast] at hlast
        cases hlast
  cases before with
  | nil =>
      rw [List.nil_append, List.cons_prefix_cons] at hbegins
      rw [hbegins.1] at hover
      rw [Present.err_of_isReleased hover] at hlive
      cases hlive
  | cons first before =>
      have hlast := hheld last (by simp)
      rw [hover] at hlast
      cases hlast

/-- **A race has a fixed winner.**  The context is asked when the race begins,
and then each time it is resumed, before the work.  If it has ended, the race is
over with its reason, and the work takes no step any more, even if it could; if
not, the work takes its step, and when it comes to its conclusion, that is what
the race comes to.  At the beginning a deadline counts to the nanosecond, later
by its millisecond; there is a reason in either case. -/
theorem fixed_winner (ctx : Context) (work : Work ι σ α) (m : Present) (input : ι) (x : σ) :
    Lawful ctx work m input x ∧
      ∀ m' : Present, m'.isReleased ctx = true → ∃ why, m'.err ctx = some why := by
  refine ⟨?_, fun m' hover => ⟨_, Present.err_of_isReleased hover⟩⟩
  have hnext : ∀ before input', held ctx work m input x (before ++ [.resume input']) =
      (held ctx work m input x before).next ctx work (.resume input') :=
    fun before input' => held_concat ctx work m input x before [.resume input']
  refine ⟨?_, ?_, ?_, ?_, ?_, ?_, held_own_iff ctx work m input x, ?_⟩
  · intro why hwhy schedule
    obtain ⟨hstate, hverdict, hsteps⟩ := held_refused work input x hwhy schedule
    exact ⟨hverdict, hstate, hsteps⟩
  · intro hlive
    exact begin_eq hlive
  · rintro before input' r rfl hundecided hover
    rw [hnext]
    simp only [next, hundecided, Context.resume, if_pos hover, Present.err_of_isReleased hover,
      Present.reason, Option.getD_some]
  · rintro before input' r rfl hundecided hlive
    rw [hnext]
    simp only [next, hundecided, Context.resume, hlive, Work.recorded]
    rfl
  · rintro before incident r rfl hother
    rw [held_concat]
    cases incident with
    | resume input' => exact absurd rfl (hother input')
    | cancel other => rfl
    | pass nanos => rfl
  · rintro before after r rfl hdecided
    rw [held_concat]
    exact run_decided ctx work hdecided after
  · intro d d' hd hle hwaits
    exact not_own_of_tie hd hle hwaits

end Race

/-- When the clock has just come to read what it reads, a race goes on unless
the context has ended. -/
theorem Context.resume_present (ctx : Context) (work : Work ι σ α) (a : Ambient) (input : ι)
    (x : σ) :
    ctx.resume work a.present input x =
      match a.err ctx with
      | some why => (x, .ended why)
      | none =>
          ((work a.present input x).1, (work a.present input x).2.elim .undecided .own) := by
  have hreleased : a.present.isReleased ctx = (a.err ctx).isSome :=
    Present.isReleased_present a ctx
  have herr : a.present.err ctx = a.err ctx := rfl
  rw [resume, hreleased, herr]
  cases a.err ctx <;> rfl

/-- Then there is no difference between the beginning of a race and its
resumption. -/
theorem Context.race_present (ctx : Context) (work : Work ι σ α) (a : Ambient) (input : ι)
    (x : σ) : ctx.race work a.present input x = ctx.resume work a.present input x := by
  have herr : a.present.err ctx = a.err ctx := rfl
  rw [race, herr, resume_present]
  cases a.err ctx <;> rfl

/-- What a handler does when it is asked: it is called first. -/
def Bus.answering : Work Bus.Reply Bool Unit := fun _ reply entered =>
  match entered, reply with
  | false, _ | true, .pending => (true, none)
  | true, .returned outcome => (true, some (.ok outcome))
  | true, .collapsed => (true, some (.error (.application "")))

/-- The invocations of a bus are races. -/
theorem Bus.pollInvocation_resume (b : Bus) (i : Invocation) (a : Ambient) (reply : Bus.Reply) :
    b.pollInvocation i (a.err i.ctx) reply =
      match i.ctx.resume answering a.present reply i.entered with
      | (_, .ended why) => b.finish i (.interrupted why)
      | (_, .own (.ok outcome)) => b.finish i (.returned outcome)
      | (_, .own (.error _)) => b.finish i .collapsed
      | (_, .undecided) => if i.entered then (b, []) else b.enterHandler i := by
  rw [i.ctx.resume_present]
  cases a.err i.ctx with
  | some why => rfl
  | none =>
      unfold pollInvocation answering
      cases i.entered <;> cases reply <;> rfl

end PubSub
