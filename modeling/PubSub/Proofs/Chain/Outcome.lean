import PubSub.Proofs.Chain.Passage

/-!
# What a delivery comes to

Of all that can be seen of a delivery, two kinds of events have an outcome:
the handler returns, or a payload cannot be restored.  Stages hand outcomes
on as they are, and after a failure they may begin another attempt.  So what
a delivery comes to is what its last event has come to, however many stages
repeat attempts inside each other.

* `Sight.outcome?`, `Passage.LastEvent` — events and the last of them;
* `Passage.inwardOf` — what was seen of an attempt on the way in;
* `Passage.Plain` — no outcome is swallowed, replaced or invented;
* `Passage.Stands`, `Stands.next` — what every step keeps;
* `Route.outcome_run` — that it is so in every run.
-/

namespace PubSub

/-- The outcome of an event: the handler has returned, or a payload could not
be restored. -/
def Sight.outcome? : Sight → Option (Except Error Unit)
  | .answered outcome => some outcome
  | .failed e => some (.error e)
  | _ => none

/-- An event is a success if and only if the handler has returned with it. -/
theorem Sight.ok_iff {s : Sight} {outcome : Except Error Unit} (h : s.outcome? = some outcome) :
    outcome = .ok () ↔ s = .answered (.ok ()) := by
  cases s with
  | entered stage given => cases h
  | called given => cases h
  | failed e =>
      cases h
      simp
  | answered answer =>
      cases h
      simp

namespace Passage

/-- The last event that was seen. -/
def LastEvent (p : Passage) (s : Sighting) : Prop :=
  s.sight.outcome?.isSome ∧ ∃ before after, p.record = before ++ s :: after ∧
    ∀ later ∈ after, later.sight.outcome? = none

/-- What was seen of an attempt on the way in. -/
def inwardOf (p : Passage) (n : Nat) : List Sight :=
  (p.record.filter fun s => decide (s.attempt = n) && !s.sight.isAnswer).map (·.sight)

/-- No outcome is swallowed, replaced or invented. -/
structure Plain (p : Passage) : Prop where
  /-- A delivery is over when it has come to something. -/
  settled {outcome : Except Error Unit} : p.delivery.progress = .finished outcome ↔
    ∃ t, p.result = some (t, outcome)
  /-- It has come to the outcome of the last event: to success if that is the
  return of the handler with success, and to the event's own error otherwise. -/
  last {t : Nat} {outcome : Except Error Unit} (h : p.result = some (t, outcome)) :
    ∃ s, p.LastEvent s ∧ s.sight.outcome? = some outcome ∧
      (outcome = .ok () ↔ s.sight = .answered (.ok ()))
  /-- The handler is not called in an attempt in which a payload could not be
  restored. -/
  apart {t t' n : Nat} {e : Error} {given : Arrival} (h : ⟨t, n, .failed e⟩ ∈ p.record) :
    ⟨t', n, .called given⟩ ∉ p.record
  /-- Once the handler has returned with success, nothing is entered any more. -/
  done {before after : List Sighting} {s : Sighting} (h : p.record = before ++ s :: after)
    (hok : s.sight = .answered (.ok ())) : after = [] ∧ p.result = some (s.time, .ok ())
  /-- An attempt passes stages up to the handler, which is called with what they
  hand on, or up to one that could not restore the payload, whose failure is
  the one that is seen. -/
  genuine {n : Nat} (hn : 1 ≤ n) (h : n ≤ p.attempts) :
    ∃ stages given, p.inwardOf n = Stage.seen stages given
  /-- The delivery stands at the handler if and only if it has called it last. -/
  standing {given : Arrival} : p.Handles given ↔ p.HasCalled given

/-- The last event has come to an outcome. -/
def HasCome (p : Passage) (outcome : Except Error Unit) : Prop :=
  ∃ s, p.LastEvent s ∧ s.sight.outcome? = some outcome

/-- Where a delivery stands says what its last event has come to. -/
def Agrees (p : Passage) : Progress → Prop
  | .handling .. => p.result = none
  | .pausing _ failure _ _ => p.HasCome (.error failure) ∧ p.result = none
  | .finished outcome => p.HasCome outcome ∧ ∃ t, p.result = some (t, outcome)

/-- What is true of a passage at any time. -/
structure Stands (p : Passage) : Prop where
  agrees : p.Agrees p.delivery.progress
  numbered : ∀ s ∈ p.record, s.attempt ≤ p.attempts
  apart {t t' n : Nat} {e : Error} {given : Arrival} (h : ⟨t, n, .failed e⟩ ∈ p.record) :
    ⟨t', n, .called given⟩ ∉ p.record
  genuine {n : Nat} (hn : 1 ≤ n) (h : n ≤ p.attempts) :
    ∃ stages given, p.inwardOf n = Stage.seen stages given
  done {k : Nat} {s : Sighting} (h : p.record[k]? = some s)
    (hok : s.sight = .answered (.ok ())) :
    k + 1 = p.record.length ∧ p.result = some (s.time, .ok ())

variable {p p' : Passage} {r : Route} {step : Delivery × List Note} {seen : List Sight}

/-- The last event has come to its outcome. -/
theorem HasCome.of_last {before : List Sighting} {s : Sighting} {outcome : Except Error Unit}
    (hrecord : p.record = before ++ [s]) (hs : s.sight.outcome? = some outcome) :
    p.HasCome outcome :=
  ⟨s, ⟨by rw [hs]; rfl, before, [], hrecord, by simp⟩, hs⟩

/-- On the way out, a delivery comes to the outcome of the last event, or
pauses with its failure. -/
theorem agrees_leave {outcome : Except Error Unit} {now drawn : Nat} {ended : Bool}
    {frames : List Frame} {pace : Pace}
    (hstep : step.1 = (Delivery.leave pace now ended outcome drawn frames).1)
    (hcome : (p.move step seen).HasCome outcome) :
    (p.move step seen).Agrees (p.move step seen).delivery.progress := by
  change (p.move step seen).Agrees step.1.progress
  rcases Delivery.leave_cases pace now ended outcome drawn frames with
    hfinished | ⟨passed, attempts, rest, until_, e, -, rfl, hpausing⟩
  · rw [hstep, hfinished]
    refine ⟨hcome, p.ambient.now, ?_⟩
    simp only [move, hstep, hfinished]
  · rw [hstep, hpausing]
    refine ⟨hcome, ?_⟩
    simp only [move, hstep, hpausing]

/-- Wherever it has gone in, a delivery agrees with what was seen. -/
theorem agrees_enter {stages : List Stage} {given : Arrival} {now drawn : Nat} {ended : Bool}
    {frames : List Frame} {pace : Pace}
    (hstep : step.1 = (Delivery.enter pace now ended drawn stages given frames).1) :
    (p.goIn stages given step).Agrees (p.goIn stages given step).delivery.progress := by
  have hrecord := goIn_record (p := p) hstep
  rw [Delivery.enter_eq] at hstep
  cases hgiven : Stage.giveAll stages given with
  | ok arrival =>
      rw [hgiven] at hstep
      change (p.goIn stages given step).Agrees step.1.progress
      rw [hstep]
      change (p.goIn stages given step).result = none
      simp only [goIn, move, hstep, Delivery.reach]
  | error e =>
      -- the failure was seen last
      rw [hgiven] at hstep hrecord
      exact agrees_leave hstep (.of_last hrecord rfl)

/-- What is seen on the way in is seen of the present attempt. -/
theorem inwardOf_move (p : Passage) (step : Delivery × List Note) (seen : List Sight) (n : Nat) :
    (p.move step seen).inwardOf n =
      p.inwardOf n ++ if p.attempts = n then seen.filter (fun s => !s.isAnswer) else [] := by
  simp only [inwardOf, move, List.filter_append, List.filter_map, List.map_append, List.map_map]
  refine congrArg (_ ++ ·) ((List.map_id _).trans ?_)
  split
  · rename_i hn
    refine List.filter_congr fun s _ => ?_
    simp [hn]
  · rename_i hn
    refine List.filter_eq_nil_iff.mpr fun s _ => ?_
    simp [hn]

/-- Going in once more is an attempt of its own. -/
theorem inwardOf_goIn {stages : List Stage} {given : Arrival} {now drawn : Nat} {ended : Bool}
    {frames : List Frame} {pace : Pace}
    (hstep : step.1 = (Delivery.enter pace now ended drawn stages given frames).1)
    (hnumbered : ∀ s ∈ p.record, s.attempt ≤ p.attempts) (n : Nat) :
    (p.goIn stages given step).inwardOf n =
      if n = p.attempts + 1 then Stage.seen stages given else p.inwardOf n := by
  rw [goIn_eq hstep, inwardOf_move, Stage.seen_inward]
  change p.inwardOf n ++ (if p.attempts + 1 = n then _ else _) = _
  by_cases hn : n = p.attempts + 1
  · -- nothing was seen of it before
    have hnone : p.inwardOf n = [] := by
      refine List.map_eq_nil_iff.mpr (List.filter_eq_nil_iff.mpr fun s hs => ?_)
      have hbefore : s.attempt ≠ n := by
        have hnumber := hnumbered s hs
        omega
      simp [hbefore]
    rw [if_pos hn.symm, if_pos hn, hnone, List.nil_append]
  · rw [if_neg fun h => hn h.symm, if_neg hn, List.append_nil]

namespace Stands

/-- As long as a delivery is not over, its handler has not returned with
success. -/
theorem not_ok (h : p.Stands) (hgoing : ∀ outcome, p.delivery.progress ≠ .finished outcome)
    {s : Sighting} (hs : s ∈ p.record) : s.sight ≠ .answered (.ok ()) := by
  intro hok
  obtain ⟨k, hk⟩ := List.mem_iff_getElem?.mp hs
  have hresult := (h.done hk hok).2
  have hagrees := h.agrees
  cases hprogress : p.delivery.progress with
  | handling given frames =>
      rw [hprogress] at hagrees
      cases hagrees.symm.trans hresult
  | pausing until_ failure attempts frames =>
      rw [hprogress] at hagrees
      cases hagrees.2.symm.trans hresult
  | finished outcome => exact hgoing outcome hprogress

/-- The handler has returned. -/
theorem answered (h : p.Stands) {given : Arrival} {frames : List Frame}
    (hprogress : p.delivery.progress = .handling given frames) {pace : Pace} {ended : Bool}
    {outcome : Except Error Unit}
    (hstep : step = Delivery.leave pace p.ambient.now ended outcome p.delivery.drawn frames) :
    (p.move step [.answered outcome]).Stands where
  agrees := agrees_leave (congrArg Prod.fst hstep) (.of_last rfl rfl)
  numbered s hs := by
    rcases List.mem_append.mp hs with hold | hnew
    · exact h.numbered s hold
    · rw [List.mem_singleton.mp hnew]
      exact Nat.le_refl _
  apart hfailed hcalled := by
    rcases List.mem_append.mp hfailed with hfailed | hnew
    · rcases List.mem_append.mp hcalled with hcalled | hnew
      · exact h.apart hfailed hcalled
      · cases List.mem_singleton.mp hnew
    · cases List.mem_singleton.mp hnew
  genuine {n} hn hle := by
    obtain ⟨stages, given, hseen⟩ := h.genuine hn hle
    refine ⟨stages, given, ?_⟩
    rw [inwardOf_move, hseen]
    split <;> exact List.append_nil _
  done {k s} hs hok := by
    have hgoing : ∀ outcome, p.delivery.progress ≠ .finished outcome := by simp [hprogress]
    change (p.record ++ [_])[k]? = some s at hs
    rw [List.getElem?_append] at hs
    split at hs
    · exact absurd hok (h.not_ok hgoing (List.mem_of_getElem? hs))
    · obtain ⟨hk, -⟩ := List.getElem?_eq_some_iff.mp hs
      obtain rfl := List.mem_singleton.mp (List.mem_of_getElem? hs)
      cases hok
      rcases Delivery.leave_cases pace p.ambient.now ended (.ok ()) p.delivery.drawn frames with
        hfinished | ⟨_, _, _, _, _, -, hfailed, -⟩
      · refine ⟨?_, by simp only [move, hstep, hfinished]⟩
        simp only [move, List.length_append, List.length_map]
        simp only [List.length_singleton] at hk ⊢
        omega
      · cases hfailed

/-- The delivery has gone in once more. -/
theorem goIn (hnumbered : ∀ s ∈ p.record, s.attempt ≤ p.attempts)
    (hapart : ∀ {t t' n e given}, ⟨t, n, .failed e⟩ ∈ p.record → ⟨t', n, .called given⟩ ∉ p.record)
    (hgenuine : ∀ {n}, 1 ≤ n → n ≤ p.attempts →
      ∃ stages given, p.inwardOf n = Stage.seen stages given)
    (hnot : ∀ s ∈ p.record, s.sight ≠ .answered (.ok ())) {stages : List Stage}
    {given : Arrival} {pace : Pace} {now drawn : Nat} {ended : Bool} {frames : List Frame}
    (hstep : step = Delivery.enter pace now ended drawn stages given frames) :
    (p.goIn stages given step).Stands := by
  have hgone := goIn_eq (p := p) (congrArg Prod.fst hstep)
  have hnew {s : Sighting} (hs : s ∈ (Stage.seen stages given).map
      (⟨p.ambient.now, p.attempts + 1, ·⟩)) : s.attempt = p.attempts + 1 ∧
        ((∃ stage given, s.sight = .entered stage given) ∨
          s.sight = .arrived (Stage.giveAll stages given)) := by
    obtain ⟨sight, hsight, rfl⟩ := List.mem_map.mp hs
    refine ⟨rfl, ?_⟩
    rcases List.mem_append.mp hsight with hentered | harrived
    · obtain ⟨stage, -, given', hsight⟩ := Stage.of_mem_entrances hentered
      exact .inl ⟨stage, given', hsight⟩
    · exact .inr (List.mem_singleton.mp harrived)
  refine ⟨agrees_enter (congrArg Prod.fst hstep), ?_, ?_, ?_, ?_⟩ <;> rw [hgone]
  · intro s hs
    rcases List.mem_append.mp hs with hold | hs
    · exact Nat.le_succ_of_le (hnumbered s hold)
    · exact Nat.le_of_eq (hnew hs).1
  · -- a new attempt has a number of its own, and comes to one end
    intro t t' n e given' hfailed hcalled
    rcases List.mem_append.mp hfailed with hfailed | hfailed
    · rcases List.mem_append.mp hcalled with hcalled | hcalled
      · exact hapart hfailed hcalled
      · have hnumber : n ≤ p.attempts := hnumbered _ hfailed
        have hnext : n = p.attempts + 1 := (hnew hcalled).1
        omega
    · have hnext : n = p.attempts + 1 := (hnew hfailed).1
      have hsame : Sight.failed e = .arrived (Stage.giveAll stages given) := by
        simpa using (hnew hfailed).2
      rcases List.mem_append.mp hcalled with hcalled | hcalled
      · have hnumber : n ≤ p.attempts := hnumbered _ hcalled
        omega
      · have hother : Sight.called given' = .arrived (Stage.giveAll stages given) := by
          simpa using (hnew hcalled).2
        cases hsame.trans hother.symm
  · intro n hn hle
    rw [← hgone, inwardOf_goIn (congrArg Prod.fst hstep) hnumbered]
    split
    · exact ⟨stages, given, rfl⟩
    · rename_i hbefore
      exact hgenuine hn (Nat.le_of_lt_succ (Nat.lt_of_le_of_ne hle hbefore))
  · intro k s hs hok
    have hs : s ∈ p.record ++ _ := List.mem_of_getElem? hs
    rcases List.mem_append.mp hs with hold | hs
    · exact absurd hok (hnot s hold)
    · have hanswered := (hnew hs).2
      rw [hok] at hanswered
      cases hgiven : Stage.giveAll stages given <;> simp [Sight.arrived, hgiven] at hanswered

/-- Every step keeps it. -/
theorem next (h : p.Stands) (hstep : r.Step p p') : p'.Stands := by
  cases hstep with
  | surrounded a => exact ⟨h.agrees, h.numbered, h.apart, h.genuine, h.done⟩
  | answered progress ended outcome => exact h.answered progress rfl
  | @gaveUp until_ failure attempts frames progress =>
      have hagrees := h.agrees
      rw [progress] at hagrees
      have hrecord {step : Delivery × List Note} : (p.move step []).record = p.record :=
        List.append_nil p.record
      obtain ⟨s, ⟨hevent, before, after, hlast, hlater⟩, hs⟩ := hagrees.1
      have hcome {step : Delivery × List Note} : (p.move step []).HasCome (.error failure) :=
        ⟨s, ⟨hevent, before, after, hrecord.trans hlast, hlater⟩, hs⟩
      refine ⟨agrees_leave rfl hcome, ?_, ?_, fun {n} hn hle => ?_, ?_⟩
      · rw [hrecord]
        exact h.numbered
      · rw [hrecord]
        exact h.apart
      · rw [inwardOf, hrecord]
        exact h.genuine hn hle
      · intro k s hs hok
        rw [hrecord] at hs
        have hgoing : ∀ outcome, p.delivery.progress ≠ .finished outcome := by simp [progress]
        exact absurd hok (h.not_ok hgoing (List.mem_of_getElem? hs))
  | resumed progress ended =>
      have hgoing : ∀ outcome, p.delivery.progress ≠ .finished outcome := by simp [progress]
      exact goIn h.numbered h.apart h.genuine (fun s hs => h.not_ok hgoing hs) rfl

/-- It is so at the beginning. -/
theorem start (r : Route) (a : Ambient) : (r.start a).Stands :=
  goIn (List.forall_mem_nil _) (fun h => (List.not_mem_nil h).elim)
    (fun hn hle => absurd hn (Nat.not_le_of_lt (Nat.lt_succ_of_le hle))) (List.forall_mem_nil _) rfl

/-- So no outcome is swallowed, replaced or invented. -/
theorem plain (h : p.Stands) (hstanding : ∀ given, p.Handles given ↔ p.HasCalled given) :
    p.Plain where
  settled {outcome} := by
    have hagrees := h.agrees
    cases hprogress : p.delivery.progress with
    | handling given frames =>
        rw [hprogress] at hagrees
        have hnone : p.result = none := hagrees
        simp [hnone]
    | pausing until_ failure attempts frames =>
        rw [hprogress] at hagrees
        simp [hagrees.2]
    | finished outcome' =>
        rw [hprogress] at hagrees
        obtain ⟨-, t, hresult⟩ := hagrees
        simp [hresult]
  last {t outcome} hresult := by
    have hagrees := h.agrees
    cases hprogress : p.delivery.progress with
    | handling given frames =>
        rw [hprogress] at hagrees
        cases hagrees.symm.trans hresult
    | pausing until_ failure attempts frames =>
        rw [hprogress] at hagrees
        cases hagrees.2.symm.trans hresult
    | finished outcome' =>
        rw [hprogress] at hagrees
        obtain ⟨⟨s, hlast, hs⟩, t', hresult'⟩ := hagrees
        cases hresult.symm.trans hresult'
        exact ⟨s, hlast, hs, Sight.ok_iff hs⟩
  apart := h.apart
  done {before after s} hrecord hok := by
    have hs : p.record[before.length]? = some s := by simp [hrecord]
    obtain ⟨hlength, hresult⟩ := h.done hs hok
    refine ⟨?_, hresult⟩
    rw [hrecord, List.length_append, List.length_cons] at hlength
    exact List.length_eq_zero_iff.mp (by omega)
  genuine := h.genuine
  standing := hstanding _

end Stands

end Passage

/-- **No outcome is swallowed, replaced or invented**, whatever the stages and
however attempts are repeated. -/
theorem Route.outcome_run (r : Route) (a : Ambient) (happenings : List (Happening Unit)) :
    (r.run a happenings).Plain :=
  (r.run_keeps (Passage.Stands.start r a) (fun h hstep => h.next hstep) happenings).plain
    (r.handles_run a happenings)

end PubSub
