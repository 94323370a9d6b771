import PubSub.Proofs.Bus.Fanout

/-!
# Invocations side by side

As many permits as a bus may have invocations are in the world at any
time, each with one holder.  An invocation takes one when it is begun and
gives it back when it ends, however it ends.  With a single permit the
invocations run one after the other, in the order in which they were
begun.

* `BusEvent.moment?`, `Bus.timeline` — what is seen of invocations;
* `Bus.Turnover` — what a move does to them;
* `Bus.Tally` — each of them is running or has ended once;
* `Bus.InTurn` — one after the other;
* `System.permits_run` — the permits of every run.
-/

namespace PubSub

/-- The moments in the life of an invocation. -/
inductive Moment where
  | begun
  /-- Its handler was called. -/
  | entered
  | ended
  deriving DecidableEq, Repr

/-- Their order in one life. -/
def Moment.rank : Moment → Nat
  | .begun => 0
  | .entered => 1
  | .ended => 2

/-- A moment in the life of an invocation comes before another one: it
belongs to an earlier invocation, or comes earlier in the same life. -/
def Precedes (x y : Nat × Moment) : Prop :=
  x.1 < y.1 ∨ x.1 = y.1 ∧ x.2.rank < y.2.rank

/-- What was seen of an earlier invocation comes first. -/
theorem Precedes.of_lt {x y : Nat × Moment} (h : x.1 < y.1) : Precedes x y := .inl h

theorem Precedes.trans {x y z : Nat × Moment} (hxy : Precedes x y) (hyz : Precedes y z) :
    Precedes x z := by
  unfold Precedes at *
  omega

/-- The handler is called before the end. -/
theorem Precedes.end_of_entry {x : Nat × Moment} {id : Nat} (h : Precedes x (id, .entered)) :
    Precedes x (id, .ended) := by
  rcases h with hlt | ⟨heq, hrank⟩
  · exact .inl hlt
  · exact .inr ⟨heq, Nat.lt_succ_of_lt hrank⟩

/-- What may be seen next of an invocation. -/
def Invocation.upcoming (i : Invocation) : Moment := if i.entered then .ended else .entered

namespace BusEvent

/-- The moment that is seen of an invocation, if one is. -/
def moment? : BusEvent → Option (Nat × Moment)
  | .spawned i => some (i.id, .begun)
  | .entered id => some (id, .entered)
  | .ended id _ => some (id, .ended)
  | _ => none

/-- The number of the invocation that ended, if one did. -/
def ended? : BusEvent → Option Nat
  | .ended id _ => some id
  | _ => none

end BusEvent

namespace Bus

/-- What is seen of invocations, in order. -/
def timeline (events : List BusEvent) : List (Nat × Moment) :=
  events.filterMap BusEvent.moment?

/-- The invocations that ended, in order. -/
def endedIn (events : List BusEvent) : List Nat := events.filterMap BusEvent.ended?

/-- The permits that no invocation holds: free ones, one that is set aside
for the dispatcher, and those that the watcher has collected. -/
def pool (b : Bus) : Nat := b.permits + b.dispatcher.held + b.watcher.held

section Seen

variable (events new : List BusEvent)

@[simp] theorem timeline_append : timeline (events ++ new) = timeline events ++ timeline new :=
  List.filterMap_append

@[simp] theorem endedIn_append : endedIn (events ++ new) = endedIn events ++ endedIn new :=
  List.filterMap_append

/-- Where nothing is seen of invocations, none begins and none ends. -/
theorem nothing_of_timeline_nil {events : List BusEvent} (h : timeline events = []) :
    spawnedIn events = [] ∧ endedIn events = [] := by
  have hnone : ∀ event ∈ events, event.spawned? = none ∧ event.ended? = none := by
    intro event hmem
    have hmoment := List.filterMap_eq_nil_iff.mp h event hmem
    cases event with
    | spawned i => cases hmoment
    | ended id ending => cases hmoment
    | _ => exact ⟨rfl, rfl⟩
  exact ⟨List.filterMap_eq_nil_iff.mpr fun event hmem => (hnone event hmem).1,
    List.filterMap_eq_nil_iff.mpr fun event hmem => (hnone event hmem).2⟩

/-- The end of an invocation is seen once. -/
theorem ending_seen (i : Invocation) (ending : Ending) :
    timeline (endingEvents i ending) = [(i.id, .ended)] ∧
      endedIn (endingEvents i ending) = [i.id] := by
  obtain ⟨logs, hlogs⟩ := endingEvents_logs i ending
  rw [hlogs]
  simp [timeline, endedIn, BusEvent.moment?, BusEvent.ended?, List.filterMap_map]

end Seen

/-- What a move does to invocations, with what is seen of it: nothing, or it
begins one with a permit at hand, calls the handler of one, or ends one. -/
inductive Turnover (b : Bus) : List BusEvent → Bus → Prop
  | quiet {events : List BusEvent} {b' : Bus} (hseen : timeline events = [])
      (hrunning : b'.running = b.running) (hnext : b'.nextInvocation = b.nextInvocation) :
      Turnover b events b'
  | begun {i : Invocation} {b' : Bus} (hid : i.id = b.nextInvocation) (hfresh : i.entered = false)
      (hpermit : 0 < b.permits + b.dispatcher.held) (hrunning : b'.running = b.running ++ [i])
      (hnext : b'.nextInvocation = b.nextInvocation + 1) :
      Turnover b [.spawned i] b'
  | entered {i : Invocation} {b' : Bus} (hi : i ∈ b.running) (hfresh : i.entered = false)
      (hrunning : b'.running = b.running.map fun j =>
        if j.id = i.id then { j with entered := true } else j)
      (hnext : b'.nextInvocation = b.nextInvocation) :
      Turnover b [.entered i.id] b'
  | ended {i : Invocation} {b' : Bus} (hi : i ∈ b.running) (ending : Ending)
      (hrunning : b'.running = b.running.filter (·.id ≠ i.id))
      (hnext : b'.nextInvocation = b.nextInvocation) :
      Turnover b (endingEvents i ending) b'

variable {a : Ambient} {b b' : Bus} {events new : List BusEvent}

/-- Every change is one of these. -/
theorem Change.turnover (h : Change a b events b') : b.Turnover events b' := by
  cases h with
  | started ctx hroot =>
      refine .quiet ?_ rfl rfl
      unfold start
      split <;> rfl
  | registered task => exact .quiet rfl rfl rfl
  | forfeited hc hp hplace herr =>
      split <;> exact .quiet rfl (by simp [dismiss]) (by simp [dismiss])
  | unheard hd hq hl => exact .quiet rfl (by simp) (by simp)
  | taken hd hq hl => exact .quiet rfl (by simp) (by simp)
  | spawned hlend hroot hctx =>
      refine .begun rfl rfl ?_ rfl rfl
      rcases hlend with ⟨-, hpermits⟩ | ⟨hd, -⟩
      · omega
      · simp [hd, Dispatcher.held]
  | aborted hlend hroot hctx =>
      obtain ⟨_, _, _, hframe⟩ := releasePermit_frame _
      rw [abort, hframe]
      exact .quiet rfl rfl rfl
  | joined hw hd =>
      refine .quiet ?_ rfl rfl
      unfold joinEvents
      split <;> rfl
  | entered hi herr hfresh => exact .entered hi hfresh rfl rfl
  | finished hi ending hend =>
      obtain ⟨_, _, _, hframe⟩ := releasePermit_frame _
      rw [hframe]
      exact .ended hi ending rfl rfl
  | _ => exact .quiet rfl rfl rfl

/-- An invocation that is seen to begin has taken a permit that was at hand,
and nothing else is seen of the move. -/
theorem Turnover.of_spawned (h : b.Turnover events b') {i : Invocation}
    (hi : .spawned i ∈ events) :
    events = [.spawned i] ∧ i.id = b.nextInvocation ∧ 0 < b.permits + b.dispatcher.held := by
  have hmem : i ∈ spawnedIn events := List.mem_filterMap.mpr ⟨.spawned i, hi, rfl⟩
  cases h with
  | quiet hseen hrunning hnext =>
      rw [(nothing_of_timeline_nil hseen).1] at hmem
      cases hmem
  | begun hid hfresh hpermit hrunning hnext =>
      cases List.mem_singleton.mp hi
      exact ⟨rfl, hid, hpermit⟩
  | entered hj hfresh hrunning hnext => cases hmem
  | ended hj ending hrunning hnext =>
      rw [(Silent.ending _ ending).spawned] at hmem
      cases hmem

/-- Invocations are numbered in the order in which they are begun, and each
is running or has ended, once. -/
structure Tally (events : List BusEvent) (b : Bus) : Prop where
  begun : (spawnedIn events).map (·.id) = List.range b.nextInvocation
  settled : (endedIn events ++ b.running.map (·.id)).Perm (List.range b.nextInvocation)

/-- The invocations that are running, one of them first. -/
private theorem running_perm (h : b.Permits 0) {i : Invocation} (hi : i ∈ b.running) :
    (b.running.map (·.id)).Perm (i.id :: (b.running.filter (·.id ≠ i.id)).map (·.id)) :=
  (Keyed.perm_cons_others h.distinct hi).map _

/-- No move makes an invocation end twice, or get lost. -/
theorem Tally.turnover (h : Tally events b) (hpermits : b.Permits 0)
    (hturnover : b.Turnover new b') : Tally (events ++ new) b' := by
  obtain ⟨hbegun, hsettled⟩ := h
  cases hturnover with
  | quiet hseen hrunning hnext =>
      obtain ⟨hspawned, hended⟩ := nothing_of_timeline_nil hseen
      refine ⟨?_, ?_⟩
      · simpa [hspawned, hnext] using hbegun
      · simpa [hended, hrunning, hnext] using hsettled
  | @begun i b' hid hfresh hpermit hrunning hnext =>
      have hspawned : spawnedIn [.spawned i] = [i] := rfl
      have hended : endedIn [.spawned i] = [] := rfl
      refine ⟨by simp [hspawned, hbegun, hid, hnext, List.range_succ], ?_⟩
      rw [endedIn_append, hended, hrunning, hnext, List.range_succ, List.append_nil,
        List.map_append, ← List.append_assoc, List.map_singleton, hid]
      exact hsettled.append_right [b.nextInvocation]
  | @entered i b' hi hfresh hrunning hnext =>
      have hspawned : spawnedIn [.entered i.id] = [] := rfl
      have hended : endedIn [.entered i.id] = [] := rfl
      have hids : b'.running.map (·.id) = b.running.map (·.id) := by
        rw [hrunning, List.map_map]
        refine List.map_congr_left ?_
        intro j _
        simp only [Function.comp_apply]
        split <;> rfl
      refine ⟨?_, ?_⟩
      · simpa [hspawned, hnext] using hbegun
      · simpa [hended, hids, hnext] using hsettled
  | @ended i b' hi ending hrunning hnext =>
      have hspawned := (Silent.ending i ending).spawned
      refine ⟨by simpa [hspawned, hnext] using hbegun, ?_⟩
      rw [endedIn_append, (ending_seen i ending).2, hrunning, hnext, List.append_assoc,
        List.singleton_append]
      exact ((running_perm hpermits hi).symm.append_left _).trans hsettled

/-- The invocations of a bus with a single permit: only the one that was
begun last can be running, and what is seen of them is in order. -/
structure InTurn (events : List BusEvent) (b : Bus) : Prop where
  sorted : (timeline events).Pairwise Precedes
  past : ∀ moment ∈ timeline events, moment.1 < b.nextInvocation
  current : ∀ i ∈ b.running, ∀ moment ∈ timeline events, Precedes moment (i.id, i.upcoming)
  settled : endedIn events ++ b.running.map (·.id) = List.range b.nextInvocation

namespace InTurn

/-- One more moment is seen, after all others and before what comes next of
a running invocation. -/
private theorem concat (h : InTurn events b) {moment : Nat × Moment}
    (hseen : timeline new = [moment])
    (hlast : ∀ earlier ∈ timeline events, Precedes earlier moment)
    (hnumber : moment.1 < b'.nextInvocation) (hnext : b.nextInvocation ≤ b'.nextInvocation)
    (hcurrent : ∀ i ∈ b'.running, Precedes moment (i.id, i.upcoming))
    (hsettled : endedIn events ++ endedIn new ++ b'.running.map (·.id) =
      List.range b'.nextInvocation) : InTurn (events ++ new) b' := by
  have htimeline : timeline (events ++ new) = timeline events ++ [moment] := by
    rw [timeline_append, hseen]
  refine ⟨?_, ?_, ?_, by rw [endedIn_append, hsettled]⟩
  · rw [htimeline, List.pairwise_append]
    exact ⟨h.sorted, List.pairwise_singleton _ _, by simpa using hlast⟩
  · rw [htimeline, List.forall_mem_append, List.forall_mem_singleton]
    exact ⟨fun earlier hearlier => Nat.lt_of_lt_of_le (h.past earlier hearlier) hnext, hnumber⟩
  · intro i hi
    rw [htimeline, List.forall_mem_append, List.forall_mem_singleton]
    exact ⟨fun earlier hearlier => (hlast earlier hearlier).trans (hcurrent i hi),
      hcurrent i hi⟩

/-- What comes next of a running invocation comes before its end, or is
it. -/
private theorem precedes_end {i : Invocation} {moment : Nat × Moment}
    (h : Precedes moment (i.id, i.upcoming)) : Precedes moment (i.id, .ended) := by
  unfold Invocation.upcoming at h
  split at h
  · exact h
  · exact h.end_of_entry

/-- With a single permit, there is at most one running invocation, and none
while a permit is at hand. -/
private theorem running_length (hpermits : b.Permits 0) (hone : b.config.maxInFlight = 1) :
    b.running.length + (b.permits + b.dispatcher.held) ≤ 1 := by
  have hcount := hpermits.counted
  omega

/-- The running invocation is the only one. -/
private theorem running_eq (hpermits : b.Permits 0) (hone : b.config.maxInFlight = 1)
    {i : Invocation} (hi : i ∈ b.running) : b.running = [i] := by
  have hlength := running_length hpermits hone
  obtain ⟨j, hj⟩ : ∃ j, b.running = [j] := by
    refine List.length_eq_one_iff.mp ?_
    have hpos := List.length_pos_of_mem hi
    omega
  rw [hj] at hi ⊢
  rw [List.mem_singleton.mp hi]

/-- Every move keeps the invocations of a bus with a single permit in
turn. -/
theorem turnover (h : InTurn events b) (hpermits : b.Permits 0)
    (hone : b.config.maxInFlight = 1) (hturnover : b.Turnover new b') :
    InTurn (events ++ new) b' := by
  have hsettled := h.settled
  cases hturnover with
  | quiet hseen hrunning hnext =>
      have hended := (nothing_of_timeline_nil hseen).2
      refine ⟨?_, ?_, ?_, ?_⟩
      · simpa [hseen] using h.sorted
      · simpa [hseen, hnext] using h.past
      · simpa [hseen, hrunning] using h.current
      · simpa [hended, hrunning, hnext] using hsettled
  | @begun i b' hid hfresh hpermit hrunning hnext =>
      have hseen : timeline [.spawned i] = [(i.id, .begun)] := rfl
      have hended : endedIn [.spawned i] = [] := rfl
      have hnone : b.running = [] := by
        have hlength := running_length hpermits hone
        exact List.eq_nil_of_length_eq_zero (by omega)
      rw [hnone, List.nil_append] at hrunning
      rw [hnone, List.map_nil, List.append_nil] at hsettled
      refine h.concat hseen ?_ ?_ ?_ ?_ ?_
      · exact fun earlier hearlier => .of_lt (hid ▸ h.past earlier hearlier)
      · rw [hnext, hid]
        exact Nat.lt_succ_self _
      · rw [hnext]
        exact Nat.le_succ _
      · simp [hrunning, Precedes, Invocation.upcoming, hfresh, Moment.rank]
      · simp [hended, hrunning, hnext, hsettled, hid, List.range_succ]
  | @entered i b' hi hfresh hrunning hnext =>
      have hseen : timeline [.entered i.id] = [(i.id, .entered)] := rfl
      have hended : endedIn [.entered i.id] = [] := rfl
      have honly := running_eq hpermits hone hi
      simp only [honly, List.map_singleton, if_true] at hrunning hsettled
      refine h.concat hseen ?_ ?_ ?_ ?_ ?_
      · simpa [Invocation.upcoming, hfresh] using h.current i hi
      · rw [hnext]
        exact hpermits.numbered i hi
      · exact Nat.le_of_eq hnext.symm
      · simp [hrunning, Precedes, Invocation.upcoming, Moment.rank]
      · simpa [hended, hrunning, hnext] using hsettled
  | @ended i b' hi ending hrunning hnext =>
      obtain ⟨hseen, hended⟩ := ending_seen i ending
      have honly := running_eq hpermits hone hi
      rw [honly, List.filter_cons_of_neg (by simp), List.filter_nil] at hrunning
      rw [honly, List.map_singleton] at hsettled
      refine h.concat hseen ?_ ?_ ?_ ?_ ?_
      · exact fun earlier hearlier => precedes_end (h.current i hi earlier hearlier)
      · rw [hnext]
        exact hpermits.numbered i hi
      · exact Nat.le_of_eq hnext.symm
      · simp [hrunning]
      · simpa [hended, hrunning, hnext] using hsettled

end InTurn
end Bus

namespace System

/-- What a move does to the invocations of a bus. -/
theorem apply_turnover {s : System} (h : s.bus.Sound) (move : Move) :
    s.bus.Turnover (s.apply move).2 (s.apply move).1.bus := by
  rcases (apply_sound h move).2 with ⟨hsame, hnone⟩ | hchange
  · rw [hsame, hnone]
    exact .quiet rfl rfl rfl
  · exact hchange.turnover

/-- In every run each invocation is running or has ended, once. -/
theorem tally_run (config : BusConfig) (tokens : Tokens) (moves : List Move) :
    Bus.Tally ((initial config tokens).run moves).2 ((initial config tokens).run moves).1.bus := by
  refine run_keeps (P := Bus.Tally) (.ofConfig config) ⟨rfl, .refl _⟩ ?_ moves
  intro a b b' events new hsound htally hchange
  exact htally.turnover hsound.permits hchange.turnover

/-- The bounds of a bus are the ones it was made with, one at least. -/
theorem config_run (config : BusConfig) (tokens : Tokens) (moves : List Move) :
    ((initial config tokens).run moves).1.bus.config = config.effective :=
  run_config (s := initial config tokens) (.ofConfig config) moves

/-- A bound of one leaves a single permit. -/
theorem single_permit {config : BusConfig} (h : config.maxInFlight ≤ 1) (tokens : Tokens)
    (moves : List Move) : ((initial config tokens).run moves).1.bus.config.maxInFlight = 1 := by
  rw [config_run]
  exact Nat.max_eq_right h

/-- With a single permit, the invocations of every run take turns. -/
theorem inTurn_run {config : BusConfig} (h : config.maxInFlight ≤ 1) (tokens : Tokens)
    (moves : List Move) :
    Bus.InTurn ((initial config tokens).run moves).2
      ((initial config tokens).run moves).1.bus := by
  let P (events : List BusEvent) (b : Bus) : Prop :=
    b.config.maxInFlight = 1 ∧ Bus.InTurn events b
  have hfirst : Bus.InTurn [] (initial config tokens).bus :=
    ⟨List.Pairwise.nil, by simp [Bus.timeline], by simp [Bus.timeline], rfl⟩
  have hkept : P ((initial config tokens).run moves).2
      ((initial config tokens).run moves).1.bus := by
    refine run_keeps (.ofConfig config) ⟨Nat.max_eq_right h, hfirst⟩ ?_ moves
    rintro a b b' events new hsound ⟨hone, hturn⟩ hchange
    exact ⟨hchange.config_eq ▸ hone, hturn.turnover hsound.permits hone hchange.turnover⟩
  exact hkept.2

/-- With a single permit, an invocation is begun only when all that were
begun before it have ended. -/
theorem begun_in_turn {config : BusConfig} (h : config.maxInFlight ≤ 1) (tokens : Tokens)
    (moves : List Move) {before after : List BusEvent} {i : Invocation}
    (hsplit : ((initial config tokens).run moves).2 = before ++ .spawned i :: after) :
    Bus.endedIn before = List.range i.id := by
  induction moves using List.reverseRecOn generalizing after with
  | nil => exact absurd hsplit (by simp [run])
  | append_singleton moves move ih =>
      have hsound := sound_run config tokens moves
      have hturn := inTurn_run h tokens moves
      have hone := single_permit h tokens moves
      rw [run_concat] at hsplit
      -- either the last move has begun the invocation, or an earlier one has
      have hlast : .spawned i ∈ (((initial config tokens).run moves).1.apply move).2 →
          Bus.endedIn ((initial config tokens).run moves).2 = List.range i.id := by
        intro hi
        obtain ⟨-, hid, hpermit⟩ := (apply_turnover hsound move).of_spawned hi
        have hlength := Bus.InTurn.running_length hsound.permits hone
        have hnone : ((initial config tokens).run moves).1.bus.running = [] :=
          List.eq_nil_of_length_eq_zero (by omega)
        have hsettled := hturn.settled
        rw [hnone, List.map_nil, List.append_nil] at hsettled
        rw [hsettled, hid]
      rcases List.append_eq_append_iff.mp hsplit with ⟨seen, rfl, hnew⟩ | ⟨seen, hold, hnew⟩
      · have hi : .spawned i ∈ (((initial config tokens).run moves).1.apply move).2 := by
          rw [hnew]
          exact List.mem_append_right _ List.mem_cons_self
        obtain ⟨honly, -⟩ := (apply_turnover hsound move).of_spawned hi
        have hseen : seen = [] := by
          rw [honly] at hnew
          have hlength := congrArg List.length hnew
          simp only [List.length_append, List.length_cons, List.length_nil] at hlength
          exact List.eq_nil_of_length_eq_zero (by omega)
        rw [hseen, List.append_nil]
        exact hlast hi
      · cases seen with
        | nil =>
            rw [List.append_nil] at hold
            rw [← hold]
            refine hlast ?_
            rw [List.nil_append] at hnew
            rw [← hnew]
            exact List.mem_cons_self
        | cons event seen =>
            obtain ⟨rfl, -⟩ := List.cons.inj hnew
            exact ih hold

/-- **Permits.**  In every state of every run the permits that are free, lent
to invocations that have not ended, set aside for the dispatcher or
collected by the watcher add up to the bound, so that no more invocations
run at once.  Each invocation that was begun is running or has ended, once,
and whenever one ends, whatever its ending, one permit comes back: the
permits that no invocation holds change with beginnings and ends only.  On
a bus with a single permit the invocations run one after the other, in the
order in which they were begun, each after the end of all before it. -/
theorem permits_run (config : BusConfig) (tokens : Tokens) (moves : List Move) :
    let final := (initial config tokens).run moves
    let bus := final.1.bus
    bus.permits + bus.running.length + bus.dispatcher.held + bus.watcher.held =
        max config.maxInFlight 1 ∧
      bus.running.length ≤ max config.maxInFlight 1 ∧
      (Bus.spawnedIn final.2).map (·.id) = List.range bus.nextInvocation ∧
      (Bus.endedIn final.2 ++ bus.running.map (·.id)).Perm (List.range bus.nextInvocation) ∧
      (∀ move, let next := final.1.apply move
        next.1.bus.pool + (Bus.spawnedIn next.2).length =
          bus.pool + (Bus.endedIn next.2).length) ∧
      (config.maxInFlight ≤ 1 →
        (Bus.timeline final.2).Pairwise Precedes ∧
        ∀ before i after, final.2 = before ++ .spawned i :: after →
          Bus.endedIn before = List.range i.id) := by
  intro final bus
  have hsound : bus.Sound := sound_run config tokens moves
  have hconfig : bus.config = config.effective := config_run config tokens moves
  have hbound : bus.config.maxInFlight = max config.maxInFlight 1 :=
    congrArg BusConfig.maxInFlight hconfig
  have hcount := hsound.permits.counted
  rw [hbound] at hcount
  have htally : Bus.Tally final.2 bus := tally_run config tokens moves
  refine ⟨by omega, by omega, htally.begun, htally.settled, ?_, ?_⟩
  · intro move next
    have hsound' : next.1.bus.Sound := (apply_sound hsound move).1
    have hnext := hsound'.permits.counted
    have hkept : next.1.bus.config = bus.config := run_config hsound [move]
    have hafter : Bus.Tally (final.2 ++ next.2) next.1.bus :=
      htally.turnover hsound.permits (apply_turnover hsound move)
    have hbegun := congrArg List.length htally.begun
    have hsettled := htally.settled.length_eq
    have hbegun' := congrArg List.length hafter.begun
    have hsettled' := hafter.settled.length_eq
    rw [hkept, hbound] at hnext
    simp only [Bus.endedIn_append, Bus.spawnedIn_append, List.length_append, List.length_map,
      List.length_range] at hbegun hsettled hbegun' hsettled'
    unfold Bus.pool
    omega
  · exact fun h => ⟨(inTurn_run h tokens moves).sorted,
      fun before i after hsplit => begun_in_turn h tokens moves hsplit⟩

/-- The two invocations of `crowdedMoves` share one permit. -/
theorem permits_run_crowded :
    let final := (initial ⟨0, 0⟩ ⟨2, []⟩).run crowdedMoves
    (0 ≤ 1 ∧ (Bus.timeline final.2).Pairwise Precedes) ∧
      Bus.timeline final.2 = [(0, .begun), (0, .entered), (0, .ended), (1, .begun)] ∧
      final.1.bus.running.map (·.id) = [1] ∧ final.1.bus.permits = 0 := by
  have hpermits := permits_run ⟨0, 0⟩ ⟨2, []⟩ crowdedMoves
  exact ⟨⟨by decide, (hpermits.2.2.2.2.2 (by decide)).1⟩, rfl, rfl, rfl⟩

end System
end PubSub
