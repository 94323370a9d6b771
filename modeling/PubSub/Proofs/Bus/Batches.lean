import Mathlib.Data.List.Infix
import PubSub.Proofs.Bus.Series

/-!
# Batches

A call for a batch puts its messages on the queue in their order, and
returns their number, or an error when some are left out.  As long as the
bus is open, it does what a call for each message would do.

* `Fate.batch` — what such a call has done;
* `System.BatchLaw` — what it does in a run;
* `System.SeriesLaw` — it does the same as a call for each message;
* `System.batch_run` — both, for every run of a bus.
-/

namespace PubSub

namespace Bus

variable {b : Bus} {events : List BusEvent} {id : Nat}

/-- What one call puts on the queue is among what is put there. -/
theorem pushesOf_sublist (id : Nat) (events : List BusEvent) :
    (pushesOf id events).Sublist (acceptedIn events) := by
  induction events with
  | nil => exact .slnil
  | cons event events ih =>
      cases event with
      | accepted call m =>
          by_cases hcall : call = id
          · simpa [pushesOf, acceptedIn, BusEvent.pushOf?, BusEvent.accepted?, hcall] using ih
          · simpa [pushesOf, acceptedIn, BusEvent.pushOf?, BusEvent.accepted?, hcall]
              using ih.cons m
      | _ => exact ih

/-- What a call for a batch has returned and put on the queue. -/
theorem Fate.batch {ctx : Context} {messages : List Message} (h : Fate ctx messages id events b) :
    answersOf id events = [] ∧ pushesOf id events <+: messages ∨
      answersOf id events = [.ok messages.length] ∧ pushesOf id events = messages ∨
      ∃ e, answersOf id events = [.error e] ∧ pushesOf id events <+: messages ∧
        pushesOf id events ≠ messages := by
  cases h with
  | underway hp ha _ => exact .inl ⟨ha, _, hp⟩
  | returned hp ha _ => exact .inr (.inl ⟨ha, hp⟩)
  | failed e hne hp ha _ =>
      refine .inr (.inr ⟨e, ha, ⟨_, hp⟩, fun heq => hne ?_⟩)
      rw [heq] at hp
      exact List.append_right_eq_self.mp hp

end Bus

namespace System

variable {s : System} {ctx : Context} {messages : List Message}

/-- What is known of a call that writes a batch, made now in a run that goes on as
said. -/
structure BatchLaw (s : System) (ctx : Context) (messages : List Message) (later : List Move) :
    Prop where
  /-- It returns once at most.  It puts its messages on the queue in their order, each
  once: all of them when it returns their number, and only the first of them when
  it returns an error, unless there are none at all. -/
  outcome : s.results ctx messages later = [] ∧ s.pushes ctx messages later <+: messages ∨
    s.results ctx messages later = [.ok messages.length] ∧
      s.pushes ctx messages later = messages ∨
    ∃ e, s.results ctx messages later = [.error e] ∧ s.pushes ctx messages later <+: messages ∧
      (messages ≠ [] → s.pushes ctx messages later ≠ messages)
  /-- Once it has returned, it puts nothing more on the queue. -/
  settled : s.results ctx messages later ≠ [] → ∀ more,
    s.results ctx messages (later ++ more) = s.results ctx messages later ∧
      s.pushes ctx messages (later ++ more) = s.pushes ctx messages later
  /-- Its messages come in the same order among those of other calls. -/
  among : (s.pushes ctx messages later).Sublist
    (Bus.acceptedIn (s.run (.write ctx messages :: later)).2)

/-- A call that is refused obeys this law. -/
theorem batchLaw_of_refused {e : Error}
    (hbegin : s.bus.beginCall ctx messages = .error e) (later : List Move) :
    s.BatchLaw ctx messages later := by
  have hresults : ∀ later, s.results ctx messages later = [.error e] := by
    simp [results, hbegin]
  have hpushes : ∀ later, s.pushes ctx messages later = [] := by
    simp [pushes, hbegin]
  exact {
    outcome := by
      refine .inr (.inr ⟨e, hresults later, ?_, fun hne => ?_⟩) <;> rw [hpushes later]
      · exact List.nil_prefix
      · exact hne.symm
    settled := fun _ more => by simp [hresults, hpushes]
    among := by
      rw [hpushes later]
      exact List.nil_sublist _ }

/-- A call that is begun obeys it as well. -/
theorem batchLaw_of_begun (h : s.bus.Sound) (hstarted : s.bus.isStarted = true)
    (hopen : s.bus.senderOpen = true) (ctx : Context) (messages : List Message)
    (later : List Move) : s.BatchLaw ctx messages later := by
  have hseen := results_of_open hstarted hopen ctx messages
  have hwrite := apply_write_eq hstarted hopen ctx messages
  let begun : System := { s with bus := s.bus.begun ctx messages }
  have hsound : begun.bus.Sound := by
    have hsound := (apply_sound h (.write ctx messages)).1
    rwa [hwrite] at hsound
  have hrun : ∀ moves, s.run (.write ctx messages :: moves) = begun.run moves := by
    intro moves
    rw [run_cons, hwrite]
    rfl
  have hid : s.bus.nextCall < begun.bus.nextCall := Nat.lt_succ_self _
  have hfate := run_fate hsound hid (h.slots.fate_begun ctx messages) later
  exact {
    outcome := by
      rw [(hseen later).1, (hseen later).2, hrun]
      rcases hfate.batch with hnone | hall | ⟨e, hanswers, hpushes, hne⟩
      · exact .inl hnone
      · exact .inr (.inl hall)
      · exact .inr (.inr ⟨e, hanswers, hpushes, fun _ => hne⟩)
    settled := by
      intro hover more
      rw [(hseen later).1, hrun] at hover
      have hgone : (begun.run later).1.bus.account? s.bus.nextCall = none := by
        cases hfate with
        | underway _ hnone _ => exact absurd hnone hover
        | returned _ _ hgone => exact hgone
        | failed _ _ _ _ hgone => exact hgone
      have hlt := Nat.lt_of_lt_of_le hid (run_nextCall_le hsound later)
      have hmore := run_gone (run_sound hsound later) hlt hgone more
      rw [(hseen (later ++ more)).1, (hseen (later ++ more)).2, (hseen later).1, (hseen later).2,
        hrun, hrun, run_append, Bus.answersOf_append, Bus.pushesOf_append, hmore.1, hmore.2,
        List.append_nil, List.append_nil]
      exact ⟨rfl, rfl⟩
    among := by
      rw [(hseen later).2]
      exact Bus.pushesOf_sublist _ _ }

/-- A bus that is not open refuses all calls in the same way. -/
theorem beginCall_of_not_open (h : ¬ (s.bus.isStarted = true ∧ s.bus.senderOpen = true)) :
    ∃ e, ∀ ctx messages, s.bus.beginCall ctx messages = .error e := by
  cases hstarted : s.bus.isStarted with
  | false => exact ⟨.busNotStarted, fun _ _ => by simp [Bus.beginCall, hstarted]⟩
  | true =>
      have hclosed : s.bus.senderOpen = false := by
        rw [hstarted] at h
        simpa using h
      exact ⟨.busClosed, fun _ _ => by simp [Bus.beginCall, hstarted, hclosed]⟩

/-- A batch fares as it would with a call for each message, when the bus is open
while the call for it goes on.  Everything but the calls is the same then. -/
structure SeriesLaw (s : System) (ctx : Context) (messages : List Message) (later : List Move) :
    Prop where
  results_eq : ((Series.begin s ctx messages).run later).results = s.results ctx messages later
  pushed_eq : ((Series.begin s ctx messages).run later).pushed = s.pushes ctx messages later
  ambient_eq : s.bus.isStarted = true → s.bus.senderOpen = true →
    ((Series.begin s ctx messages).run later).system.ambient =
      (s.run (.write ctx messages :: later)).1.ambient
  bus_eq : s.bus.isStarted = true → s.bus.senderOpen = true →
    let bus := ((Series.begin s ctx messages).run later).system.bus
    bus = (s.run (.write ctx messages :: later)).1.bus.recast bus.calls bus.line bus.nextCall

/-- When the bus is not open, both are refused alike. -/
theorem seriesLaw_of_refused (h : ¬ (s.bus.isStarted = true ∧ s.bus.senderOpen = true))
    (ctx : Context) (m : Message) (left : List Message) (later : List Move) :
    s.SeriesLaw ctx (m :: left) later := by
  obtain ⟨e, hrefused⟩ := beginCall_of_not_open h
  have hresults : s.results ctx (m :: left) later = [.error e] := by
    simp only [results, hrefused]
  have hpushes : s.pushes ctx (m :: left) later = [] := by
    simp only [pushes, hrefused]
  have hbegin : (Series.begin s ctx (m :: left)).stage = .done (.error e) ∧
      (Series.begin s ctx (m :: left)).pushed = [] := by
    simp only [Series.begin, Series.proceed, hrefused, and_self]
  obtain ⟨hstage, hpushed⟩ := Series.run_over hbegin.1 later
  exact {
    results_eq := by
      rw [hresults]
      simp only [Series.results, hstage]
    pushed_eq := by rw [hpushed, hbegin.2, hpushes]
    ambient_eq := fun hstarted hopen => absurd ⟨hstarted, hopen⟩ h
    bus_eq := fun hstarted hopen => absurd ⟨hstarted, hopen⟩ h }

/-- When it is open, the series follows the call. -/
theorem seriesLaw_of_begun (h : s.bus.Sound) (hstarted : s.bus.isStarted = true)
    (hsender : s.bus.senderOpen = true) {m : Message} {left : List Message} {later : List Move}
    (hopen : ∀ past rest, later = past ++ rest → s.results ctx (m :: left) past = [] →
      (s.run (.write ctx (m :: left) :: past)).1.bus.senderOpen = true) :
    s.SeriesLaw ctx (m :: left) later := by
  have hseen := results_of_open hstarted hsender ctx (m :: left)
  have hrun : ∀ moves, s.run (.write ctx (m :: left) :: moves) =
      (s.apply (.write ctx (m :: left))).1.run moves := by
    intro moves
    rw [run_cons, apply_write_eq hstarted hsender]
    rfl
  have hwhile : ∀ past rest, later = past ++ rest →
      Bus.answersOf s.bus.nextCall
        ([] ++ ((s.apply (.write ctx (m :: left))).1.run past).2) = [] →
      ((s.apply (.write ctx (m :: left))).1.run past).1.bus.senderOpen = true := by
    intro past rest hsplit hnone
    rw [← hrun]
    refine hopen past rest hsplit ?_
    rw [(hseen past).1, hrun]
    exact hnone
  obtain ⟨name, hfollows⟩ := (Series.follows_begin h hstarted hsender ctx m left).run later hwhile
  rw [List.nil_append, ← hrun] at hfollows
  obtain ⟨sent, hmirrors⟩ := hfollows.standing.mirrors
  exact {
    results_eq := hfollows.results_eq.trans (hseen later).1.symm
    pushed_eq := hfollows.pushed_eq.trans (hseen later).2.symm
    ambient_eq := fun _ _ => hfollows.ambient_eq
    bus_eq := fun _ _ => hmirrors.same }

/-- **A batch, in every run of a bus.**  A call for a batch obeys `BatchLaw`: it puts its
messages on the queue in their order, whatever other calls put between them,
all of them when it returns their number, and not all of them when it returns
an error, unless there are none at all.  If there are any, and the bus is not
closed while the call goes on, it returns what a call for each message would
return, and puts the same on the queue at the same moments. -/
theorem batch_run (config : BusConfig) (tokens : Tokens) (before : List Move) :
    let s := ((initial config tokens).run before).1
    ∀ ctx messages later,
      s.BatchLaw ctx messages later ∧
      (messages ≠ [] →
        (∀ past rest, later = past ++ rest → s.results ctx messages past = [] →
          (s.run (.write ctx messages :: past)).1.bus.senderOpen = true) →
        s.SeriesLaw ctx messages later) := by
  intro s ctx messages later
  have hsound : s.bus.Sound := sound_run config tokens before
  by_cases hboth : s.bus.isStarted = true ∧ s.bus.senderOpen = true
  · refine ⟨batchLaw_of_begun hsound hboth.1 hboth.2 ctx messages later, fun hne hopen => ?_⟩
    obtain ⟨m, left, rfl⟩ := List.exists_cons_of_ne_nil hne
    exact seriesLaw_of_begun hsound hboth.1 hboth.2 hopen
  · obtain ⟨e, hrefused⟩ := beginCall_of_not_open hboth
    refine ⟨batchLaw_of_refused (hrefused ctx messages) later, fun hne _ => ?_⟩
    obtain ⟨m, left, rfl⟩ := List.exists_cons_of_ne_nil hne
    exact seriesLaw_of_refused hboth ctx m left later

/-- Another call puts an order on the queue between those of a batch, whose context is
cancelled before the last of them. -/
def sharedMoves : List Move :=
  [.call 0, .write ⟨[2], none, none, none⟩ [sampleOrder "o-9"], .call 1, .call 0, .dispatcher,
    .call 1, .dispatcher, .call 0, .cancel ⟨[1], none, none, none⟩, .call 0]

/-- The batch returns that it was cancelled, and its first two orders are on the queue,
around the other one.  With a call for each message it is the same. -/
theorem batch_run_shared :
    let start := initial ⟨0, 0⟩ ⟨3, []⟩
    let s := (start.run [.start ⟨[0], none, none, none⟩]).1
    let ctx : Context := ⟨[1], none, none, none⟩
    let orders := [sampleOrder "o-1", sampleOrder "o-2", sampleOrder "o-3"]
    let x := (Series.begin s ctx orders).run sharedMoves
    s.BatchLaw ctx orders sharedMoves ∧ s.SeriesLaw ctx orders sharedMoves ∧
      s.results ctx orders sharedMoves = [.error .cancelled] ∧
      (s.pushes ctx orders sharedMoves).map (·.id) = ["o-1", "o-2"] ∧
      (Bus.acceptedIn (s.run (.write ctx orders :: sharedMoves)).2).map (·.id) =
        ["o-1", "o-9", "o-2"] ∧
      x.results = [.error .cancelled] ∧ x.pushed.map (·.id) = ["o-1", "o-2"] ∧
      x.names = [0, 1] := by
  obtain ⟨hlaw, hseries⟩ := batch_run ⟨0, 0⟩ ⟨3, []⟩ [.start ⟨[0], none, none, none⟩]
    ⟨[1], none, none, none⟩ [sampleOrder "o-1", sampleOrder "o-2", sampleOrder "o-3"] sharedMoves
  refine ⟨hlaw, hseries (List.cons_ne_nil _ _) ?_, rfl, rfl, rfl, rfl, rfl, rfl⟩
  intro past rest hsplit _
  have hall : ∀ past ∈ sharedMoves.inits,
      (((initial ⟨0, 0⟩ ⟨3, []⟩).run [.start ⟨[0], none, none, none⟩]).1.run
        (.write ⟨[1], none, none, none⟩
          [sampleOrder "o-1", sampleOrder "o-2", sampleOrder "o-3"] :: past)).1.bus.senderOpen =
        true := by
    decide +kernel
  exact hall past ((List.mem_inits past sharedMoves).mpr ⟨rest, hsplit.symm⟩)

/-- A call for no messages at all can fail, before the first start: it looks whether the
bus is open first.  There is no message then that it has left out. -/
theorem batch_fails_empty :
    let s := initial ⟨0, 0⟩ ⟨1, []⟩
    let ctx : Context := ⟨[0], none, none, none⟩
    s.results ctx [] [] = [.error .busNotStarted] ∧
      ¬ (s.pushes ctx [] [] <+: [] ∧ s.pushes ctx [] [] ≠ []) :=
  ⟨rfl, fun h => h.2 rfl⟩

end System
end PubSub
