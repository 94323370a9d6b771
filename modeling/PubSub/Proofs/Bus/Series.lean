import PubSub.Proofs.Bus.Elsewhere
import PubSub.Proofs.Bus.Mirrored

/-!
# A batch, message by message

A batch can be written with a single call, or with a call for each message,
one after the other, until one fails.  The second way asks for each message
whether the bus is still open; the first one asks once.  As long as the bus
is open, nobody can tell the difference.

* `Series` — a batch that is written with a call for each message, while
  everybody else does what they do in a run with a single call;
* `Series.turn`, `Series.move`, `Series.run` — what happens to it;
* `Series.Follows` — how it stands beside that run;
* `Follows.other`, `Follows.own_turn`, `Follows.run` — a move of others, a turn
  of the batch, and a whole run.
-/

namespace PubSub

/-- How far a batch has come that is written with a call for each message. -/
inductive Series.Stage where
  /-- A call goes on; the messages `left` come after its own, and `written` came before. -/
  | writing (call : Nat) (left : List Message) (written : Nat)
  /-- The last call has returned that its message is written. -/
  | between (left : List Message) (written : Nat)
  /-- The batch has returned. -/
  | done (result : Except Error Nat)

/-- How far it has come when the current call has returned this.  When that fails,
so does the batch. -/
def Series.Stage.next (call : Nat) (left : List Message) (written : Nat) :
    List (Except Error Nat) → Series.Stage
  | [] => .writing call left written
  | .ok _ :: _ => .between left (written + 1)
  | .error e :: _ => .done (.error e)

/-- A batch that is written with a call for each message.  Everybody else does what
they do in another run, where a single call writes the batch; it has the number
`own` there, if it has begun. -/
structure Series where
  system : System
  own : Option Nat
  /-- The numbers that the calls of the other run have here. -/
  names : List Nat
  ctx : Context
  stage : Series.Stage
  /-- What it has put on the queue. -/
  pushed : List Message

namespace Series

/-- Go on to the next message, if the last one is written. -/
def proceed (x : Series) : Series :=
  match x.stage with
  | .between [] written => { x with stage := .done (.ok written) }
  | .between (m :: left) written =>
      match x.system.bus.beginCall x.ctx [m] with
      | .error e => { x with stage := .done (.error e) }
      | .ok (call, bus) =>
          { x with system := { x.system with bus }, stage := .writing call left written }
  | _ => x

/-- A batch that begins now. -/
def begin (s : System) (ctx : Context) (messages : List Message) : Series :=
  proceed
    { system := s
      own := match s.bus.beginCall ctx messages with
        | .ok (id, _) => some id
        | .error _ => none
      names := List.range (s.apply (.write ctx messages)).1.bus.nextCall
      ctx
      stage := .between messages 0
      pushed := [] }

/-- The current call takes a step. -/
def step (x : Series) : Series :=
  match x.stage with
  | .writing call left written =>
      let (system, events) := x.system.apply (.call call)
      { x with
        system
        pushed := x.pushed ++ Bus.pushesOf call events
        stage := .next call left written (Bus.answersOf call events) }
  | _ => x

/-- The batch has its turn.  When a call returns that its message is written, the
next one begins and takes a step in the same turn. -/
def turn (x : Series) : Series :=
  match x.step.stage with
  | .between _ _ => x.step.proceed.step
  | _ => x.step

/-- What happens here when this happens in the other run. -/
def move (x : Series) : Move → Series
  | .call n =>
      if x.own = some n then x.turn
      else
        match x.names[n]? with
        | some call => { x with system := (x.system.apply (.call call)).1 }
        | none => x
  | .write ctx messages =>
      match x.system.bus.beginCall ctx messages with
      | .error _ => x
      | .ok (call, bus) =>
          { x with system := { x.system with bus }, names := x.names ++ [call] }
  | move => { x with system := (x.system.apply move).1 }

/-- The same for many moves. -/
def run (x : Series) (moves : List Move) : Series := moves.foldl move x

/-- What the batch has returned, if it has. -/
def results (x : Series) : List (Except Error Nat) :=
  match x.stage with
  | .done result => [result]
  | _ => []

section Turn

variable {x : Series} {m : Message} {left : List Message} {written : Nat}

/-- A turn in which the current call returns that its message is written. -/
theorem turn_of_between (h : x.step.stage = .between left written) :
    x.turn = x.step.proceed.step := by
  unfold turn
  rw [h]

/-- A turn in which it does not. -/
theorem turn_of_not_between (h : ∀ left written, x.step.stage ≠ .between left written) :
    x.turn = x.step := by
  unfold turn
  split
  · exact absurd ‹_› (h _ _)
  · rfl

/-- The next call begins when the bus is open. -/
theorem proceed_of_open (hstage : x.stage = .between (m :: left) written)
    (hstarted : x.system.bus.isStarted = true) (hopen : x.system.bus.senderOpen = true) :
    x.proceed =
      { x with
        system := { x.system with bus := x.system.bus.begun x.ctx [m] }
        stage := .writing x.system.bus.nextCall left written } := by
  simp only [proceed, hstage, System.beginCall_eq hstarted hopen]

/-- A batch that has returned does nothing more. -/
theorem move_over {result : Except Error Nat} (h : x.stage = .done result) (move : Move) :
    (x.move move).stage = .done result ∧ (x.move move).pushed = x.pushed := by
  have hstep : x.step = x := by simp only [step, h]
  have hturn : x.turn = x := by
    rw [turn_of_not_between (by simp [hstep, h]), hstep]
  unfold Series.move
  split
  · split
    · rw [hturn]
      exact ⟨h, rfl⟩
    · split <;> exact ⟨h, rfl⟩
  · split <;> exact ⟨h, rfl⟩
  · exact ⟨h, rfl⟩

/-- Neither does it in a whole run. -/
theorem run_over {result : Except Error Nat} (h : x.stage = .done result) (moves : List Move) :
    (x.run moves).stage = .done result ∧ (x.run moves).pushed = x.pushed := by
  induction moves generalizing x with
  | nil => exact ⟨h, rfl⟩
  | cons move moves ih =>
      obtain ⟨hstage, hpushed⟩ := move_over h move
      obtain ⟨hover, hrest⟩ := ih hstage
      exact ⟨hover, hrest.trans hpushed⟩

/-- The context of the batch stays. -/
theorem proceed_ctx (x : Series) : x.proceed.ctx = x.ctx := by
  unfold proceed
  split
  · rfl
  · split <;> rfl
  · rfl

/-- A step leaves it as well. -/
theorem step_ctx (x : Series) : x.step.ctx = x.ctx := by
  unfold step
  split <;> rfl

end Turn

end Series

namespace Series

/-- How the series stands, beside a bus `b` where the call of number `own` writes the
batch and has returned `answers`.  While it goes on, its current call is for
the next message of that call, or for the last one that it has written. -/
inductive Standing (own : Nat) (name : Nat → Nat) (ctx : Context) (b b' : Bus) :
    List (Except Error Nat) → Stage → Prop
  | untried {m : Message} {left : List Message} {written : Nat}
      (haccount : b.account? own = some ⟨ctx, m :: left, written⟩)
      (h : Bus.Mirrors own false name b b') :
      Standing own name ctx b b' [] (.writing (name own) left written)
  | sent {left : List Message} {written : Nat}
      (haccount : b.account? own = some ⟨ctx, left, written + 1⟩)
      (h : Bus.Mirrors own true name b b') :
      Standing own name ctx b b' [] (.writing (name own) left written)
  | done {sent : Bool} {result : Except Error Nat} (haccount : b.account? own = none)
      (h : Bus.Mirrors own sent name b b') : Standing own name ctx b b' [result] (.done result)

/-- The series stands beside a run in which the call of number `own` writes the batch:
all that has been seen of that call so far is the same here, and calls have the
numbers `name` here. -/
structure Follows (own : Nat) (name : Nat → Nat) (x : Series) (t : System)
    (events : List BusEvent) : Prop where
  own_eq : x.own = some own
  own_lt : own < t.bus.nextCall
  sound : t.bus.Sound
  sound' : x.system.bus.Sound
  started : t.bus.isStarted = true
  ambient_eq : x.system.ambient = t.ambient
  length_eq : x.names.length = t.bus.nextCall
  names_eq : ∀ n, n < t.bus.nextCall → n ≠ own → x.names[n]? = some (name n)
  pushed_eq : x.pushed = Bus.pushesOf own events
  standing : Standing own name x.ctx t.bus x.system.bus (Bus.answersOf own events) x.stage

variable {own : Nat} {name name' : Nat → Nat} {ctx : Context} {b b' c c' : Bus} {x : Series}
  {t : System} {events : List BusEvent} {answers : List (Except Error Nat)} {stage : Stage}

/-- The buses are the same but for their calls. -/
theorem Standing.mirrors (h : Standing own name ctx b b' answers stage) :
    ∃ sent, Bus.Mirrors own sent name b b' := by
  cases h with
  | untried _ h => exact ⟨false, h⟩
  | sent _ h => exact ⟨true, h⟩
  | done _ h => exact ⟨_, h⟩

/-- What others do does not change how the series stands. -/
theorem Standing.apart (h : Standing own name ctx b b' answers stage)
    (haccount : c.account? own = b.account? own) (hname : name' own = name own)
    (hmirrors : ∀ sent, Bus.Mirrors own sent name b b' → Bus.Mirrors own sent name' c c') :
    Standing own name' ctx c c' answers stage := by
  cases h with
  | untried hb h => exact hname ▸ .untried (haccount.trans hb) (hmirrors _ h)
  | sent hb h => exact hname ▸ .sent (haccount.trans hb) (hmirrors _ h)
  | done hb h => exact .done (haccount.trans hb) (hmirrors _ h)

/-- The series is never found between two calls. -/
theorem Standing.not_between (h : Standing own name ctx b b' answers stage)
    (left : List Message) (written : Nat) : stage ≠ .between left written := by
  cases h <;> simp

/-- After a step of a call that has one more message to write, and of the like call for
that message alone. -/
theorem Standing.of_paired {a : Ambient} {spare : Nat} {call : Call} {m : Message}
    {left : List Message} {written : Nat} {result result' : Bus × List BusEvent}
    (h : Bus.Mirrors own false name b b') (hslots : b.Slots spare) (hcall : call ∈ b.calls)
    (hid : call.id = own) (hp : call.pending = m :: left)
    (haccount : b.account? own = some ⟨ctx, m :: left, written⟩)
    (hhandling : Bus.Handling own a b result.2 result.1)
    (hpaired : Bus.Paired own false name b b' call (call.mirrored own false name) result result') :
    Bus.pushesOf (name own) result'.2 = Bus.pushesOf own result.2 ∧
      Standing own name ctx result.1 result'.1 (Bus.answersOf own result.2)
        (.next (name own) left written (Bus.answersOf (name own) result'.2)) := by
  subst hid
  have hportion : (call.mirrored call.id false name).pending = [m] := by
    rw [Call.mirrored_own _ _ rfl, Call.portion, hp]
    rfl
  cases hpaired with
  | waits hnext =>
      exact ⟨rfl, .untried ((hhandling.account_eq rfl rfl).trans haccount) hnext⟩
  | @fails next next' e hnext =>
      have hgone := hhandling.account_none (by simp)
      have hanswer : Bus.answersOf call.id [.answered call.id (.error e)] = [.error e] :=
        Bus.answersOf_answered _ _
      have hanswer' : Bus.answersOf (name call.id)
          [.answered (call.mirrored call.id false name).id (.error e)] = [.error e] :=
        Bus.answersOf_answered _ _
      refine ⟨rfl, ?_⟩
      simp only [hanswer, hanswer', Stage.next]
      exact .done hgone hnext
  | pushes hp₁ hp₂ =>
      rw [hp] at hp₁
      rw [hportion] at hp₂
      cases hp₁
      cases hp₂
      have hpush : Bus.pushesOf call.id (b.push call m left).2 = [m] := Bus.pushesOf_accepted _ _
      refine ⟨(Bus.pushesOf_accepted _ _).trans hpush.symm, ?_⟩
      exact .sent (hhandling.account_pushed (by simp [hpush]) haccount)
        (h.push_own hslots hcall rfl m left)

namespace Follows

/-- What others do in both, the series follows. -/
theorem apart (h : Follows own name x t events) {move move' : Move} (hne : move ≠ .call own)
    {names : List Nat} (hname : name' own = name own)
    (hlength : names.length = (t.apply move).1.bus.nextCall)
    (hnames : ∀ n, n < (t.apply move).1.bus.nextCall → n ≠ own → names[n]? = some (name' n))
    (hambient : (x.system.apply move').1.ambient = (t.apply move).1.ambient)
    (hmirrors : ∀ sent, Bus.Mirrors own sent name t.bus x.system.bus →
      Bus.Mirrors own sent name' (t.apply move).1.bus (x.system.apply move').1.bus) :
    Follows own name' { x with system := (x.system.apply move').1, names } (t.apply move).1
      (events ++ (t.apply move).2) where
  own_eq := h.own_eq
  own_lt := Nat.lt_of_lt_of_le h.own_lt (System.apply_nextCall_le h.sound move)
  sound := (System.apply_sound h.sound move).1
  sound' := (System.apply_sound h.sound' move').1
  started := System.apply_isStarted h.sound h.started move
  ambient_eq := hambient
  length_eq := hlength
  names_eq := hnames
  pushed_eq := by
    rw [Bus.pushesOf_append, (System.apply_apart hne).2, List.append_nil]
    exact h.pushed_eq
  standing := by
    rw [Bus.answersOf_append, (System.apply_apart hne).1, List.append_nil]
    exact h.standing.apart (System.apply_account h.sound h.own_lt hne) hname hmirrors

/-- A move that begins no call is made here as well. -/
theorem same (h : Follows own name x t events) {move move' : Move} (hne : move ≠ .call own)
    (hnext : (t.apply move).1.bus.nextCall = t.bus.nextCall)
    (hambient : (x.system.apply move').1.ambient = (t.apply move).1.ambient)
    (hmirrors : ∀ sent, Bus.Mirrors own sent name t.bus x.system.bus →
      Bus.Mirrors own sent name (t.apply move).1.bus (x.system.apply move').1.bus) :
    Follows own name { x with system := (x.system.apply move').1 } (t.apply move).1
      (events ++ (t.apply move).2) :=
  h.apart hne rfl (hnext ▸ h.length_eq) (hnext ▸ h.names_eq) hambient hmirrors

/-- Another call begins in both. -/
theorem write (h : Follows own name x t events) (ctx : Context) (messages : List Message) :
    ∃ name', Follows own name' (x.move (.write ctx messages)) (t.apply (.write ctx messages)).1
      (events ++ (t.apply (.write ctx messages)).2) := by
  obtain ⟨sent, hsame⟩ := h.standing.mirrors
  by_cases hopen : t.bus.senderOpen = true
  · have hstarted' := hsame.isStarted_eq.trans h.started
    have hopen' := hsame.senderOpen_eq.trans hopen
    have hwrite := System.apply_write_eq h.started hopen ctx messages
    have hwrite' := System.apply_write_eq hstarted' hopen' ctx messages
    have hmove : x.move (.write ctx messages) =
        { x with
          system := (x.system.apply (.write ctx messages)).1
          names := x.names ++ [x.system.bus.nextCall] } := by
      rw [hwrite']
      simp only [move, System.beginCall_eq hstarted' hopen']
    have hnext : (t.apply (.write ctx messages)).1.bus.nextCall = t.bus.nextCall + 1 := by
      rw [hwrite]
      rfl
    let name' := Function.update name t.bus.nextCall x.system.bus.nextCall
    have hold : ∀ n, n < t.bus.nextCall → name' n = name n :=
      fun n hn => Function.update_of_ne (Nat.ne_of_lt hn) _ _
    have hnew : name' t.bus.nextCall = x.system.bus.nextCall := Function.update_self _ _ _
    refine ⟨name', ?_⟩
    rw [hmove]
    refine h.apart (by simp) (hold own h.own_lt) ?_ ?_ ?_ fun sent hmirrors => ?_
    · rw [List.length_append, List.length_singleton, h.length_eq, hnext]
    · intro n hn hne
      rcases Nat.lt_succ_iff_lt_or_eq.mp (hnext ▸ hn) with hlt | rfl
      · rw [List.getElem?_append_left (h.length_eq ▸ hlt), h.names_eq n hlt hne, hold n hlt]
      · rw [hnew, ← h.length_eq, List.getElem?_concat_length]
    · rw [hwrite, hwrite']
      exact h.ambient_eq
    · rw [hwrite, hwrite']
      exact hmirrors.begun h.sound.slots.numbered h.sound.slots.line_numbered h.own_lt hold hnew
        ctx messages
  · have hopen' : ¬ (x.system.bus.isStarted = true ∧ x.system.bus.senderOpen = true) := by
      rw [hsame.senderOpen_eq]
      exact fun hboth => hopen hboth.2
    have hwrite := System.apply_write_of_not_open (fun hboth => hopen hboth.2) ctx messages
    have hmove : x.move (.write ctx messages) = x := by
      have hstarted' := hsame.isStarted_eq.trans h.started
      have hclosed := hsame.senderOpen_eq.trans (Bool.not_eq_true _ ▸ hopen)
      simp [move, Bus.beginCall, hstarted', hclosed]
    rw [hwrite, hmove, List.append_nil]
    exact ⟨name, h⟩

/-- Another call takes a step in both, if it has begun. -/
theorem call (h : Follows own name x t events) {n : Nat} (hne : n ≠ own) :
    Follows own name (x.move (.call n)) (t.apply (.call n)).1
      (events ++ (t.apply (.call n)).2) := by
  obtain ⟨sent, hsame⟩ := h.standing.mirrors
  have hown : ¬ x.own = some n := by
    rw [h.own_eq]
    exact fun heq => hne (Option.some.inj heq).symm
  by_cases hn : n < t.bus.nextCall
  · have hmove : x.move (.call n) =
        { x with system := (x.system.apply (.call (name n))).1 } := by
      simp only [move, if_neg hown, h.names_eq n hn hne]
    rw [hmove]
    have hfound : ∀ sent, Bus.Mirrors own sent name t.bus x.system.bus →
        x.system.bus.call? (name n) = (t.bus.call? n).map (Call.mirrored own sent name) :=
      fun _ hmirrors => hmirrors.call?_eq h.sound'.slots h.sound.slots.numbered hn
    refine h.same (by simpa using hne) (System.apply_call_nextCall t n) ?_ fun sent hmirrors => ?_
    · have hfound := hfound sent hsame
      cases hc : t.bus.call? n with
      | none =>
          rw [hc] at hfound
          simp only [System.apply, hc, hfound, Option.map_none]
          exact h.ambient_eq
      | some c =>
          rw [hc] at hfound
          simp only [System.apply, hc, hfound, Option.map_some, System.ofStep]
          exact h.ambient_eq
    · have hfound := hfound sent hmirrors
      cases hc : t.bus.call? n with
      | none =>
          rw [hc] at hfound
          simp only [System.apply, hc, hfound, Option.map_none]
          exact hmirrors
      | some c =>
          rw [hc] at hfound
          obtain ⟨hmem, rfl⟩ := Bus.call?_some hc
          simp only [System.apply, hc, hfound, Option.map_some, System.ofStep, h.ambient_eq]
          exact hmirrors.stepCall_other h.sound.slots hmem hne t.ambient
  · have hmove : x.move (.call n) = x := by
      have hnone : x.names[n]? = none :=
        List.getElem?_eq_none (h.length_eq ▸ Nat.le_of_not_lt hn)
      simp only [move, if_neg hown, hnone]
    have hnone : t.bus.call? n = none := by
      refine List.find?_eq_none.mpr fun c hc hid => ?_
      have hlt := h.sound.slots.numbered c hc
      rw [beq_iff_eq.mp hid] at hlt
      exact hn hlt
    simp only [hmove, System.apply, hnone, List.append_nil]
    exact h

/-- A handler goes on in both, if it is running. -/
theorem invocation (h : Follows own name x t events) (n : Nat) (reply : Bus.Reply) :
    Follows own name (x.move (.invocation n reply)) (t.apply (.invocation n reply)).1
      (events ++ (t.apply (.invocation n reply)).2) := by
  obtain ⟨sent, hsame⟩ := h.standing.mirrors
  have hfound : x.system.bus.invocation? n = t.bus.invocation? n := by
    rw [Bus.invocation?, hsame.running_eq, Bus.invocation?]
  have hne : Move.invocation n reply ≠ .call own := by simp
  cases hi : t.bus.invocation? n with
  | none =>
      rw [hi] at hfound
      refine h.same hne ?_ ?_ fun sent hmirrors => ?_ <;> simp only [System.apply, hi, hfound]
      · exact h.ambient_eq
      · exact hmirrors
  | some i =>
      rw [hi] at hfound
      have hblind := Bus.blind_pollInvocation i (t.ambient.err i.ctx) reply
      refine h.same hne ?_ ?_ fun sent hmirrors => ?_ <;>
        simp only [System.apply, hi, hfound, System.ofStep, h.ambient_eq]
      · exact hblind.nextCall_eq t.bus
      · exact (hmirrors.blind hblind).1

/-- Whatever others do in the run, the series follows. -/
theorem other (h : Follows own name x t events) {move : Move} (hne : move ≠ .call own) :
    ∃ name', Follows own name' (x.move move) (t.apply move).1
      (events ++ (t.apply move).2) := by
  cases move with
  | start ctx =>
      exact ⟨name, h.same (by simp) ((Bus.blind_start ctx).nextCall_eq t.bus) h.ambient_eq
        fun sent hmirrors => (hmirrors.blind (Bus.blind_start ctx)).1⟩
  | register task =>
      exact ⟨name, h.same (by simp) rfl h.ambient_eq
        fun sent hmirrors => (hmirrors.blind (Bus.blind_register task)).1⟩
  | write ctx messages => exact h.write ctx messages
  | call n => exact ⟨name, h.call fun heq => hne (congrArg Move.call heq)⟩
  | dispatcher =>
      have hstep : ∀ sent, Bus.Mirrors own sent name t.bus x.system.bus → _ :=
        fun sent hmirrors => hmirrors.stepDispatcher h.sound.slots t.ambient
      obtain ⟨sent, hsame⟩ := h.standing.mirrors
      refine ⟨name, h.same hne (Bus.stepDispatcher_nextCall t.bus t.ambient) ?_
        fun sent hmirrors => ?_⟩ <;> simp only [System.apply, h.ambient_eq]
      · rw [(hstep sent hsame).2]
      · exact (hstep sent hmirrors).1
  | watcher =>
      refine ⟨name, h.same hne ((Bus.blind_stepWatcher t.ambient).nextCall_eq t.bus) h.ambient_eq
        fun sent hmirrors => ?_⟩
      simp only [System.apply, System.ofStep, h.ambient_eq]
      exact (hmirrors.blind (Bus.blind_stepWatcher t.ambient)).1
  | invocation n reply => exact ⟨name, h.invocation n reply⟩
  | issue =>
      refine ⟨name, h.same hne rfl ?_ fun _ hmirrors => hmirrors⟩
      simp only [System.apply, h.ambient_eq]
  | cancel ctx =>
      refine ⟨name, h.same hne rfl ?_ fun _ hmirrors => hmirrors⟩
      simp only [System.apply, h.ambient_eq]
  | advance millis =>
      refine ⟨name, h.same hne rfl ?_ fun _ hmirrors => hmirrors⟩
      simp only [System.apply, h.ambient_eq]

/-- The call that is in the place of that for the batch. -/
theorem own_call (h : Follows own name x t events) {sent : Bool}
    (hmirrors : Bus.Mirrors own sent name t.bus x.system.bus) {c : Call}
    (hc : t.bus.call? own = some c) :
    x.system.bus.call? (name own) = some (c.mirrored own sent name) := by
  rw [hmirrors.call?_eq h.sound'.slots h.sound.slots.numbered h.own_lt, hc]
  rfl

/-- What a step of the two calls does to how the series stands. -/
theorem own_step (h : Follows own name x t events) {move' : Move} {stage : Stage}
    {pushed : List Message}
    (hambient : (x.system.apply move').1.ambient = (t.apply (.call own)).1.ambient)
    (hpushed : pushed = Bus.pushesOf own (t.apply (.call own)).2)
    (hstanding : Standing own name x.ctx (t.apply (.call own)).1.bus (x.system.apply move').1.bus
      (Bus.answersOf own (events ++ (t.apply (.call own)).2)) stage) :
    Follows own name
      { x with system := (x.system.apply move').1, pushed := x.pushed ++ pushed, stage }
      (t.apply (.call own)).1 (events ++ (t.apply (.call own)).2) :=
  have hnext := System.apply_call_nextCall t own
  { own_eq := h.own_eq
    own_lt := hnext ▸ h.own_lt
    sound := (System.apply_sound h.sound _).1
    sound' := (System.apply_sound h.sound' move').1
    started := System.apply_isStarted h.sound h.started _
    ambient_eq := hambient
    length_eq := hnext ▸ h.length_eq
    names_eq := hnext ▸ h.names_eq
    pushed_eq := by rw [Bus.pushesOf_append, h.pushed_eq, hpushed]
    standing := hstanding }

/-- A call for the next message takes its step as the call for the batch does. -/
theorem attempt {m : Message} {left : List Message} {written : Nat}
    (h : Follows own name x t events) (hstage : x.stage = .writing (name own) left written)
    (hanswers : Bus.answersOf own events = [])
    (haccount : t.bus.account? own = some ⟨x.ctx, m :: left, written⟩)
    (hmirrors : Bus.Mirrors own false name t.bus x.system.bus) :
    Follows own name x.step (t.apply (.call own)).1 (events ++ (t.apply (.call own)).2) := by
  obtain ⟨c, hc, habout⟩ := Bus.call?_of_account haccount
  obtain ⟨hmem, hid⟩ := Bus.call?_some hc
  have hp : c.pending = m :: left := congrArg Account.pending habout
  have hc' := h.own_call hmirrors hc
  have hp' : (c.mirrored own false name).pending = m :: [] := by
    rw [Call.mirrored_own _ _ hid, Call.portion, hp]
    rfl
  have happly : t.apply (.call own) = t.ofStep (t.bus.stepCall t.ambient c) := by
    simp only [System.apply, hc]
  have happly' : x.system.apply (.call (name own)) =
      x.system.ofStep (x.system.bus.stepCall t.ambient (c.mirrored own false name)) := by
    simp only [System.apply, hc', h.ambient_eq]
  have hhandling := System.apply_handling h.sound h.own_lt (.call own)
  rw [happly] at hhandling
  have hpaired := hmirrors.stepCall_paired h.sound.slots hmem hp hp' t.ambient
  obtain ⟨hpushes, hstanding⟩ :=
    Standing.of_paired hmirrors h.sound.slots hmem hid hp haccount hhandling hpaired
  simp only [step, hstage]
  refine h.own_step ?_ ?_ ?_
  · rw [happly, happly']
    exact h.ambient_eq
  · rw [happly, happly']
    exact hpushes
  · rw [Bus.answersOf_append, hanswers, List.nil_append, happly, happly']
    exact hstanding

/-- When the message of the current call is written, that call returns it in its next
step. -/
theorem step_sent {left : List Message} {written : Nat} (h : Follows own name x t events)
    (hstage : x.stage = .writing (name own) left written)
    (hmirrors : Bus.Mirrors own true name t.bus x.system.bus) {c : Call}
    (hc : t.bus.call? own = some c) :
    x.system.apply (.call (name own)) =
        ({ x.system with bus := x.system.bus.dismiss (c.mirrored own true name) },
          [.answered (name own) (.ok 1)]) ∧
      x.step =
        { x with
          system := { x.system with bus := x.system.bus.dismiss (c.mirrored own true name) }
          stage := .between left (written + 1) } := by
  obtain ⟨-, hid⟩ := Bus.call?_some hc
  have hc' := h.own_call hmirrors hc
  have hportion : c.mirrored own true name = { c.portion true with id := name c.id } :=
    Call.mirrored_own _ _ hid
  have hp' : (c.mirrored own true name).pending = [] := congrArg Call.pending hportion
  have hwritten' : (c.mirrored own true name).written = 1 := congrArg Call.written hportion
  have happly := System.apply_call_done hc' hp'
  rw [hwritten'] at happly
  refine ⟨happly, ?_⟩
  simp only [step, hstage, happly, Bus.answersOf_answered, Bus.pushesOf_answered, List.append_nil,
    Stage.next]

/-- When the last message is written, the batch returns. -/
theorem turn_last {written : Nat} (h : Follows own name x t events)
    (hstage : x.stage = .writing (name own) [] written) (hanswers : Bus.answersOf own events = [])
    (haccount : t.bus.account? own = some ⟨x.ctx, [], written + 1⟩)
    (hmirrors : Bus.Mirrors own true name t.bus x.system.bus) :
    Follows own name x.turn (t.apply (.call own)).1 (events ++ (t.apply (.call own)).2) := by
  obtain ⟨c, hc, habout⟩ := Bus.call?_of_account haccount
  obtain ⟨hmem, hid⟩ := Bus.call?_some hc
  obtain ⟨happly', hstep⟩ := h.step_sent hstage hmirrors hc
  have happly := System.apply_call_done hc (congrArg Account.pending habout)
  have hwritten : c.written = written + 1 := congrArg Account.written habout
  rw [hwritten] at happly
  have hgone : (t.apply (.call own)).1.bus.account? own = none := by
    rw [happly, Bus.account?, Bus.call?_dismiss, if_pos hid]
    rfl
  have hturn : x.turn =
      { x with
        system := (x.system.apply (.call (name own))).1
        pushed := x.pushed ++ []
        stage := .done (.ok (written + 1)) } := by
    rw [turn_of_between (congrArg stage hstep), hstep, happly', List.append_nil]
    rfl
  rw [hturn]
  refine h.own_step ?_ ?_ ?_
  · rw [happly, happly']
    exact h.ambient_eq
  · rw [happly]
    rfl
  · rw [Bus.answersOf_append, hanswers, List.nil_append]
    rw [happly] at hgone ⊢
    rw [happly', Bus.answersOf_answered]
    exact .done hgone (hmirrors.dismiss h.sound.slots hmem)

/-- When there are more messages, a call for the next one begins. -/
theorem proceed_next {m : Message} {left : List Message} {written : Nat}
    (h : Follows own name x t events) (hopen : t.bus.senderOpen = true)
    (hstage : x.stage = .writing (name own) (m :: left) written)
    (hanswers : Bus.answersOf own events = [])
    (haccount : t.bus.account? own = some ⟨x.ctx, m :: left, written + 1⟩)
    (hmirrors : Bus.Mirrors own true name t.bus x.system.bus) :
    ∃ name', Follows own name' x.step.proceed t events ∧
      x.step.proceed.stage = .writing (name' own) left (written + 1) ∧
      Bus.Mirrors own false name' t.bus x.step.proceed.system.bus := by
  obtain ⟨c, hc, habout⟩ := Bus.call?_of_account haccount
  obtain ⟨hmem, hid⟩ := Bus.call?_some hc
  have hctx : c.ctx = x.ctx := congrArg Account.ctx habout
  have hp : c.pending = m :: left := congrArg Account.pending habout
  obtain ⟨happly, hstep⟩ := h.step_sent hstage hmirrors hc
  -- the call that has written its message waits for nothing
  have hplace : c.place = .calling := by
    have hidle := h.sound'.slots.idle _ (hmirrors.mem hmem)
    rw [Call.mirrored_place, Call.mirrored_own _ _ hid] at hidle
    exact hidle rfl
  let freed : System :=
    { x.system with bus := x.system.bus.dismiss (c.mirrored own true name) }
  have hstarted : freed.bus.isStarted = true := hmirrors.isStarted_eq.trans h.started
  have hfree : freed.bus.senderOpen = true := hmirrors.senderOpen_eq.trans hopen
  have hproceed : x.step.proceed =
      { x with
        system := { freed with bus := freed.bus.begun x.ctx [m] }
        stage := .writing freed.bus.nextCall left (written + 1) } := by
    rw [hstep]
    exact proceed_of_open rfl hstarted hfree
  let name' := Function.update name own freed.bus.nextCall
  have hold : ∀ n, n < t.bus.nextCall → n ≠ own → name' n = name n :=
    fun n _ hne => Function.update_of_ne hne _ _
  have hnew : name' own = freed.bus.nextCall := Function.update_self _ _ _
  have hrenewed : Bus.Mirrors own false name' t.bus (freed.bus.begun x.ctx [m]) := by
    rw [← hctx]
    exact hmirrors.renew h.sound.slots hmem hid hp hplace hold hnew
  have hsound : freed.bus.Sound := by
    have hsound := (System.apply_sound h.sound' (.call (name own))).1
    rwa [happly] at hsound
  have hbegun := (System.apply_sound hsound (.write x.ctx [m])).1
  rw [System.apply_write_eq hstarted hfree] at hbegun
  rw [hproceed]
  refine ⟨name', ?_, by rw [hnew], hrenewed⟩
  exact {
    own_eq := h.own_eq
    own_lt := h.own_lt
    sound := h.sound
    sound' := hbegun
    started := h.started
    ambient_eq := h.ambient_eq
    length_eq := h.length_eq
    names_eq := fun n hn hne => (h.names_eq n hn hne).trans (congrArg some (hold n hn hne).symm)
    pushed_eq := h.pushed_eq
    standing := by
      rw [hanswers, ← hnew]
      exact .untried haccount hrenewed }

/-- The turn of the batch in both, while the bus is open. -/
theorem own_turn (h : Follows own name x t events)
    (hopen : Bus.answersOf own events = [] → t.bus.senderOpen = true) :
    ∃ name', Follows own name' x.turn (t.apply (.call own)).1
      (events ++ (t.apply (.call own)).2) := by
  have hstanding := h.standing
  generalize hanswers : Bus.answersOf own events = answers at hstanding
  generalize hstage : x.stage = stage at hstanding
  cases hstanding with
  | untried haccount hmirrors =>
      have hnext := h.attempt hstage hanswers haccount hmirrors
      rw [turn_of_not_between hnext.standing.not_between]
      exact ⟨name, hnext⟩
  | @sent left written haccount hmirrors =>
      cases left with
      | nil => exact ⟨name, h.turn_last hstage hanswers haccount hmirrors⟩
      | cons m left =>
          obtain ⟨c, hc, -⟩ := Bus.call?_of_account haccount
          obtain ⟨-, hstep⟩ := h.step_sent hstage hmirrors hc
          obtain ⟨name', hnext, hstage', hmirrors'⟩ :=
            h.proceed_next (hopen hanswers) hstage hanswers haccount hmirrors
          rw [turn_of_between (congrArg stage hstep)]
          rw [← step_ctx x, ← proceed_ctx x.step] at haccount
          exact ⟨name', hnext.attempt hstage' hanswers haccount hmirrors'⟩
  | @done sent result haccount hmirrors =>
      have hnone : t.bus.call? own = none := Option.map_eq_none_iff.mp haccount
      have hidle : t.apply (.call own) = (t, []) := by simp only [System.apply, hnone]
      have hstep : x.step = x := by simp only [step, hstage]
      have hturn : x.turn = x.step := turn_of_not_between fun _ _ => by simp [hstep, hstage]
      rw [hturn, hstep, hidle, List.append_nil]
      exact ⟨name, h⟩

/-- As long as the bus is open while the call for the batch goes on, the series follows
a whole run. -/
theorem run (h : Follows own name x t events) (later : List Move)
    (hopen : ∀ past rest, later = past ++ rest →
      Bus.answersOf own (events ++ (t.run past).2) = [] → (t.run past).1.bus.senderOpen = true) :
    ∃ name', Follows own name' (x.run later) (t.run later).1 (events ++ (t.run later).2) := by
  induction later generalizing x t events name with
  | nil =>
      refine ⟨name, ?_⟩
      rw [System.run, List.append_nil]
      exact h
  | cons move later ih =>
      have hfirst : Bus.answersOf own events = [] → t.bus.senderOpen = true := by
        intro hnone
        refine hopen [] (move :: later) rfl ?_
        rwa [System.run, List.append_nil]
      have hmoved : ∃ name', Follows own name' (x.move move) (t.apply move).1
          (events ++ (t.apply move).2) := by
        by_cases hown : move = .call own
        · subst hown
          have hturn : x.move (.call own) = x.turn := if_pos h.own_eq
          rw [hturn]
          exact h.own_turn hfirst
        · exact h.other hown
      obtain ⟨name', hnext⟩ := hmoved
      rw [System.run_cons, ← List.append_assoc]
      refine ih hnext fun past rest hsplit hnone => ?_
      have hpast := hopen (move :: past) rest (by rw [hsplit, List.cons_append])
      rw [System.run_cons, ← List.append_assoc] at hpast
      exact hpast hnone

/-- What the series has returned is what the call has. -/
theorem results_eq (h : Follows own name x t events) :
    x.results = Bus.answersOf own events := by
  have hstanding := h.standing
  generalize Bus.answersOf own events = answers at hstanding ⊢
  generalize hstage : x.stage = stage at hstanding
  cases hstanding <;> simp only [results, hstage]

end Follows

/-- At the beginning, the call of the series is for the first message of the batch. -/
theorem follows_begin {s : System} (h : s.bus.Sound) (hstarted : s.bus.isStarted = true)
    (hopen : s.bus.senderOpen = true) (ctx : Context) (m : Message) (left : List Message) :
    Follows s.bus.nextCall id (begin s ctx (m :: left))
      (s.apply (.write ctx (m :: left))).1 [] := by
  have hwrite := System.apply_write_eq hstarted hopen ctx (m :: left)
  have hwrite' := System.apply_write_eq hstarted hopen ctx [m]
  have hsound := (System.apply_sound h (.write ctx (m :: left))).1
  have hsound' := (System.apply_sound h (.write ctx [m])).1
  rw [hwrite] at hsound
  rw [hwrite'] at hsound'
  have hbegin : begin s ctx (m :: left) =
      { system := { s with bus := s.bus.begun ctx [m] }
        own := some s.bus.nextCall
        names := List.range (s.bus.nextCall + 1)
        ctx
        stage := .writing s.bus.nextCall left 0
        pushed := [] } := by
    rw [begin, proceed_of_open rfl hstarted hopen, System.beginCall_eq hstarted hopen, hwrite]
    rfl
  have hmirrors : Bus.Mirrors s.bus.nextCall false id (s.bus.begun ctx (m :: left))
      (s.bus.begun ctx [m]) := .of_begun h.slots ctx m left
  have haccount : (s.bus.begun ctx (m :: left)).account? s.bus.nextCall =
      some ⟨ctx, m :: left, 0⟩ := by
    have hfate := h.slots.fate_begun ctx (m :: left)
    cases hfate with
    | underway hpushes _ haccount =>
        cases hpushes
        exact haccount
    | returned hpushes => cases hpushes
    | failed e hp hpushes hanswers => cases hanswers
  rw [hwrite, hbegin]
  exact {
    own_eq := rfl
    own_lt := Nat.lt_succ_self _
    sound := hsound
    sound' := hsound'
    started := hstarted
    ambient_eq := rfl
    length_eq := List.length_range
    names_eq := fun n hn _ => List.getElem?_range hn
    pushed_eq := rfl
    standing := .untried haccount hmirrors }

end Series

end PubSub
