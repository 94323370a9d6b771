import PubSub.Proofs.Chain.Rounds
import PubSub.Proofs.Hub.Envelopes
import PubSub.Proofs.Registry.Index

/-!
# What the handler of a node is given

A node that was forked with the standard behaviors repeats attempts around all
the rest: every attempt restores the payload, puts the group of the node on the
message, and lets it begin its own flow.  The streams are those that the hub
knew when the node was forked, whatever is bound later.

* `Hub.register`, `registerAll_eq` — binding streams later;
* `Decoding.Restores`, `restores_iff` — restoring a payload, step by step;
* `Node.handed`, `Node.Sees` — what the handler is given in every attempt;
* `Hub.snapshot_run` — that it is given this.
-/

namespace PubSub

namespace Decoding

/-- The definition of the schema of a stream is looked up if and only if there
are schemas and the stream names one. -/
inductive Defines (d : Decoding) (m : Metadata) : Except Error String → Prop where
  | none (h : d.schemas = none ∨ m.schema = "") : Defines d m (.ok "")
  | named {s : Schemas} (hschemas : d.schemas = some s) (hnamed : m.schema ≠ "") :
      Defines d m (s.get m.schema m.schemaVersion)

/-- The payload in the data of a stream is found in three steps; the first that
fails decides. -/
inductive Restores (d : Decoding) (m : Metadata) (type : PayloadType) (data : Bytes) :
    Except Error Payload → Prop where
  | undefined {e : Error} (h : d.Defines m (.error e)) : Restores d m type data (.error e)
  | unreadable {schema : String} {e : CodecError} (hdefined : d.Defines m (.ok schema))
      (h : d.codec.unmarshal schema data = .error e) : Restores d m type data (.error (.codec e))
  | mismatched {schema : String} {v : Json} {e : Json.Mismatch}
      (hdefined : d.Defines m (.ok schema)) (hread : d.codec.unmarshal schema data = .ok v)
      (h : type.restore v = .error e) : Restores d m type data (.error (.ofMismatch e))
  | restored {schema : String} {v : Json} {payload : Payload}
      (hdefined : d.Defines m (.ok schema)) (hread : d.codec.unmarshal schema data = .ok v)
      (h : type.restore v = .ok payload) : Restores d m type data (.ok payload)

variable {d : Decoding} {m : Metadata} {type : PayloadType} {data : Bytes}

/-- So the definition is looked up. -/
theorem defines_iff {found : Except Error String} :
    d.Defines m found ↔ found = definition d.schemas m := by
  constructor
  · rintro (hnone | ⟨hschemas, hnamed⟩)
    · rcases hnone with hnone | hnone
      · simp [definition, hnone]
      · unfold definition
        split
        · rw [if_pos hnone]
        · rfl
    · simp [definition, hschemas, hnamed]
  · rintro rfl
    unfold definition
    split
    · next s hschemas =>
        split
        · next hnone => exact .none (.inr hnone)
        · next hnamed => exact .named hschemas hnamed
    · next hschemas => exact .none (.inl hschemas)

/-- So the payload is found, or the error. -/
theorem restores_iff {made : Except Error Payload} :
    d.Restores m type data made ↔ made = d.payload m type data := by
  constructor
  · intro h
    cases h with
    | undefined h => simp [payload, ← defines_iff.mp h, bind, Except.bind]
    | unreadable hdefined h => simp [payload, ← defines_iff.mp hdefined, h, bind, Except.bind]
    | mismatched hdefined hread h =>
        simp [payload, ← defines_iff.mp hdefined, hread, h, bind, Except.bind]
    | restored hdefined hread h =>
        simp [payload, ← defines_iff.mp hdefined, hread, h, bind, Except.bind]
  · rintro rfl
    have hdefines := defines_iff.mpr (rfl : definition d.schemas m = _)
    cases hdefined : definition d.schemas m with
    | error e =>
        rw [hdefined] at hdefines
        simp only [payload, hdefined, bind, Except.bind]
        exact .undefined hdefines
    | ok schema =>
        rw [hdefined] at hdefines
        cases hread : d.codec.unmarshal schema data with
        | error e =>
            simp only [payload, hdefined, hread, bind, Except.bind, mapError_error]
            exact .unreadable hdefines hread
        | ok v =>
            simp only [payload, hdefined, hread, bind, Except.bind, mapError_ok]
            cases hrestore : type.restore v with
            | error e => exact .mismatched hdefines hread hrestore
            | ok payload => exact .restored hdefines hread hrestore

end Decoding

/-- Does an attempt reach its end on the way in, at the handler or not? -/
def Sight.isUpshot : Sight → Bool
  | .called _ => true
  | .failed _ => true
  | _ => false

/-- What the attempts have come to on the way in, one after the other: the
handler was called, or a payload could not be restored. -/
def Passage.upshots (p : Passage) : List Sight := p.sights.filter Sight.isUpshot

/-- In rounds, all come to the same. -/
theorem Passage.Rounds.upshots {p : Passage} {policy : RetryPolicy} {inner : List Stage}
    {a given : Arrival}
    (h : p.Rounds [.entered (.retry policy) a] policy inner given) :
    p.upshots = List.replicate p.attempts (.arrived (Stage.giveAll inner given)) := by
  have hupshot : [Sight.arrived (Stage.giveAll inner given)].filter Sight.isUpshot =
      [.arrived (Stage.giveAll inner given)] := by
    cases Stage.giveAll inner given <;> rfl
  have hseen : (Stage.seen inner given).filter Sight.isUpshot =
      [.arrived (Stage.giveAll inner given)] :=
    (Stage.seen_filter (fun _ _ => rfl) inner given).trans hupshot
  rw [Passage.upshots, filter_inward (fun _ => rfl), h.inward, List.filter_append,
    List.filter_flatten, List.map_replicate, hseen, List.flatten_replicate_singleton]
  rfl

namespace Node

variable {δ : Type} (n : Node δ)

/-- What the handler of a node is given when this is restored: the message as it
was delivered, with the payload and the group of the node, in the context of the
delivery, but in the flow of the message. -/
def handed (ctx : Context) (message : Message) (decoded : Option Payload) : Arrival where
  ctx :=
    { ctx with
      correlationId := some message.correlationId
      causationId := some message.id }
  message := { message with decoded, group := if n.group = "" then none else some n.group }

/-- In every attempt, of which there is one at least, the handler is given the
message with the payload that is restored, or the first error of restoring it
stands; without a type there is nothing to restore. -/
structure Sees (d : Decoding) (ctx : Context) (message : Message) (p : Passage) : Prop where
  attempted : 1 ≤ p.attempts
  typed {m : Metadata} {type : PayloadType} (h : d.registry.resolve message.stream = .ok m)
    (htype : m.type = some type) :
    ∃ made, d.Restores m type message.data made ∧
      p.upshots = List.replicate p.attempts
        (.arrived (made.map fun payload => n.handed ctx message (some payload)))
  untyped (h : ∀ m, d.registry.resolve message.stream = .ok m → m.type = none) :
    p.upshots = List.replicate p.attempts (.called (n.handed ctx message none))
  /-- So the delivery stands. -/
  attested : p.Attested
  /-- Where it stands at the handler, that is what was given last. -/
  standing {given : Arrival} (h : p.Handles given) : p.upshots.getLast? = some (.called given)

/-- What the stages that are repeated make of a message without payload and
group. -/
theorem giveAll_standard {d : Decoding} {ctx : Context} {message : Message}
    (hdecoded : message.decoded = none) (hgroup : message.group = none) :
    Stage.giveAll [.correlation, .group n.group, .unmarshal d] ⟨ctx, message⟩ =
      match d.payload? message.stream message.data with
      | none => .ok (n.handed ctx message none)
      | some made => made.map fun payload => n.handed ctx message (some payload) := by
  rw [Stage.giveAll_cons_ok (Stage.give_correlation _),
    Stage.giveAll_cons_ok (Stage.give_group _ _)]
  simp only [Stage.giveAll, Stage.give_unmarshal_eq, Arrival.inGroup_eq, Arrival.inFlow,
    Message.inGroup, handed]
  rcases d.payload? message.stream message.data with _ | (e | payload)
  · simp only [Except.bind, ← hdecoded, hgroup]
  · rfl
  · simp only [Except.map, Except.bind, hgroup]

/-- Under the standard behaviors, that is so in every run. -/
theorem sees_run {d : Decoding} {policy : RetryPolicy}
    (hstages : n.target.stages =
      [.retry policy, .correlation, .group n.group, .unmarshal d])
    {message : Message} (hdecoded : message.decoded = none) (hgroup : message.group = none)
    (pace : Pace) (ctx : Context) (a : Ambient) (happenings : List (Happening Unit)) :
    n.Sees d ctx message ((n.route pace ctx message).run a happenings) := by
  let inner : List Stage := [.correlation, .group n.group, .unmarshal d]
  have hinner : ∀ stage ∈ inner, stage.isRetry = false := by simp [inner, Stage.isRetry]
  have hstart : ((n.route pace ctx message).start a).Rounds
      [.entered (.retry policy) ⟨ctx, message⟩] policy inner ⟨ctx, message⟩ :=
    Passage.Rounds.start (r := n.route pace ctx message) (hstages.trans (List.nil_append _).symm)
      (List.forall_mem_nil _) hinner rfl
  have hrounds := Route.run_keeps hstart (Passage.Rounds.next hinner) happenings
  have hupshots := hrounds.upshots
  rw [n.giveAll_standard hdecoded hgroup] at hupshots
  refine ⟨hrounds.attempts, fun {m type} hfound htype => ?_, fun huntyped => ?_,
    Route.attested_run _ a happenings,
    fun h => ((Route.handles_run _ a happenings _).mp h).getLast? rfl⟩
  · have hmade : d.payload? message.stream message.data = some (d.payload m type message.data) := by
      simp only [Decoding.payload?, hfound, htype, Option.map_some]
    rw [hmade] at hupshots
    exact ⟨_, Decoding.restores_iff.mpr rfl, hupshots⟩
  · have hmade : d.payload? message.stream message.data = none := by
      unfold Decoding.payload?
      split
      · rfl
      · next m hfound => rw [huntyped m hfound, Option.map_none]
    rw [hmade] at hupshots
    exact hupshots

end Node

namespace Hub

variable {ω δ : Type}

/-- The hub with one more stream. -/
def register (h : Hub ω δ) : Registration → Hub ω δ
  | .set key m => h.setStreamByKey key m
  | .bind type m => h.setStream type m

/-- The hub with many more streams. -/
def registerAll (h : Hub ω δ) (later : List Registration) : Hub ω δ := later.foldl register h

/-- All that becomes different is what streams are known. -/
theorem registerAll_eq (h : Hub ω δ) (later : List Registration) :
    h.registerAll later = { h with registry := later.foldl Registry.register h.registry } := by
  induction later generalizing h with
  | nil => rfl
  | cons op later ih =>
      refine (ih (h.register op)).trans ?_
      cases op <;> rfl

/-- The stages of a node with the standard behaviors. -/
theorem fork_standard {h : Hub ω δ} (hstandard : h.behaviors = Behavior.standard)
    (stream handler : String) (options : ReaderOptions δ) :
    let n := h.fork stream handler options
    ∃ policy, n.target.stages =
      [.retry policy, .correlation, .group n.group, .unmarshal h.decoding] := by
  intro n
  refine ⟨.ofSpans n.initialInterval n.maxInterval n.timeout, ?_⟩
  refine (Node.fork_stages stream handler h.decoding h.behaviors _).trans ?_
  rw [hstandard]
  rfl

/-- **The handler is given what the hub knew when the node was forked**: under
the standard behaviors every attempt restores the payload with the streams of
that time, whatever is bound later, and hands out the group of the node and the
flow of the message. -/
theorem snapshot_run {h h' : Hub ω δ} {key handler : String} {options : ReaderOptions δ}
    {notes : List Note} {n : Node δ} (hstandard : h.behaviors = Behavior.standard)
    (hread : h.read key handler options = .ok (h', notes)) (hnode : h'.nodes = h.nodes ++ [n])
    (later : List Registration) {message : Message} (hdecoded : message.decoded = none)
    (hgroup : message.group = none) (pace : Pace) (ctx : Context) (a : Ambient)
    (happenings : List (Happening Unit)) :
    (h'.registerAll later).nodes = h.nodes ++ [n] ∧
      n.Sees h.decoding ctx message ((n.route pace ctx message).run a happenings) := by
  obtain ⟨m, -, rfl⟩ := read_ok hread
  have hfork : [n] = if m.stream = "" then [] else [h.fork m.stream handler options] :=
    (List.append_cancel_left hnode).symm
  refine ⟨by rw [registerAll_eq, ← hnode], ?_⟩
  split at hfork
  · cases hfork
  · obtain rfl := List.singleton_inj.mp hfork
    obtain ⟨policy, hstages⟩ := fork_standard hstandard m.stream handler options
    exact Node.sees_run _ hstages hdecoded hgroup pace ctx a happenings

/-- A biller reads names.  Afterwards their stream is bound anew, without a
type; the biller is given names as before. -/
theorem snapshot_run_rebound :
    let options := { ReaderOptions.unset with group := some "billing" }
    let n := nameShop.fork "names" "bill" options
    let h' := { nameShop with nodes := [n] }
    let later := [.set "misc.Name" (.ofStream "other"), .set "names" (.ofStream "names")]
    let message := (leftName "names").onWire
    let ctx : Context := ⟨[0], none, none, none⟩
    let p := (n.route (fun _ _ _ => 0) ctx message).run ⟨0, ⟨1, []⟩⟩ [.returned (.ok ())]
    nameShop.read "misc.Name" "bill" options = .ok (h', nameShop.forkNotes n) ∧
      (h'.registerAll later).decoding.restore message = .ok message ∧
      (h'.registerAll later).nodes = [n] ∧ n.Sees nameShop.decoding ctx message p ∧
      p.upshots = [.called (n.handed ctx message (some ⟨Catalogue.name, .str "ann"⟩))] := by
  intro options n h' later message ctx p
  have hread : nameShop.read "misc.Name" "bill" options = .ok (h', nameShop.forkNotes n) := rfl
  have hdecoded : message.decoded = none := rfl
  have hgroup : message.group = none := rfl
  obtain ⟨hnodes, hsees⟩ := snapshot_run (n := n) rfl hread rfl later hdecoded hgroup
    (fun _ _ _ => 0) ctx ⟨0, ⟨1, []⟩⟩ [.returned (.ok ())]
  exact ⟨hread, rfl, hnodes, hsees, rfl⟩

end Hub
end PubSub
