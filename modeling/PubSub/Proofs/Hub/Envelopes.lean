import PubSub.Hub.Basic
import PubSub.Proofs.Outcome

/-!
# What a hub makes of a publication

An envelope is made from the entry of its key, the data and an
identifier.  Its correlation and causation come from the context, and
where that has none, from the envelope itself.  Apart from the supply of
identifiers, publishing leaves a hub as it is.

* `Message.InContext` — the flow of a message, as its context says;
* `Hub.Kept` — what publishing, binding and reading leave alone;
* `envelope_ok`, `publish_ok` — the parts of an envelope.
-/

namespace PubSub

/-- The message belongs to the flow of the context, or begins one. -/
structure Message.InContext (m : Message) (ctx : Context) : Prop where
  correlation : m.correlationId = ctx.correlationFor m.id
  causation : m.causationId = ctx.causationFor m.correlationId

namespace Hub

variable {ω δ : Type} {h h' h'' : Hub ω δ} {ctx : Context} {now : Nat} {item : Item}
  {items : List Item} {message : Message} {messages : List Message} {key : String}
  {content : Content} {w : ω}

/-- What never changes about a hub. -/
structure Kept (h h' : Hub ω δ) : Prop where
  codec : h'.codec = h.codec
  schemas : h'.schemas = h.schemas
  behaviors : h'.behaviors = h.behaviors

namespace Kept

theorem refl (h : Hub ω δ) : h.Kept h := ⟨rfl, rfl, rfl⟩

theorem trans (hkept : h.Kept h') (hkept' : h'.Kept h'') : h.Kept h'' :=
  ⟨hkept'.codec.trans hkept.codec, hkept'.schemas.trans hkept.schemas,
    hkept'.behaviors.trans hkept.behaviors⟩

end Kept

/-- A message that was put together is in its context. -/
theorem assemble_inContext (h : Hub ω δ) (ctx : Context) (now : Nat) (m : Metadata)
    (data : Bytes) (id : String) (subject : Option String) :
    (h.assemble ctx now m data id subject).InContext ctx :=
  ⟨rfl, rfl⟩

/-- The data of an item, when it can be found. -/
theorem encode_ok {json : Json} {m : Metadata} {data : Bytes}
    (hencode : h.encode key json = .ok (m, data)) :
    h.registry.get key = .ok m ∧
      ∃ schema, Decoding.definition h.schemas m = .ok schema ∧
        h.codec.marshal schema json = .ok data := by
  unfold encode at hencode
  cases hget : h.registry.get key with
  | error e => simp [hget, bind, Except.bind] at hencode
  | ok entry =>
      cases hdefinition : Decoding.definition h.schemas entry with
      | error e => simp [hget, hdefinition, bind, Except.bind] at hencode
      | ok schema =>
          cases hmarshal : h.codec.marshal schema json with
          | error e =>
              simp [hget, hdefinition, hmarshal, bind, Except.bind] at hencode
          | ok bytes =>
              simp only [hget, hdefinition, hmarshal, bind, Except.bind, mapError_ok,
                Except.ok.injEq, Prod.mk.injEq] at hencode
              obtain ⟨rfl, rfl⟩ := hencode
              exact ⟨rfl, schema, hdefinition, hmarshal⟩

/-- The parts of the message for an item. -/
theorem envelope_ok (hmade : (h.envelope ctx now item).1 = .ok message) :
    ∃ m data id, h.encode item.key item.json = .ok (m, data) ∧
      message = h.assemble ctx now m data id item.subject := by
  unfold envelope at hmade
  split at hmade
  · cases hmade
  · rename_i m data hencode
    cases hid : h.ids.draw.1 with
    | error e => simp [hid, Except.map] at hmade
    | ok id =>
        simp only [hid, Except.map, Except.ok.injEq] at hmade
        exact ⟨m, data, id, hencode, hmade.symm⟩

/-- The message for an item is in its context. -/
theorem envelope_inContext (hmade : (h.envelope ctx now item).1 = .ok message) :
    message.InContext ctx := by
  obtain ⟨m, data, id, -, rfl⟩ := envelope_ok hmade
  exact h.assemble_inContext ctx now m data id item.subject

/-- Making an envelope uses up an identifier, or nothing. -/
theorem envelope_hub (h : Hub ω δ) (ctx : Context) (now : Nat) (item : Item) :
    ∃ ids, (h.envelope ctx now item).2 = { h with ids } := by
  unfold envelope
  split
  · exact ⟨h.ids, rfl⟩
  · exact ⟨h.ids.draw.2, rfl⟩

/-- The messages for items are in their context. -/
theorem envelopes_inContext (hmade : (h.envelopes ctx now items).1 = .ok messages) :
    ∀ m ∈ messages, m.InContext ctx := by
  induction items generalizing h messages with
  | nil =>
      cases hmade
      simp
  | cons item items ih =>
      unfold envelopes at hmade
      split at hmade
      · cases hmade
      · rename_i message h' hfirst
        cases hrest : (h'.envelopes ctx now items).1 with
        | error e => simp [hrest, Except.map] at hmade
        | ok rest =>
            simp only [hrest, Except.map, Except.ok.injEq] at hmade
            rw [← hmade, List.forall_mem_cons]
            exact ⟨envelope_inContext (congrArg Prod.fst hfirst), ih hrest⟩

/-- Making envelopes uses up identifiers only. -/
theorem envelopes_hub (h : Hub ω δ) (ctx : Context) (now : Nat) (items : List Item) :
    ∃ ids, (h.envelopes ctx now items).2 = { h with ids } := by
  induction items generalizing h with
  | nil => exact ⟨h.ids, rfl⟩
  | cons item items ih =>
      obtain ⟨ids, hids⟩ := h.envelope_hub ctx now item
      unfold envelopes
      split
      · rename_i e h' hfirst
        rw [hfirst] at hids
        exact ⟨ids, hids⟩
      · rename_i message h' hfirst
        rw [hfirst] at hids
        change h' = { h with ids } at hids
        subst hids
        exact ih _

/-- The parts of the message for a publication. -/
theorem publish_ok (hmade : (h.publish ctx now key content).1 = .ok (w, message)) :
    ∃ json m data id, content.json = .ok json ∧ h.encode key json = .ok (m, data) ∧
      message = h.assemble ctx now m data id content.subject := by
  unfold publish at hmade
  split at hmade
  · cases hmade
  · cases hmade
  · rename_i item hwriter hitem
    cases hjson : content.json with
    | error e => simp [Item.of, hjson, bind, Except.bind] at hitem
    | ok json =>
        simp only [Item.of, hjson, mapError_ok, bind, Except.bind, Except.ok.injEq] at hitem
        subst hitem
        cases hfirst : (h.envelope ctx now ⟨key, json, content.subject⟩).1 with
        | error e => simp [hfirst, Except.map] at hmade
        | ok made =>
            simp only [hfirst, Except.map, Except.ok.injEq, Prod.mk.injEq] at hmade
            obtain ⟨m, data, id, hencode, heq⟩ := envelope_ok hfirst
            exact ⟨json, m, data, id, rfl, hencode, hmade.2.symm.trans heq⟩

/-- Publishing uses up an identifier, or nothing. -/
theorem publish_hub (h : Hub ω δ) (ctx : Context) (now : Nat) (key : String)
    (content : Content) : ∃ ids, (h.publish ctx now key content).2 = { h with ids } := by
  unfold publish
  split
  · exact ⟨h.ids, rfl⟩
  · exact ⟨h.ids, rfl⟩
  · exact h.envelope_hub ctx now _

/-- The messages of a batch are in their context. -/
theorem publishBatch_inContext
    (hmade : (h.publishBatch ctx now items).1 = .ok (w, messages)) :
    ∀ m ∈ messages, m.InContext ctx := by
  unfold publishBatch at hmade
  split at hmade
  · cases hmade
  · cases hall : (h.envelopes ctx now items).1 with
    | error e => simp [hall, Except.map] at hmade
    | ok made =>
        simp only [hall, Except.map, Except.ok.injEq, Prod.mk.injEq] at hmade
        rw [← hmade.2]
        exact envelopes_inContext hall

/-- Publishing a batch uses up identifiers only. -/
theorem publishBatch_hub (h : Hub ω δ) (ctx : Context) (now : Nat) (items : List Item) :
    ∃ ids, (h.publishBatch ctx now items).2 = { h with ids } := by
  unfold publishBatch
  split
  · exact ⟨h.ids, rfl⟩
  · exact h.envelopes_hub ctx now items

/-- A reader that was registered adds a fork of the hub, or nothing. -/
theorem read_ok {handler : String} {options : ReaderOptions δ} {notes : List Note}
    (hread : h.read key handler options = .ok (h', notes)) :
    ∃ m, h.registry.get key = .ok m ∧
      h' = { h with nodes := h.nodes ++
        if m.stream = "" then [] else [h.fork m.stream handler options] } := by
  unfold read at hread
  cases hget : h.registry.get key with
  | error e => simp [hget, bind, Except.bind] at hread
  | ok m =>
      refine ⟨m, rfl, ?_⟩
      by_cases hempty : m.stream = ""
      · simp only [hget, bind, Except.bind, hempty, if_true, Except.ok.injEq,
          Prod.mk.injEq] at hread
        simp [hempty, ← hread.1]
      · simp only [hget, bind, Except.bind, hempty, if_false, Except.ok.injEq,
          Prod.mk.injEq] at hread
        simp [hempty, ← hread.1]

end Hub
end PubSub
