import PubSub.Proofs.Hub.Batch
import PubSub.Proofs.Hub.Snapshot

/-!
# The stages of a publication

What is published under a key goes through six stages before the writer is
asked: there must be a writer, the payload becomes JSON, the entry of the key
is looked up, the definition of its schema if it names one, the data is
marshalled, and an identifier is drawn.  The first stage that fails gives the
error, and nothing after it is done.

* `Hub.Stop`, `Hub.StopsAt` — the stages, and why a publication ends there;
* `Hub.Encodes`, `Hub.letter` — a publication that is ready, and its message;
* `StopsAt.publish`, `Encodes.publish` — what becomes of either;
* `stopsAt_or_encodes` — there is no third;
* `Hub.publish_in_stages` — the law, with what the writer is asked.
-/

namespace PubSub
namespace Hub

variable {ω δ : Type} {h : Hub ω δ} {w : ω} {ctx : Context} {now : Nat} {key : String}
  {content : Content} {json : Json} {m : Metadata} {schema id : String} {data : Bytes} {e : Error}

/-- The stages of a publication, in their order. -/
inductive Stop where
  | writer
  | payload
  | entry
  | definition
  | data
  | identifier
  deriving DecidableEq, Repr

/-- How many identifiers a publication uses up that ends at a stage: only the
last one draws. -/
def Stop.draws : Stop → Nat
  | .identifier => 1
  | _ => 0

/-- The first three stages have gone through. -/
structure Finds (h : Hub ω δ) (key : String) (content : Content) (w : ω) (json : Json)
    (m : Metadata) : Prop where
  writer : h.writer = some w
  payload : content.json = .ok json
  entry : h.registry.entry? key = some m

/-- All stages have gone through, up to the identifier. -/
def Encodes (h : Hub ω δ) (key : String) (content : Content) (w : ω) (m : Metadata)
    (data : Bytes) : Prop :=
  ∃ json schema, h.Finds key content w json m ∧ h.decoding.Defines m (.ok schema) ∧
    h.codec.marshal schema json = .ok data

/-- A publication ends at a stage: those before it have gone through, and it
fails. -/
inductive StopsAt (h : Hub ω δ) (key : String) (content : Content) : Stop → Error → Prop
  | writer (hwriter : h.writer = none) : StopsAt h key content .writer .missingWriter
  | payload {w : ω} {mismatch : Json.Mismatch} (hwriter : h.writer = some w)
      (hpayload : content.json = .error mismatch) :
      StopsAt h key content .payload (.ofMismatch mismatch)
  | entry {w : ω} {json : Json} (hwriter : h.writer = some w) (hpayload : content.json = .ok json)
      (hentry : h.registry.entry? key = none) :
      StopsAt h key content .entry (.missingStream key)
  | definition {w : ω} {json : Json} {m : Metadata} {e : Error}
      (hfound : h.Finds key content w json m) (hundefined : h.decoding.Defines m (.error e)) :
      StopsAt h key content .definition e
  | data {w : ω} {json : Json} {m : Metadata} {schema : String} {e : CodecError}
      (hfound : h.Finds key content w json m) (hdefined : h.decoding.Defines m (.ok schema))
      (hmarshal : h.codec.marshal schema json = .error e) :
      StopsAt h key content .data (.codec e)
  | identifier {w : ω} {m : Metadata} {data : Bytes} {e : Error}
      (hdata : h.Encodes key content w m data) (hid : h.ids.source h.ids.drawn = .error e) :
      StopsAt h key content .identifier e

/-- The message of a publication whose stages have all gone through. -/
def letter (h : Hub ω δ) (ctx : Context) (now : Nat) (content : Content) (m : Metadata)
    (data : Bytes) (id : String) : Message where
  stream := m.stream
  streamVersion := m.streamVersion
  id
  source := h.name
  specVersion := "1.0"
  type := messageType h.name m.stream m.streamVersion
  data
  contentType := some h.codec.contentType
  schema := if m.schema = "" then none else some m.schema
  schemaVersion := if m.schema = "" then none else some m.schemaVersion
  time := .afterStart now
  subject := content.subject
  correlationId := ctx.correlationId.getD id
  causationId := ctx.causationId.getD (ctx.correlationId.getD id)
  decoded := none
  group := none

/-- The entry of a key, as it is looked up. -/
theorem registry_get_none (hentry : h.registry.entry? key = none) :
    h.registry.get key = .error (.missingStream key) := by
  rw [Registry.get, hentry]

theorem registry_get_some (hentry : h.registry.entry? key = some m) :
    h.registry.get key = .ok m := by
  rw [Registry.get, hentry]

/-- A definition, as it is looked up. -/
theorem definition_of_defines {found : Except Error String} (hdefines : h.decoding.Defines m found) :
    Decoding.definition h.schemas m = found :=
  (Decoding.defines_iff.mp hdefines).symm

/-- With a writer and a JSON value, a publication is what becomes of its item. -/
theorem publish_eq_envelope (hwriter : h.writer = some w) (hpayload : content.json = .ok json) :
    h.publish ctx now key content =
      ((h.envelope ctx now ⟨key, json, content.subject⟩).1.map (w, ·),
        (h.envelope ctx now ⟨key, json, content.subject⟩).2) := by
  have hitem : Item.of key content = .ok ⟨key, json, content.subject⟩ := by
    simp only [Item.of, hpayload, mapError_ok, bind, Except.bind]
  simp only [publish, getWriter, hwriter, hitem]

/-- Once the entry is found, the definition and the codec decide on the data. -/
theorem Finds.encode (hfound : h.Finds key content w json m) :
    h.encode key json =
      (Decoding.definition h.schemas m).bind fun schema =>
        ((h.codec.marshal schema json).mapError .codec).map (m, ·) := by
  unfold Hub.encode
  rw [registry_get_some hfound.entry]
  simp only [bind, Except.bind]
  cases Decoding.definition h.schemas m with
  | error e => rfl
  | ok schema => cases h.codec.marshal schema json <;> rfl

/-- The data is ready. -/
theorem Encodes.encode (hdata : h.Encodes key content w m data) :
    ∃ json, h.Finds key content w json m ∧ h.encode key json = .ok (m, data) := by
  obtain ⟨json, schema, hfound, hdefined, hmarshal⟩ := hdata
  refine ⟨json, hfound, ?_⟩
  rw [hfound.encode, definition_of_defines hdefined]
  simp only [Except.bind, hmarshal, mapError_ok]
  rfl

/-- An item whose data cannot be found makes its publication fail, and no
identifier is drawn. -/
theorem publish_unready (hfound : h.Finds key content w json m)
    (hencode : h.encode key json = .error e) :
    h.publish ctx now key content = (.error e, h) := by
  rw [publish_eq_envelope hfound.writer hfound.payload, envelope, hencode]
  rfl

/-- **A publication that ends at a stage** fails with the error of this stage,
and leaves the hub as it was, but for the identifier if it was refused. -/
theorem StopsAt.publish {stop : Stop} (hstop : h.StopsAt key content stop e) (ctx : Context)
    (now : Nat) : h.publish ctx now key content = (.error e, h.drawnBy stop.draws) := by
  cases hstop with
  | writer hwriter => simp only [Hub.publish, getWriter, hwriter]; rfl
  | payload hwriter hpayload =>
      simp only [Hub.publish, getWriter, hwriter, Item.of, hpayload, mapError_error, bind,
        Except.bind]
      rfl
  | entry hwriter hpayload hentry =>
      rw [publish_eq_envelope hwriter hpayload, envelope]
      simp only [Hub.encode, registry_get_none hentry, bind, Except.bind]
      rfl
  | definition hfound hundefined =>
      refine publish_unready hfound ?_
      rw [hfound.encode, definition_of_defines hundefined]
      rfl
  | data hfound hdefined hmarshal =>
      refine publish_unready hfound ?_
      rw [hfound.encode, definition_of_defines hdefined]
      simp only [Except.bind, hmarshal, mapError_error]
      rfl
  | identifier hdata hid =>
      obtain ⟨json, hfound, hencode⟩ := hdata.encode
      rw [publish_eq_envelope hfound.writer hfound.payload, envelope]
      simp only [hencode, Ids.draw, hid]
      rfl

/-- The parts that a message is assembled from. -/
theorem assemble_eq_letter (h : Hub ω δ) (ctx : Context) (now : Nat) (content : Content)
    (m : Metadata) (data : Bytes) (id : String) :
    h.assemble ctx now m data id content.subject = h.letter ctx now content m data id := by
  by_cases hschema : m.schema = ""
  · simp [assemble, letter, Message.compose, hschema, specVersion, Context.correlationFor,
      Context.causationFor]
  · simp [assemble, letter, Message.compose, hschema, specVersion, Context.correlationFor,
      Context.causationFor]

/-- **A publication whose stages all go through** is a message for the writer,
on one identifier. -/
theorem Encodes.publish (hdata : h.Encodes key content w m data)
    (hid : h.ids.source h.ids.drawn = .ok id) (ctx : Context) (now : Nat) :
    h.publish ctx now key content =
      (.ok (w, h.letter ctx now content m data id), h.drawnBy 1) := by
  obtain ⟨json, hfound, hencode⟩ := hdata.encode
  rw [publish_eq_envelope hfound.writer hfound.payload, envelope]
  simp only [hencode, Ids.draw, hid, Except.map, assemble_eq_letter]
  rfl

/-- A publication ends at a stage, or goes through all of them. -/
theorem stopsAt_or_encodes (h : Hub ω δ) (key : String) (content : Content) :
    (∃ stop e, h.StopsAt key content stop e) ∨
      ∃ w m data id, h.Encodes key content w m data ∧ h.ids.source h.ids.drawn = .ok id := by
  cases hwriter : h.writer with
  | none => exact .inl ⟨_, _, .writer hwriter⟩
  | some w =>
      cases hpayload : content.json with
      | error mismatch => exact .inl ⟨_, _, .payload hwriter hpayload⟩
      | ok json =>
          cases hentry : h.registry.entry? key with
          | none => exact .inl ⟨_, _, .entry hwriter hpayload hentry⟩
          | some m =>
              have hfound : h.Finds key content w json m := ⟨hwriter, hpayload, hentry⟩
              have hdefines := Decoding.defines_iff (d := h.decoding) (m := m).mpr rfl
              cases hdefined : Decoding.definition h.decoding.schemas m with
              | error e =>
                  rw [hdefined] at hdefines
                  exact .inl ⟨_, _, .definition hfound hdefines⟩
              | ok schema =>
                  rw [hdefined] at hdefines
                  cases hmarshal : h.codec.marshal schema json with
                  | error e => exact .inl ⟨_, _, .data hfound hdefines hmarshal⟩
                  | ok data =>
                      have hdata : h.Encodes key content w m data :=
                        ⟨json, schema, hfound, hdefines, hmarshal⟩
                      cases hid : h.ids.source h.ids.drawn with
                      | error e => exact .inl ⟨_, _, .identifier hdata hid⟩
                      | ok id => exact .inr ⟨w, m, data, id, hdata, rfl⟩

/-- A hub has no message just when a stage fails. -/
theorem publish_error_iff {h' : Hub ω δ} :
    h.publish ctx now key content = (.error e, h') ↔
      ∃ stop, h.StopsAt key content stop e ∧ h' = h.drawnBy stop.draws := by
  constructor
  · intro hfailed
    rcases h.stopsAt_or_encodes key content with ⟨stop, e', hstop⟩ | ⟨w, m, data, id, hdata, hid⟩
    · rw [hstop.publish ctx now] at hfailed
      obtain ⟨herror, hhub⟩ := Prod.mk.inj hfailed
      cases herror
      exact ⟨stop, hstop, hhub.symm⟩
    · rw [hdata.publish hid ctx now] at hfailed
      cases congrArg Prod.fst hfailed
  · rintro ⟨stop, hstop, rfl⟩
    exact hstop.publish ctx now

/-- It has one just when all of them go through. -/
theorem publish_ok_iff {message : Message} {h' : Hub ω δ} :
    h.publish ctx now key content = (.ok (w, message), h') ↔
      ∃ m data id, h.Encodes key content w m data ∧ h.ids.source h.ids.drawn = .ok id ∧
        message = h.letter ctx now content m data id ∧ h' = h.drawnBy 1 := by
  constructor
  · intro hmade
    rcases h.stopsAt_or_encodes key content with ⟨stop, e, hstop⟩ | ⟨w', m, data, id, hdata, hid⟩
    · rw [hstop.publish ctx now] at hmade
      cases congrArg Prod.fst hmade
    · rw [hdata.publish hid ctx now] at hmade
      obtain ⟨hmessage, hhub⟩ := Prod.mk.inj hmade
      cases hmessage
      exact ⟨m, data, id, hdata, hid, rfl, hhub.symm⟩
  · rintro ⟨m, data, id, hdata, hid, rfl, rfl⟩
    exact hdata.publish hid ctx now

end Hub

namespace Scenario

variable {s : Scenario} {ctx : Context} {key : String} {content : Content}

/-- A publication that ends at a stage is all that happens. -/
theorem publish_stops {stop : Hub.Stop} {e : Error} (hstop : s.hub.StopsAt key content stop e)
    (ctx : Context) :
    s.publish ctx key content =
      .ok ({ s with hub := s.hub.drawnBy stop.draws }, some (.error e)) := by
  simp only [publish, hstop.publish ctx s.now]

/-- Otherwise the writer is asked for the message, and has the last word. -/
theorem publish_sends {sink : Sink} {m : Metadata} {data : Bytes} {id : String}
    (hdata : s.hub.Encodes key content sink m data)
    (hid : s.hub.ids.source s.hub.ids.drawn = .ok id) (ctx : Context) :
    s.publish ctx key content =
      { s with hub := s.hub.drawnBy 1 }.send sink ctx
        (s.hub.letter ctx s.now content m data id) := by
  simp only [publish, hdata.publish hid ctx s.now]

end Scenario

namespace Hub

/-- **A publication goes through its stages in their order.**  It fails just
when one of them does after all before it have gone through, with the error of
this stage; an identifier is used up only if it is the identifier that is
refused, and nothing else has changed.  Otherwise there is one message, with
the parts that the entry, the hub, the codec, the payload and the context give
it, on one identifier.  A program does not ask the writer if a stage fails;
and if none does, it asks once, for this message, and comes to what the writer
comes to. -/
theorem publish_in_stages {ω δ : Type} (h : Hub ω δ) (ctx : Context) (now : Nat) (key : String)
    (content : Content) :
    (∀ e h', h.publish ctx now key content = (.error e, h') ↔
        ∃ stop, h.StopsAt key content stop e ∧ h' = h.drawnBy stop.draws) ∧
      (∀ w message h', h.publish ctx now key content = (.ok (w, message), h') ↔
        ∃ m data id, h.Encodes key content w m data ∧ h.ids.source h.ids.drawn = .ok id ∧
          message = h.letter ctx now content m data id ∧ h' = h.drawnBy 1) ∧
      ∀ s : Scenario,
        (∀ stop e, s.hub.StopsAt key content stop e →
          s.publish ctx key content =
            .ok ({ s with hub := s.hub.drawnBy stop.draws }, some (.error e))) ∧
        ∀ sink m data id, s.hub.Encodes key content sink m data →
          s.hub.ids.source s.hub.ids.drawn = .ok id →
          s.publish ctx key content =
            { s with hub := s.hub.drawnBy 1 }.send sink ctx
              (s.hub.letter ctx s.now content m data id) := by
  refine ⟨?_, ?_, ?_⟩
  · intro e h'
    exact publish_error_iff
  · intro w message h'
    exact publish_ok_iff
  · intro s
    refine ⟨?_, ?_⟩
    · intro stop e hstop
      exact s.publish_stops hstop ctx
    · intro sink m data id hdata hid
      exact s.publish_sends hdata hid ctx

/-- A hub without schemas whose codec writes no `null` and whose first
identifier is refused; the entry names a definition all the same. -/
def wary : Hub Sink Feed :=
  { (Hub.blank "shop" : Hub Sink Feed) with
    writer := some .bus
    codec := .headed
    ids := .numbered "m-" (some 1)
    registry := Registry.empty.set "order" ⟨"orders", 4, "order", 2, none⟩ }

/-- A context that knows its correlation but not its causation. -/
def inFlow : Context := { (Context.fresh Tokens.none).1 with correlationId := some "c" }

/-- The codec is asked before the identifier, so a payload that it refuses costs
none; with a payload that it takes, the identifier is refused; and after that
there is a message, which names the definition that nobody has looked up. -/
theorem publish_in_stages_wary :
    wary.publish inFlow 0 "order" (Json.content .null) =
        (.error (.codec (.other "null payload")), wary) ∧
      wary.publish inFlow 0 "order" (Json.content (.bool true)) =
        (.error (.identifier "id 1 refused"), wary.drawnBy 1) ∧
      ∃ message, (wary.drawnBy 1).publish inFlow 0 "order" (Json.content (.bool true)) =
          (.ok (.bus, message), wary.drawnBy 2) ∧
        message.stream = "orders" ∧ message.type = "shop.orders.v4" ∧ message.id = "m-2" ∧
        message.schema = some "order" ∧ message.schemaVersion = some 2 ∧
        message.correlationId = "c" ∧ message.causationId = "c" := by
  let m : Metadata := ⟨"orders", 4, "order", 2, none⟩
  have hfound (n : Nat) (v : Json) : (wary.drawnBy n).Finds "order" v.content .bus v m :=
    ⟨rfl, rfl, rfl⟩
  have hdefined (n : Nat) : (wary.drawnBy n).decoding.Defines m (.ok "") := .none (.inl rfl)
  have hdata (n : Nat) : (wary.drawnBy n).Encodes "order" (Json.content (.bool true)) .bus m
      (Utf8.ofString "\ntrue") := ⟨_, _, hfound n _, hdefined n, rfl⟩
  have hrefused : wary.ids.source wary.ids.drawn = .error (.identifier "id 1 refused") := rfl
  have htype : messageType "shop" "orders" 4 = "shop.orders.v4" := by decide
  refine ⟨?_, ?_, ?_⟩
  · exact ((publish_in_stages wary inFlow 0 "order" _).1 _ _).mpr
      ⟨.data, .data (hfound 0 _) (hdefined 0) rfl, rfl⟩
  · exact ((publish_in_stages wary inFlow 0 "order" _).1 _ _).mpr
      ⟨.identifier, .identifier (hdata 0) hrefused, rfl⟩
  · exact ⟨_, ((publish_in_stages (wary.drawnBy 1) inFlow 0 "order" _).2.1 _ _ _).mpr
      ⟨m, _, "m-2", hdata 1, rfl, rfl, rfl⟩, rfl, htype, rfl, rfl, rfl, rfl, rfl⟩

end Hub
end PubSub
