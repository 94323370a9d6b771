import PubSub.Catalogue
import PubSub.Proofs.Hub.Envelopes
import PubSub.Proofs.Registry.Index

/-!
# The schema of writing and the schema of reading

A hub writes the data of a message under the definition that the entry of
its key names, and the envelope repeats that name.  A reader does not look
at the envelope: it restores the data under the definition that the entry
of the stream names.  The two entries are the same unless several keys share
a stream.

* `Schemas.named` — the definition of a name, empty without one;
* `Codec.restoreUnder` — what becomes of data once its definition is known;
* `Registry.resolve_bound` — a bound stream leads to an entry;
* `Decoding.restore_resolved` — restoring by the entry of the stream;
* `Hub.schemas_agree` — when both definitions are the same;
* `Hub.schemas_agree_fails_shared` — two keys with different schemas on one
  stream.
-/

namespace PubSub

/-- The name and version of the definition for a stream. -/
def Metadata.definitionName? (m : Metadata) : Option (String × Nat) :=
  if m.schema = "" then none else some (m.schema, m.schemaVersion)

/-- The name and version of the definition that an envelope gives. -/
def Message.definitionName? (m : Message) : Option (String × Nat) :=
  m.schema.bind fun name => m.schemaVersion.map (name, ·)

/-- The definition of a name and version, empty without a name. -/
def Schemas.named (s : Schemas) : Option (String × Nat) → Except Error String
  | none => .ok ""
  | some (name, version) => s.get name version

/-- With schemas, metadata stands for the definition that it names. -/
theorem Decoding.definition_some (s : Schemas) (m : Metadata) :
    definition (some s) m = s.named m.definitionName? := by
  simp only [definition, Metadata.definitionName?]
  split <;> rfl

/-- An envelope names the definition that its metadata names. -/
theorem Hub.assemble_definitionName? {ω δ : Type} (h : Hub ω δ) (ctx : Context) (now : Nat)
    (m : Metadata) (data : Bytes) (id : String) (subject : Option String) :
    (h.assemble ctx now m data id subject).definitionName? = m.definitionName? := by
  by_cases hschema : m.schema = "" <;>
    simp [assemble, Message.compose, Message.definitionName?, Metadata.definitionName?, hschema]

/-- The message with the payload that its data gives under a definition. -/
def Codec.restoreUnder (c : Codec) (definition : String) (type : PayloadType) (message : Message) :
    Except Error Message := do
  let v ← (c.unmarshal definition message.data).mapError .codec
  let payload ← (type.restore v).mapError .ofMismatch
  .ok { message with decoded := some payload }

/-- Once the definition is known, none is missed. -/
theorem Codec.restoreUnder_ne_missing (c : Codec) (definition : String) (type : PayloadType)
    (message : Message) (name : String) (version : Nat) :
    c.restoreUnder definition type message ≠ .error (.missingSchema name version) := by
  unfold restoreUnder
  cases c.unmarshal definition message.data with
  | error e => simp [bind, Except.bind]
  | ok v =>
      cases hrestore : type.restore v with
      | error e => simp [hrestore, bind, Except.bind, Error.ofMismatch]
      | ok payload => simp [hrestore, bind, Except.bind]

namespace Decoding

variable {d : Decoding} {found : Metadata} {message : Message}

/-- Without a type, a message stays as it is. -/
theorem restore_untyped (hfound : d.registry.resolve message.stream = .ok found)
    (htype : found.type = none) : d.restore message = .ok message := by
  simp only [restore, hfound, htype]

/-- With a type, a message is restored under the definition that the entry
of its stream names. -/
theorem restore_resolved {type : PayloadType}
    (hfound : d.registry.resolve message.stream = .ok found) (htype : found.type = some type) :
    d.restore message =
      (definition d.schemas found).bind (d.codec.restoreUnder · type message) := by
  simp only [restore, hfound, htype, payload, Codec.restoreUnder, bind]
  cases definition d.schemas found with
  | error e => rfl
  | ok schema =>
      simp only [Except.bind]
      cases d.codec.unmarshal schema message.data with
      | error e => rfl
      | ok v => rfl

end Decoding

/-- The stream of an entry leads to an entry: that of the key of this name,
or that of a key which is bound to the stream. -/
theorem Registry.resolve_bound {history : List Registration} {key : String} {entry : Metadata}
    (hentry : latest history key = some entry) :
    ∃ through found, latest history through = some found ∧
      (through = entry.stream ∨
        (ofHistory history).FoundThrough entry.stream through ∧ found.stream = entry.stream) ∧
      (ofHistory history).resolve entry.stream = .ok found := by
  by_cases hname : entry.stream ∈ history.map Registration.key
  · obtain ⟨found, hlatest⟩ := Option.isSome_iff_exists.mp (latest_isSome_iff.mpr hname)
    exact ⟨entry.stream, found, hlatest, .inl rfl, by simp [resolve, entry?_ofHistory, hlatest]⟩
  · rcases resolve_of_noKey history hname with
      ⟨through, found, hthrough, hlatest, hstream, hresolve⟩ | ⟨hnone, -⟩
    · exact ⟨through, found, hlatest, .inr ⟨hthrough, hstream⟩, hresolve⟩
    · exact absurd rfl (hnone key entry hentry)

namespace Hub

variable {ω δ : Type}

/-- The stage that restores payloads in a node of the hub has what the hub
knows. -/
theorem decoding_of_fork {h : Hub ω δ} {stream handler : String} {options : ReaderOptions δ}
    {decoding : Decoding}
    (hstage : Stage.unmarshal decoding ∈ (h.fork stream handler options).target.stages) :
    decoding = h.decoding := by
  simp only [fork, Node.fork, List.mem_reverse, List.mem_map] at hstage
  obtain ⟨behavior, -, hready⟩ := hstage
  cases behavior <;> cases hready
  rfl

/-- **Messages are read under the schema they were written under, as long
as their stream has one schema**: the data of a message that was published
under a key is written under the definition that the entry of the key names,
and the envelope gives its name and version.  The stream of the message
leads to an entry, and a node of the hub, forked with the same streams,
restores the data under the definition which that entry names.  If it names
the one in the envelope, then the data is restored under the definition
under which it was written, and no definition is missing. -/
theorem schemas_agree {history : List Registration} {h : Hub ω δ} {schemas : Schemas}
    (hregistry : h.registry = Registry.ofHistory history) (hschemas : h.schemas = some schemas)
    {ctx : Context} {now : Nat} {key : String} {content : Content} {w : ω} {m : Message}
    (hmade : (h.publish ctx now key content).1 = .ok (w, m)) :
    ∃ entry json written, latest history key = some entry ∧ m.stream = entry.stream ∧
      content.json = .ok json ∧ h.codec.marshal written json = .ok m.data ∧
      m.definitionName? = entry.definitionName? ∧
      schemas.named m.definitionName? = .ok written ∧
      ∃ through found, latest history through = some found ∧
        (through = m.stream ∨
          h.registry.FoundThrough m.stream through ∧ found.stream = m.stream) ∧
        ∀ h' : Hub ω δ, h.Kept h' → h'.registry = h.registry →
          ∀ stream handler options decoding,
            Stage.unmarshal decoding ∈ (h'.fork stream handler options).target.stages →
            ∀ m' : Message, m'.stream = m.stream → m'.data = m.data →
              (found.type = none → decoding.restore m' = .ok m') ∧
              ∀ type, found.type = some type →
                decoding.restore m' =
                  (schemas.named found.definitionName?).bind (h.codec.restoreUnder · type m') ∧
                (found.definitionName? = m.definitionName? →
                  decoding.restore m' = h.codec.restoreUnder written type m' ∧
                  ∀ name version,
                    decoding.restore m' ≠ .error (.missingSchema name version)) := by
  obtain ⟨json, entry, data, id, hjson, hencode, rfl⟩ := publish_ok hmade
  obtain ⟨hget, written, hwritten, hmarshal⟩ := encode_ok hencode
  have hentry : latest history key = some entry := by
    rw [← Registry.entry?_ofHistory, ← hregistry]
    revert hget
    simp only [Registry.get]
    split
    · rintro ⟨⟩
      assumption
    · rintro ⟨⟩
  rw [hschemas, Decoding.definition_some] at hwritten
  -- the reader does not have the key, only the stream
  obtain ⟨through, found, hthrough, hhow, hfound⟩ := Registry.resolve_bound hentry
  rw [assemble_definitionName?]
  refine ⟨entry, json, written, hentry, rfl, hjson, hmarshal, rfl, hwritten, through, found,
    hthrough, by rw [hregistry]; exact hhow, ?_⟩
  intro h' hkept hsame stream handler options decoding hstage m' hstream hdata
  obtain rfl := decoding_of_fork hstage
  have hleads : h'.decoding.registry.resolve m'.stream = .ok found := by
    rw [hstream]
    exact (congrArg (·.resolve entry.stream) (hsame.trans hregistry)).trans hfound
  refine ⟨Decoding.restore_untyped hleads, fun type htype => ?_⟩
  have hrestore : h'.decoding.restore m' =
      (schemas.named found.definitionName?).bind (h.codec.restoreUnder · type m') := by
    rw [Decoding.restore_resolved hleads htype, ← Decoding.definition_some, ← hschemas,
      ← hkept.schemas, ← hkept.codec]
    rfl
  refine ⟨hrestore, fun hsame => ?_⟩
  rw [hrestore, hsame, hwritten]
  exact ⟨rfl, h.codec.restoreUnder_ne_missing written type m'⟩

/-- Orders have a stream, which a second key shares under a later version of
the schema. -/
def sharing : List Registration :=
  [.bind Catalogue.orderPlaced ⟨"orders", 0, "order", 1, none⟩,
    .set "orders.next" ⟨"orders", 0, "order", 2, none⟩]

/-- A hub with these streams, whose codec heeds schemas. -/
def sharingShop (schemas : Schemas) : Hub Unit Unit :=
  { (Hub.blank "shop" : Hub Unit Unit) with
    registry := Registry.ofHistory sharing
    writer := some ()
    codec := .headed
    ids := ⟨fun _ => .ok "m-1", 0⟩
    schemas := some schemas }

/-- The later version only. -/
def laterOnly : Schemas := (SchemaTable.empty.register "order" 2 "v2").schemas

/-- Both versions. -/
def bothVersions : Schemas :=
  ((SchemaTable.empty.register "order" 2 "v2").register "order" 1 "v1").schemas

/-- An order for five. -/
def sharedOrder : Content := Json.content (.obj [("order_id", .str "o-1"), ("total", .int 5)])

/-- The stream leads to the first key: what is published under that key is
read under its schema. -/
theorem schemas_agree_first :
    ∃ m, ((sharingShop bothVersions).publish ⟨[0], none, none, none⟩ 0 "orders.OrderPlaced"
        sharedOrder).1 = .ok ((), m) ∧
      (sharingShop bothVersions).decoding.restore m =
        Codec.headed.restoreUnder "v1" Catalogue.orderPlaced m := by
  refine ⟨_, rfl, ?_⟩
  obtain ⟨-, -, written, -, -, -, -, -, hwritten, through, found, hthrough, hhow, hrestore⟩ :=
    @schemas_agree _ _ sharing (sharingShop bothVersions) bothVersions rfl rfl
      ⟨[0], none, none, none⟩ 0 "orders.OrderPlaced" sharedOrder () _ rfl
  have hfirst : through = "orders.OrderPlaced" := by
    rcases hhow with rfl | ⟨hfound, -⟩
    · cases hthrough
    · exact (Option.some.inj hfound.row).symm
  subst hfirst
  cases hthrough
  cases hwritten
  have hstage : Stage.unmarshal (sharingShop bothVersions).decoding ∈
      ((sharingShop bothVersions).fork "orders" "bill" .unset).target.stages :=
    List.mem_reverse.mpr List.mem_cons_self
  exact (((hrestore _ (.refl _) rfl _ _ _ _ hstage _ rfl rfl).2 _ rfl).2 rfl).1

/-- What is published under the second key is not: the reader hands out the
definition of the first key, and fails. -/
theorem schemas_agree_fails_shared :
    let shop := sharingShop bothVersions
    let short := sharingShop laterOnly
    let ctx : Context := ⟨[0], none, none, none⟩
    ∃ m, (shop.publish ctx 0 "orders.next" sharedOrder).1 = .ok ((), m) ∧
      (short.publish ctx 0 "orders.next" sharedOrder).1 = .ok ((), m) ∧
      bothVersions.named m.definitionName? = .ok "v2" ∧
      (∃ decoding,
        Stage.unmarshal decoding ∈ (shop.fork "orders" "bill" .unset).target.stages ∧
        decoding.restore m = shop.codec.restoreUnder "v1" Catalogue.orderPlaced m ∧
        decoding.restore m = .error (.codec (.schemaMismatch "`v2` is not `v1`"))) ∧
      ∃ decoding,
        Stage.unmarshal decoding ∈ (short.fork "orders" "bill" .unset).target.stages ∧
        decoding.restore m = .error (.missingSchema "order" 1) := by
  intro shop short ctx
  refine ⟨_, rfl, rfl, rfl, ⟨shop.decoding, List.mem_reverse.mpr List.mem_cons_self, rfl, rfl⟩,
    ⟨short.decoding, List.mem_reverse.mpr List.mem_cons_self, rfl⟩⟩

end Hub
end PubSub
