import PubSub.Catalogue
import PubSub.Proofs.Json.RoundTrip
import PubSub.Proofs.Registry
import PubSub.Proofs.Site.Attempts

/-!
# From a publication to a handler

A payload is written under the key of its type, and restored under the
name of its stream, as the reader knew it when it was registered.  When
both lead to the same entry, the payload that arrives is the one that was
published, in every attempt.

* `Payload.Exact` — a payload that its JSON text can be read back as;
* `Deed.Rebinds`, `Site.run_get` — the entry of a key through a run;
* `Decoding.restore_exact` — restoring what was written;
* `Message.Bears` — what stages know of the payload;
* `Site.round_trip_run` — the way of a payload.
-/

namespace PubSub

/-- The type writes the payload as a JSON value and restores it from that
value, which is no floating number, contains none, and is not nested too
deep. -/
structure Payload.Exact (p : Payload) (v : Json) : Prop where
  written : p.json = .ok v
  restored : p.type.restore v = .ok p
  plain : v.Every Json.Plain
  nested : v.nesting ≤ Json.nestingLimit

/-- The data of such a payload is restored to it. -/
theorem Decoding.restore_exact {decoding : Decoding} {p : Payload} {v : Json} {m : Metadata}
    {schema : String} {message : Message} (hp : p.Exact v)
    (hresolve : decoding.registry.resolve message.stream = .ok m) (htype : m.type = some p.type)
    (hschema : definition decoding.schemas m = .ok schema) (hcodec : decoding.codec = .json)
    (hdata : message.data = v.bytes) :
    decoding.restore message = .ok { message with decoded := some p } := by
  have hunmarshal : decoding.codec.unmarshal schema message.data = .ok v := by
    rw [hcodec, hdata]
    change (Json.parse v.bytes).mapError CodecError.json = .ok v
    rw [Json.parse_bytes hp.plain hp.nested]
    rfl
  have hpayload : decoding.payload m p.type message.data = .ok p := by
    simp [payload, hschema, hunmarshal, hp.restored, bind, Except.bind]
  simp only [restore, hresolve, htype, hpayload, bind, Except.bind]

/-- The arrival has the stream, the data and the subject of the message,
and the payload, unless a stage is still to restore it; and whatever stage
restores it makes it this payload. -/
structure Message.Bears (m : Message) (p : Payload) (stages : List Stage) (a : Arrival) :
    Prop where
  stream : a.message.stream = m.stream
  data : a.message.data = m.data
  subject : a.message.subject = m.subject
  restores : ∀ decoding, .unmarshal decoding ∈ stages → ∀ m' : Message,
    m'.stream = m.stream → m'.data = m.data →
      decoding.restore m' = .ok { m' with decoded := some p }
  decoded : (∃ decoding, .unmarshal decoding ∈ stages) ∨ a.message.decoded = some p

namespace Message

variable {m : Message} {p : Payload} {stage : Stage} {stages : List Stage} {a : Arrival}

/-- A stage that restores nothing leaves the rest to the others. -/
theorem Bears.tail (h : m.Bears p (stage :: stages) a)
    (hstage : ∀ decoding, stage ≠ .unmarshal decoding) : m.Bears p stages a where
  stream := h.stream
  data := h.data
  subject := h.subject
  restores decoding hmem := h.restores decoding (List.mem_cons_of_mem _ hmem)
  decoded := by
    refine h.decoded.imp_left ?_
    rintro ⟨decoding, hmem⟩
    rcases List.mem_cons.mp hmem with heq | hmem
    · exact absurd heq.symm (hstage decoding)
    · exact ⟨decoding, hmem⟩

/-- The payload is borne from stage to stage. -/
theorem bears_inherited (m : Message) (p : Payload) : Inherited (m.Bears p) where
  unmarshal := by
    intro decoding stages a message h hrestore
    rw [h.restores decoding List.mem_cons_self a.message h.stream h.data] at hrestore
    cases hrestore
    exact ⟨h.stream, h.data, h.subject,
      fun decoding hmem => h.restores decoding (List.mem_cons_of_mem _ hmem), .inr rfl⟩
  group := by
    intro name stages a h
    have hrest := h.tail nofun
    unfold Arrival.inGroup
    split
    · exact hrest
    · exact ⟨hrest.stream, hrest.data, hrest.subject, hrest.restores, hrest.decoded⟩
  correlation := by
    intro stages a h
    have hrest := h.tail nofun
    exact ⟨hrest.stream, hrest.data, hrest.subject, hrest.restores, hrest.decoded⟩
  retry := fun h => h.tail nofun
  logging := fun h => h.tail nofun
  tag := fun h => h.tail nofun

/-- The arrival bears the payload, if the invocation is one of this task
for this message. -/
def BearsFor (m : Message) (p : Payload) (task : Task) (i : Invocation) (stages : List Stage)
    (a : Arrival) : Prop :=
  i.task = task ∧ i.message = m → m.Bears p stages a

/-- It is borne by every invocation. -/
theorem bearsFor_inherited (m : Message) (p : Payload) (task : Task) (i : Invocation) :
    Inherited (m.BearsFor p task i) :=
  (m.bears_inherited p).of_imp

end Message

/-- The deed binds the key. -/
def Deed.Rebinds (key : String) : Deed → Prop
  | .setStream type _ => type.key = key
  | .setStreamByKey other _ => other = key
  | _ => False

namespace Site

variable {s : Site} {deeds : List Deed} {deed : Deed} {key : String}

/-- Only binding a key changes its entry. -/
theorem apply_get (h : ¬ deed.Rebinds key) :
    (s.apply deed).hub.registry.get key = s.hub.registry.get key := by
  have hsend : ∀ author press, Press.Faithful press →
      (s.send author press).hub.registry = s.hub.registry := by
    intro author press hpress
    have hsent : s.Sent (s.send author press) := send_sent hpress
    obtain ⟨ids, hids⟩ := hsent.hub
    rw [hids]
  cases deed with
  | bus move =>
      simp only [apply]
      split <;> rfl
  | setStream type m =>
      have hne : ¬ key = type.key := fun heq => h heq.symm
      change (s.hub.registry.set type.key _).get key = _
      rw [Registry.get_set, if_neg hne]
  | setStreamByKey other m =>
      have hne : ¬ key = other := fun heq => h heq.symm
      change (s.hub.registry.set other m).get key = _
      rw [Registry.get_set, if_neg hne]
  | read other handler options =>
      simp only [apply]
      split
      · rename_i hub notes hread
        obtain ⟨m, -, rfl⟩ := Hub.read_ok hread
        rfl
      · rfl
  | launch => rfl
  | publish author other content => exact congrArg (·.get key) (hsend _ _ (single_faithful _ _))
  | publishBatch author items => exact congrArg (·.get key) (hsend _ _ (batch_faithful _))
  | turn id pace reply cancels =>
      simp only [apply]
      split
      · rw [turn_turned.hub]
      · rfl

/-- The entry of a key that is not bound again stays. -/
theorem run_get (h : ∀ deed ∈ deeds, ¬ deed.Rebinds key) :
    (s.run deeds).hub.registry.get key = s.hub.registry.get key := by
  induction deeds generalizing s with
  | nil => rfl
  | cons deed deeds ih =>
      rw [List.forall_mem_cons] at h
      exact (ih (s := s.apply deed) h.2).trans (apply_get h.1)

variable {hub : Hub Unit Unit} {config : BusConfig} {tokens : Tokens} {m : Metadata}
  {handler : String} {options : ReaderOptions Unit} {author : Author} {p : Payload} {v : Json}
  {n : Node Unit} {publication : Publication}

/-- The states of all runs of a hub on its bus. -/
def Reachable (hub : Hub Unit Unit) (config : BusConfig) (tokens : Tokens) (s : Site) : Prop :=
  ∃ deeds, (initial hub config tokens).run deeds = s

/-- The deeds come to this one in the state `t`. -/
def Comes (s : Site) (deeds : List Deed) (t : Site) (deed : Deed) : Prop :=
  ∃ earlier later, deeds = earlier ++ deed :: later ∧ s.run earlier = t

/-- A state that the deeds come to has the hub's codec, schemas and
behaviors, and the entry of a key that is not bound again. -/
theorem Comes.kept {t : Site} (h : s.Comes deeds t deed)
    (hkept : ∀ deed ∈ deeds, ¬ deed.Rebinds key) :
    s.hub.Kept t.hub ∧ t.hub.registry.get key = s.hub.registry.get key := by
  obtain ⟨earlier, later, rfl, rfl⟩ := h
  exact ⟨s.run_kept earlier, run_get fun deed hmem =>
    hkept deed (List.mem_append_left _ hmem)⟩

/-- The node that reading registers is a fork for the stream of the key. -/
theorem read_node (hget : s.hub.registry.get key = .ok m)
    (hnode : (s.apply (.read key handler options)).hub.nodes = s.hub.nodes ++ [n]) :
    n = s.hub.fork m.stream handler options := by
  simp only [apply] at hnode
  split at hnode
  · rename_i hub notes hread
    obtain ⟨m', hget', rfl⟩ := Hub.read_ok hread
    rw [hget] at hget'
    cases hget'
    have hnew := List.append_cancel_left hnode
    split at hnew
    · cases hnew
    · cases hnew
      rfl
  · simp at hnode

/-- The publication that publishing adds has the message that the hub
makes. -/
theorem publish_publication {content : Content}
    (hpublication : (s.apply (.publish author key content)).publications =
      s.publications ++ [publication]) :
    ∃ now, (s.hub.publish publication.ctx now key content).1 = .ok ((), publication.message) := by
  simp only [apply, send] at hpublication
  split at hpublication
  · simp at hpublication
  · rename_i attempt ctx ambient hstance
    split at hpublication
    · simp at hpublication
    · rename_i messages hub hmade
      have hnew := List.append_cancel_left hpublication
      have hsingle : (single key content s.hub ctx ambient.now).1 = .ok messages :=
        congrArg Prod.fst hmade
      cases hpublish : (s.hub.publish ctx ambient.now key content).1 with
      | error e => simp [single, hpublish, Except.map] at hsingle
      | ok made =>
          simp only [single, hpublish, Except.map, Except.ok.injEq] at hsingle
          rw [← hsingle] at hnew
          cases hnew
          exact ⟨ambient.now, hpublish⟩

/-- The message of an exact payload: its stream, data and subject, and the
schema that was found for it. -/
theorem publish_exact {w : Unit} {message : Message} {ctx : Context} {now : Nat}
    (hcodec : hub.codec = .json) (hget : hub.registry.get key = .ok m) (hp : p.Exact v)
    (hmade : (hub.publish ctx now key p.content).1 = .ok (w, message)) :
    message.stream = m.stream ∧ message.data = v.bytes ∧
      message.subject = p.type.subject p.value ∧
      ∃ schema, Decoding.definition hub.schemas m = .ok schema := by
  obtain ⟨json, entry, data, id, hjson, hencode, rfl⟩ := Hub.publish_ok hmade
  obtain ⟨hget', schema, hschema, hmarshal⟩ := Hub.encode_ok hencode
  rw [hget] at hget'
  cases hget'
  change p.json = .ok json at hjson
  rw [hp.written] at hjson
  cases hjson
  rw [hcodec] at hmarshal
  cases hmarshal
  exact ⟨rfl, rfl, rfl, schema, hschema⟩

/-- A node that was forked for a stream whose name leads to the entry of
the payload's type bears the payload from its first stage on. -/
theorem fork_bears {message : Message} {schema : String} (hp : p.Exact v)
    (hcodec : s.hub.codec = .json) (hbehaviors : .unmarshal ∈ s.hub.behaviors)
    (hresolve : s.hub.registry.resolve message.stream = .ok m) (htype : m.type = some p.type)
    (hschema : Decoding.definition s.hub.schemas m = .ok schema)
    (hdata : message.data = v.bytes) (stream : String) (ctx : Context) :
    message.Bears p (s.hub.fork stream handler options).target.stages ⟨ctx, message⟩ where
  stream := rfl
  data := rfl
  subject := rfl
  restores := by
    intro decoding hmem m' hstream' hdata'
    obtain ⟨behavior, -, hready⟩ := List.mem_map.mp (List.mem_reverse.mp hmem)
    cases behavior with
    | unmarshal =>
        cases hready
        exact Decoding.restore_exact hp (hstream' ▸ hresolve) htype hschema hcodec
          (hdata'.trans hdata)
    | _ => cases hready
  decoded := .inl ⟨s.hub.decoding,
    List.mem_reverse.mpr (List.mem_map.mpr ⟨.unmarshal, hbehaviors, rfl⟩)⟩

/-- When the stages of a task bear the payload of a message, every attempt
of the task at the message reaches the handler with it. -/
theorem run_bears {task : Task} {message : Message}
    (hbears : ∀ ctx, message.Bears p task.target.stages ⟨ctx, message⟩) :
    ∀ a ∈ ((initial hub config tokens).run deeds).attempts,
      a.invocation.task = task → a.invocation.message = message →
        ∃ arrival frames, a.upshot = .handling arrival frames ∧ message.Bears p [] arrival := by
  have hstart : ∀ i : Invocation,
      message.BearsFor p task i i.task.target.stages ⟨i.ctx, i.message⟩ := by
    rintro i ⟨htask, hmessage⟩
    rw [htask, hmessage]
    exact hbears i.ctx
  have hfollows : ((initial hub config tokens).run deeds).Follows (message.BearsFor p task) :=
    (Follows.initial hub config tokens).run (message.bearsFor_inherited p task) hstart deeds
  intro a ha htask hmessage
  have hrestores : ∀ {decoding stages arrival},
      message.BearsFor p task a.invocation (.unmarshal decoding :: stages) arrival →
        ∃ message, decoding.restore arrival.message = .ok message := by
    intro decoding stages arrival h
    have hb := h ⟨htask, hmessage⟩
    exact ⟨_, hb.restores decoding List.mem_cons_self arrival.message hb.stream hb.data⟩
  obtain ⟨arrival, frames, hupshot, harrival⟩ :=
    (hfollows.attempts a ha).handling (message.bearsFor_inherited p task a.invocation) hrestores
  exact ⟨arrival, frames, hupshot, harrival ⟨htask, hmessage⟩⟩

/-- **What is published is what arrives.**  A hub that writes JSON and
restores payloads binds the type of a payload to a stream, and does not
bind its key again.  Later it registers a reader under the key, when the
name of the stream leads to the same entry, and at some time it publishes
the payload.  Then every attempt of the reader at the message reaches the
handler, with this payload, the stream, the payload's subject and its JSON
text. -/
theorem round_trip_run {atRead atWrite : Site} (hreach : Reachable hub config tokens s)
    (hcodec : hub.codec = .json) (hbehaviors : .unmarshal ∈ hub.behaviors) (hp : p.Exact v)
    (hkept : ∀ deed ∈ deeds, ¬ deed.Rebinds p.type.key)
    (hread : (s.apply (.setStream p.type m)).Comes deeds atRead
      (.read p.type.key handler options))
    (hresolve : atRead.hub.registry.resolve m.stream = .ok { m with type := some p.type })
    (hnode : (atRead.apply (.read p.type.key handler options)).hub.nodes =
      atRead.hub.nodes ++ [n])
    (hwrite : (s.apply (.setStream p.type m)).Comes deeds atWrite
      (.publish author p.type.key p.content))
    (hpublication : (atWrite.apply (.publish author p.type.key p.content)).publications =
      atWrite.publications ++ [publication]) :
    ∀ a ∈ ((s.apply (.setStream p.type m)).run deeds).attempts,
      a.invocation.task = n.task → a.invocation.message = publication.message →
        ∃ arrival frames, a.upshot = .handling arrival frames ∧
          arrival.message.decoded = some p ∧ arrival.message.stream = m.stream ∧
          arrival.message.subject = p.type.subject p.value ∧ arrival.message.data = v.bytes := by
  obtain ⟨earlier, rfl⟩ := hreach
  let bound := ((initial hub config tokens).run earlier).apply (.setStream p.type m)
  have hentry : bound.hub.registry.get p.type.key = .ok { m with type := some p.type } := by
    change (Registry.set _ p.type.key _).get p.type.key = _
    rw [Registry.get_set, if_pos rfl]
  have hhub : hub.Kept bound.hub :=
    (run_kept (initial hub config tokens) earlier).trans
      (apply_step _ (.setStream p.type m)).kept
  obtain ⟨hhubRead, hgetRead⟩ := hread.kept hkept
  obtain ⟨hhubWrite, hgetWrite⟩ := hwrite.kept hkept
  -- what was published, and the schema that was found for it
  obtain ⟨now, hmade⟩ := publish_publication hpublication
  obtain ⟨hstream, hdata, hsubject, schema, hschema⟩ := publish_exact
    (((hhub.trans hhubWrite).codec).trans hcodec) (hgetWrite.trans hentry) hp hmade
  -- the reader found the same schema, since both are the hub's
  have hschemaRead : Decoding.definition atRead.hub.schemas { m with type := some p.type } =
      .ok schema := by
    rw [hhubRead.schemas, ← hhubWrite.schemas]
    exact hschema
  have hforked := read_node (hgetRead.trans hentry) hnode
  have hbears : ∀ ctx, publication.message.Bears p n.target.stages ⟨ctx, publication.message⟩ := by
    intro ctx
    rw [hforked]
    exact fork_bears hp (((hhub.trans hhubRead).codec).trans hcodec)
      ((hhub.trans hhubRead).behaviors ▸ hbehaviors) (hstream ▸ hresolve) rfl hschemaRead hdata
      m.stream ctx
  have hwhole : bound.run deeds =
      (initial hub config tokens).run (earlier ++ .setStream p.type m :: deeds) := by
    rw [run_append]
    rfl
  intro a ha htask hmessage
  rw [hwhole] at ha
  obtain ⟨arrival, frames, hupshot, hb⟩ := run_bears hbears a ha htask hmessage
  refine ⟨arrival, frames, hupshot, ?_, hb.stream.trans hstream, hb.subject.trans hsubject,
    hb.data.trans hdata⟩
  rcases hb.decoded with ⟨decoding, hmem⟩ | hdecoded
  · cases hmem
  · exact hdecoded

/-- A hub that writes to its bus and reads from it. -/
def shop : Hub Unit Unit :=
  { (Hub.blank "shop" : Hub Unit Unit) with
    writer := some ()
    readerDriver := some ()
    ids := ⟨fun _ => .ok "m-1", 0⟩ }

/-- An order for three. -/
def placedOrder : Payload :=
  ⟨Catalogue.orderPlaced, .obj [("order_id", .str "o-1"), ("total", .int 3)]⟩

/-- The hub on a bus, once orders have a stream. -/
def openShop : Site :=
  (initial shop ⟨8, 2⟩ ⟨2, []⟩).apply (.setStream Catalogue.orderPlaced (.ofStream "orders"))

/-- A reader is registered and started, and the order is published and
delivered. -/
def orderDeeds : List Deed :=
  [.read "orders.OrderPlaced" "bill" .unset, .launch, .bus (.start ⟨[0], none, none, none⟩),
    .publish (.outside ⟨[1], none, none, none⟩) "orders.OrderPlaced" placedOrder.content,
    .bus (.call 0), .bus .dispatcher, .bus .dispatcher, .turn 0 (fun _ _ _ => 0) .pending false]

/-- The order arrives. -/
theorem round_trip_run_order :
    ∃ a arrival frames, (openShop.run orderDeeds).attempts = [a] ∧
      a.upshot = .handling arrival frames ∧ arrival.message.decoded = some placedOrder := by
  have hreach : Reachable shop ⟨8, 2⟩ ⟨2, []⟩ (initial shop ⟨8, 2⟩ ⟨2, []⟩) := ⟨[], rfl⟩
  have hexact : placedOrder.Exact placedOrder.value :=
    { written := rfl
      restored := rfl
      plain := ⟨⟨by decide, trivial⟩, ⟨trivial, trivial⟩, ⟨by decide, trivial⟩, trivial⟩
      nested := by decide }
  have hkept : ∀ deed ∈ orderDeeds, ¬ deed.Rebinds placedOrder.type.key := by
    simp [orderDeeds, Deed.Rebinds]
  have hread : openShop.Comes orderDeeds openShop
      (.read placedOrder.type.key "bill" .unset) := ⟨[], _, rfl, rfl⟩
  have hwrite : openShop.Comes orderDeeds (openShop.run (orderDeeds.take 3))
      (.publish (.outside ⟨[1], none, none, none⟩) placedOrder.type.key placedOrder.content) :=
    ⟨orderDeeds.take 3, _, rfl, rfl⟩
  obtain ⟨publication, hpublication, a, hattempts, htask, hmessage⟩ :
      ∃ publication, ((openShop.run (orderDeeds.take 3)).apply (.publish
          (.outside ⟨[1], none, none, none⟩) placedOrder.type.key
          placedOrder.content)).publications =
        (openShop.run (orderDeeds.take 3)).publications ++ [publication] ∧
      ∃ a, (openShop.run orderDeeds).attempts = [a] ∧
        a.invocation.task = (openShop.hub.fork "orders" "bill" .unset).task ∧
        a.invocation.message = publication.message :=
    ⟨_, rfl, _, rfl, rfl, rfl⟩
  have hmem : a ∈ (openShop.run orderDeeds).attempts := by simp [hattempts]
  obtain ⟨arrival, frames, hupshot, hdecoded, -⟩ :=
    round_trip_run hreach rfl (by decide) hexact hkept hread rfl rfl hwrite hpublication a hmem
      htask hmessage
  exact ⟨a, arrival, frames, hattempts, hupshot, hdecoded⟩

end Site
end PubSub
