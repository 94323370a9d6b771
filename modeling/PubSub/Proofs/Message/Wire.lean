import PubSub.Message.Wire
import PubSub.Proofs.Chain.Unsent
import PubSub.Proofs.Json.Record
import PubSub.Proofs.Text.Base64
import PubSub.Proofs.Time.Timestamp

/-!
# Messages on the wire, there and back

A written message is read back, but for the two fields that never travel.
And whatever text was read as a message, in any order of its members, with
blanks, escapes, other members or as an array: the message can be written, it
is read back from what is written, and its data stands there in the same
characters, because no data has two spellings in base64.

* `Writable` — the messages that can be;
* `ofWire_wire` — a written message;
* `ofWire_asRead` — whatever is read;
* `unopened`, `unopened_of_ofWire` — the data as it stands in the text;
* `wire_round_trip` — all of this together.
-/

namespace PubSub

namespace Message

open Json

/-- The bytes of the data's text are its symbols. -/
theorem ofString_dataText (m : Message) : Utf8.ofString m.dataText = Base64.encode m.data := by
  rw [Utf8.ofString, dataText, String.toList_ofList]
  exact Utf8.encode_ascii fun b => Base64.lt_of_mem_encode

/-- The data is read back from its text. -/
theorem reads_data (m : Message) : Reads readData (.str m.dataText) m.data := by
  intro rest hrest
  simp only [readData, reads_text m.dataText rest hrest, bind, Except.bind, ofString_dataText,
    Base64.decode_encode]

/-- The time is read back from its text. -/
theorem reads_time {t : Timestamp} (h : t.isValid = true) (hlow : 0 ≤ t.date.year)
    (hhigh : t.date.year ≤ 9999) : Reads readTime (.str t.write) t :=
  reads_textAs (by rw [Timestamp.read_write h hlow hhigh]; rfl)

/-- A message as it can be: versions fit 32 bits, and there is such a time. -/
structure Writable (m : Message) : Prop where
  version : m.streamVersion < 2 ^ 32
  schemaVersion : ∀ n ∈ m.schemaVersion, n < 2 ^ 32
  time : m.time.isValid = true

/-- The time of the message has a year of four digits. -/
def InYears (m : Message) : Prop := 0 ≤ m.time.date.year ∧ m.time.date.year ≤ 9999

/-- A member that may be left out: if it is, the draft stays as it was. -/
theorem fills_optional {α : Type} {draft : Message} (name : String) (json : α → Json)
    (value : Option α) {reader : Reader (Option α)} {set : Message → Option α → Message}
    (hslot : shape.slots.find? (·.name == name) = some (.of name false reader set))
    (hread : ∀ a ∈ value, Reads reader (json a) (some a)) (hnone : set draft none = draft) :
    Fills shape draft (optionalMember name json value) (set draft value) := by
  cases value with
  | none =>
      rw [hnone]
      exact .nil draft
  | some a => exact fills_one name (json a) hslot (hread a rfl)

/-- The members of a message bring the blank message to it. -/
theorem fills_members {m : Message} (h : m.Writable) (hyears : m.InYears) :
    Fills shape blank m.members m.onWire := by
  have hversion := reads_unsigned "u32" (show 32 ≤ 64 by omega) h.version
  have hfirst : Fills shape blank
      [("stream", .str m.stream), ("stream_version", .int m.streamVersion), ("id", .str m.id),
        ("source", .str m.source), ("specversion", .str m.specVersion), ("type", .str m.type),
        ("data", .str m.dataText)] _ :=
    .cons rfl (reads_slot (reads_text m.stream)) <|
    .cons rfl (reads_slot hversion) <|
    .cons rfl (reads_slot (reads_text m.id)) <|
    .cons rfl (reads_slot (reads_text m.source)) <|
    .cons rfl (reads_slot (reads_text m.specVersion)) <|
    .cons rfl (reads_slot (reads_text m.type)) <|
    .cons rfl (reads_slot (reads_data m)) <|
    .nil _
  have hcontentType := hfirst.append <|
    fills_optional "datacontenttype" Json.str m.contentType rfl (fun s _ => reads_optional_text s) rfl
  have hschema := hcontentType.append <|
    fills_optional "dataschema" Json.str m.schema rfl (fun s _ => reads_optional_text s) rfl
  have hschemaVersion := hschema.append <|
    fills_optional "dataschemaversion" (fun n : Nat => Json.int n) m.schemaVersion rfl
      (fun n hn => reads_optional_unsigned "u32" (show 32 ≤ 64 by omega)
        (h.schemaVersion n hn)) rfl
  have htime := hschemaVersion.append <|
    fills_one "time" (.str m.time.write) rfl (reads_time h.time hyears.1 hyears.2)
  have hsubject := htime.append <|
    fills_optional "subject" Json.str m.subject rfl (fun s _ => reads_optional_text s) rfl
  exact hsubject.append <|
    .cons rfl (reads_slot (reads_text m.correlationId)) <|
    .cons rfl (reads_slot (reads_text m.causationId)) <|
    .nil _

/-- The names of a member that may be left out. -/
theorem optionalMember_names {α : Type} (name : String) (json : α → Json) (value : Option α) :
    ((optionalMember name json value).map Prod.fst).Sublist [name] := by
  cases value with
  | none => exact List.nil_sublist _
  | some a => exact List.Sublist.refl _

/-- No name is written twice. -/
theorem members_nodup (m : Message) : (m.members.map Prod.fst).Nodup := by
  have hnames : (m.members.map Prod.fst).Sublist (shape.slots.map (·.name)) := by
    simp only [members, List.map_append]
    exact ((((((List.Sublist.refl _).append (optionalMember_names _ _ _)).append
      (optionalMember_names _ _ _)).append (optionalMember_names _ _ _)).append
      (List.Sublist.refl _)).append (optionalMember_names _ _ _)).append (List.Sublist.refl _)
  exact hnames.nodup (by decide)

/-- All that is required is written. -/
theorem required_written (m : Message) : ∀ slot ∈ shape.slots, slot.required = true →
    slot.name ∈ m.members.map Prod.fst := by
  simp [shape, members, Slot.of]

/-- **A written message is read back**, but for the fields that do not
travel. -/
theorem ofWire_wire {m : Message} (h : m.Writable) (hyears : m.InYears) :
    ofWire m.wire = .ok m.onWire :=
  recordOfText_write (fills_members h hyears) m.members_nodup m.required_written

/-- A message that was read: it can be, and has no field that does not
travel. -/
structure AsRead (m : Message) : Prop extends m.Writable where
  decoded : m.decoded = none
  group : m.group = none

/-- All of it travels. -/
theorem AsRead.onWire {m : Message} (h : m.AsRead) : m.onWire = m := by
  obtain ⟨_, hdecoded, hgroup⟩ := h
  cases m
  cases hdecoded
  cases hgroup
  rfl

/-- The blank message. -/
theorem asRead_blank : blank.AsRead :=
  ⟨⟨by decide, by simp [blank], by decide⟩, rfl, rfl⟩

/-- Most members can hold any value of their type. -/
theorem keeps_asRead {α : Type} {name : String} {required : Bool} {reader : Reader α}
    {set : Message → α → Message}
    (hset : ∀ m a, (set m a).streamVersion = m.streamVersion ∧
      (set m a).schemaVersion = m.schemaVersion ∧ (set m a).time = m.time ∧
      (set m a).decoded = m.decoded ∧ (set m a).group = m.group) :
    (Slot.of name required reader set).Keeps AsRead := by
  refine Slot.keeps_of fun {m a} _ _ hm _ => ?_
  obtain ⟨hversion, hschemaVersion, htime, hdecoded, hgroup⟩ := hset m a
  refine ⟨⟨?_, ?_, ?_⟩, ?_, ?_⟩
  · rw [hversion]
    exact hm.version
  · rw [hschemaVersion]
    exact hm.schemaVersion
  · rw [htime]
    exact hm.time
  · rw [hdecoded]
    exact hm.decoded
  · rw [hgroup]
    exact hm.group

/-- What is checked when it is read can be. -/
theorem slots_keep_asRead : ∀ slot ∈ shape.slots, slot.Keeps AsRead := by
  have hversion : (Slot.of "stream_version" true (readUnsigned "u32" 32)
      fun (m : Message) n => { m with streamVersion := n }).Keeps AsRead :=
    Slot.keeps_of fun hm hread => { hm with version := of_readUnsigned hread }
  have hschemaVersion : (Slot.of "dataschemaversion" false (readOptional (readUnsigned "u32" 32))
      fun (m : Message) n => { m with schemaVersion := n }).Keeps AsRead := by
    refine Slot.keeps_of fun {m value} _ _ hm hread => { hm with schemaVersion := ?_ }
    rintro n rfl
    obtain ⟨_, hnumber⟩ := of_readOptional hread
    exact of_readUnsigned hnumber
  have htime : (Slot.of "time" true readTime
      fun (m : Message) time => { m with time }).Keeps AsRead := by
    refine Slot.keeps_of fun {m t} _ _ hm hread => { hm with time := ?_ }
    obtain ⟨s, haccept⟩ := of_readTextAs hread
    cases hs : Timestamp.read s with
    | error flaw => rw [hs] at haccept; cases haccept
    | ok t' =>
        rw [hs] at haccept
        cases haccept
        exact Timestamp.read_valid hs
  simp only [shape, List.forall_mem_cons]
  refine ⟨?_, hversion, ?_, ?_, ?_, ?_, ?_, ?_, ?_, hschemaVersion, htime, ?_, ?_, ?_, by simp⟩
  all_goals exact keeps_asRead fun _ _ => ⟨rfl, rfl, rfl, rfl, rfl⟩

/-- **A message that was read is one that can be**, and all of it travels. -/
theorem ofWire_asRead {text : String} {m : Message} (h : ofWire text = .ok m) : m.AsRead :=
  recordOfText_keeps asRead_blank slots_keep_asRead h

/-- The message without its data. -/
def withoutData (m : Message) : Message := { m with data := [] }

/-- A slot of a message that is read beside its data: the data is left
unopened, as the string that it is in the text. -/
def unopen (slot : Slot Message) : Slot (Message × String) :=
  if slot.name = "data" then .of "data" true readText fun (m, _) s => (m, s) else slot.beside

/-- The members of a message whose data is left unopened. -/
def unopened : Shape (Message × String) where
  name := shape.name
  blank := (blank, "")
  slots := shape.slots.map unopen

/-- The message, without its data, and the string that holds it. -/
def Unopened (m : Message) (read : Message × String) : Prop :=
  read.1 = m.withoutData ∧ Utf8.ofString read.2 = Base64.encode m.data

/-- Members other than the data are read as they are. -/
theorem matches_unopen {α : Type} {name : String} {required : Bool} {reader : Reader α}
    {set : Message → α → Message} (hname : name ≠ "data")
    (hset : ∀ m a, (set m a).data = m.data ∧
      set m.withoutData a = (set m a).withoutData) :
    Slot.Matches Unopened (.of name required reader set)
      (unopen (.of name required reader set)) := by
  have hbeside : unopen (.of name required reader set) = .beside (.of name required reader set) :=
    if_neg hname
  rw [hbeside]
  refine ⟨rfl, rfl, ?_⟩
  rintro m ⟨m', s⟩ bs rest next ⟨rfl, hs⟩ hread
  obtain ⟨⟨a, after⟩, hvalue, hnext⟩ := of_bind_ok hread
  cases hnext
  refine ⟨(set m.withoutData a, s), ?_, (hset m a).2, ?_⟩
  · simp only [Slot.beside, Slot.of, hvalue, bind, Except.bind]
  · rw [(hset m a).1]
    exact hs

/-- Data is opened only if its string is what the data would be written as. -/
theorem matches_data {set : Message → Bytes → Message}
    (hset : ∀ m data, (set m data).data = data ∧
      (set m data).withoutData = m.withoutData) :
    Slot.Matches Unopened (.of "data" true readData set) (unopen (.of "data" true readData set)) := by
  have hleft : unopen (.of "data" true readData set) =
      .of "data" true readText fun (m, _) s => (m, s) := if_pos rfl
  rw [hleft]
  refine ⟨rfl, rfl, ?_⟩
  rintro m ⟨m', s⟩ bs rest next ⟨rfl, -⟩ hread
  obtain ⟨⟨data, after⟩, hvalue, hnext⟩ := of_bind_ok hread
  cases hnext
  obtain ⟨⟨text, after'⟩, htext, hdecode⟩ := of_bind_ok hvalue
  dsimp only at hdecode
  split at hdecode
  · rename_i hdecoded
    cases hdecode
    refine ⟨(m.withoutData, text), ?_, (hset m data).2.symm, ?_⟩
    · simp only [Slot.of, htext, bind, Except.bind]
    · rw [(hset m data).1]
      exact Base64.eq_encode_of_decode hdecoded
  · cases hdecode

/-- **The data stands in the text as it would be written.** -/
theorem unopened_of_ofWire {text : String} {m : Message} (h : ofWire text = .ok m) :
    recordOfText unopened text = .ok (m.withoutData, m.dataText) := by
  have hslots : List.Forall₂ (Slot.Matches Unopened) shape.slots unopened.slots := by
    rw [unopened, List.forall₂_map_right_iff, List.forall₂_same]
    simp only [shape, List.forall_mem_cons]
    refine ⟨?_, ?_, ?_, ?_, ?_, ?_, matches_data fun _ _ => ⟨rfl, rfl⟩, ?_, ?_, ?_, ?_, ?_, ?_,
      ?_, by simp⟩
    all_goals exact matches_unopen (by decide) fun _ _ => ⟨rfl, rfl⟩
  obtain ⟨⟨m', s⟩, hread, rfl, hs⟩ := recordOfText_matches hslots ⟨rfl, rfl⟩ h
  rw [← ofString_dataText] at hs
  obtain rfl := Utf8.ofString_inj hs
  exact hread

/-- **Messages on the wire, there and back.**  A message that can be, with a
year of four digits, is always read back from what is written, but for the two
fields that do not travel.  And whatever text was read as such a message: what
is written of it is read as the same message again, and its data stands in
the text in the same characters as in what is written, which are its bytes in
base64 and nothing else. -/
theorem wire_round_trip :
    (∀ m : Message, m.Writable → m.InYears →
      ofWire m.wire = .ok { m with decoded := none, group := none }) ∧
    ∀ (text : String) (m : Message), ofWire text = .ok m → m.InYears →
      ofWire m.wire = .ok m ∧
        ∃ data, recordOfText unopened text = .ok (m.withoutData, data) ∧
          recordOfText unopened m.wire = .ok (m.withoutData, data) ∧
          Utf8.ofString data = Base64.encode m.data := by
  refine ⟨fun m h hyears => ofWire_wire h hyears, ?_⟩
  intro text m hread hyears
  have hm := ofWire_asRead hread
  have hback : ofWire m.wire = .ok m := by
    rw [ofWire_wire hm.toWritable hyears, hm.onWire]
  exact ⟨hback, m.dataText, unopened_of_ofWire hread, unopened_of_ofWire hback,
    ofString_dataText m⟩

/-- A message with two bytes of data, half a second after the last midnight of a
leap February. -/
def leapNight : Message where
  stream := "orders"
  streamVersion := 2
  id := "e1"
  source := "shop"
  specVersion := "1.0"
  type := "shop.orders.v2"
  data := [0xFB, 0x02]
  contentType := none
  schema := some "null or \"7\"\n"
  schemaVersion := some 7
  time := ⟨⟨2024, 2, 29⟩, 0, 0, 0, 500000000⟩
  subject := none
  correlationId := "c"
  causationId := "e0"
  decoded := none
  group := some "billing"

/-- The same members the other way round. -/
def leapNightReversed : String := (Json.obj leapNight.members.reverse).text

/-- A message is read back from its members in either order, and its data is
the same string in both texts. -/
theorem wire_round_trip_reversed :
    leapNight.Writable ∧ leapNight.InYears ∧
      ofWire leapNight.wire = .ok { leapNight with decoded := none, group := none } ∧
      ofWire leapNightReversed = .ok leapNight.onWire ∧
      ofWire leapNight.onWire.wire = .ok leapNight.onWire ∧
      ∃ data, recordOfText unopened leapNightReversed = .ok (leapNight.onWire.withoutData, data) ∧
        recordOfText unopened leapNight.onWire.wire = .ok (leapNight.onWire.withoutData, data) ∧
        Utf8.ofString data = Base64.encode [0xFB, 0x02] := by
  have hwritable : leapNight.Writable := ⟨by decide, by simp [leapNight], by decide⟩
  have hyears : leapNight.InYears := ⟨by decide, by decide⟩
  have hfills : Fills shape blank leapNight.members.reverse leapNight.onWire :=
    .cons rfl (reads_slot (reads_text "e0")) <|
    .cons rfl (reads_slot (reads_text "c")) <|
    .cons rfl (reads_slot (reads_time hwritable.time hyears.1 hyears.2)) <|
    .cons rfl (reads_slot (reads_optional_unsigned "u32" (show 32 ≤ 64 by omega)
      (show 7 < 2 ^ 32 by omega))) <|
    .cons rfl (reads_slot (reads_optional_text _)) <|
    .cons rfl (reads_slot (reads_data leapNight)) <|
    .cons rfl (reads_slot (reads_text "shop.orders.v2")) <|
    .cons rfl (reads_slot (reads_text "1.0")) <|
    .cons rfl (reads_slot (reads_text "shop")) <|
    .cons rfl (reads_slot (reads_text "e1")) <|
    .cons rfl (reads_slot (reads_unsigned "u32" (show 32 ≤ 64 by omega) hwritable.version)) <|
    .cons rfl (reads_slot (reads_text "orders")) <|
    .nil _
  have hread : ofWire leapNightReversed = .ok leapNight.onWire := by
    refine recordOfText_write hfills ?_ ?_
    · rw [List.map_reverse]
      exact (List.reverse_perm _).nodup_iff.mpr leapNight.members_nodup
    · intro slot hslot hrequired
      rw [List.map_reverse, List.mem_reverse]
      exact leapNight.required_written slot hslot hrequired
  obtain ⟨hwritten, hother⟩ := wire_round_trip
  obtain ⟨hback, hdata⟩ := hother leapNightReversed leapNight.onWire hread hyears
  exact ⟨hwritable, hyears, hwritten leapNight hwritable hyears, hread, hback, hdata⟩

end Message
end PubSub
