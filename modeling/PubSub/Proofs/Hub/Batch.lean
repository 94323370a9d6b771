import PubSub.Proofs.Hub.Envelopes
import PubSub.Scenario.Program

/-!
# Batches and single publications

A batch makes the messages that its items would make one by one, each on
the identifiers that are left by then, and asks its writer for all of
them at once.  Where an item would be refused, so is the batch, with the
same error; the items after it are not looked at, and no writer is asked.

* `Hub.drawnBy` — a hub after some draws of identifiers;
* `Hub.OneByOne` — items that are published one after the other;
* `Hub.Refuses`, `Hub.publishItem_cases` — why an item is not published, and
  what that costs;
* `Hub.oneByOne_cases` — all are published, or all before one that is refused;
* `publishBatch_ok_iff`, `publishBatch_error_iff` — what becomes of a batch;
* `Hub.publishBatch_agrees` — the law, with what the writer is asked.
-/

namespace PubSub
namespace Hub

variable {ω δ : Type} {h h' : Hub ω δ} {w : ω} {ctx : Context} {now : Nat} {item : Item}
  {items : List Item} {message : Message} {messages : List Message} {e : Error}

/-- What an item publishes. -/
def Item.content (item : Item) : Content := ⟨.ok item.json, item.subject⟩

/-- Publish an item on its own, under its key. -/
def publishItem (h : Hub ω δ) (ctx : Context) (now : Nat) (item : Item) :
    Except Error (ω × Message) × Hub ω δ :=
  h.publish ctx now item.key item.content

/-- The hub after so many more draws of identifiers. -/
def drawnBy (h : Hub ω δ) (n : Nat) : Hub ω δ :=
  { h with ids := { h.ids with drawn := h.ids.drawn + n } }

theorem drawnBy_drawnBy (h : Hub ω δ) (m n : Nat) :
    (h.drawnBy m).drawnBy n = h.drawnBy (m + n) := by
  simp [drawnBy, Nat.add_assoc]

/-- A hub with a writer publishes an item as soon as it has the envelope. -/
theorem publishItem_eq (hw : h.writer = some w) :
    h.publishItem ctx now item =
      ((h.envelope ctx now item).1.map (w, ·), (h.envelope ctx now item).2) := by
  have hitem : Item.of item.key item.content = .ok item := rfl
  simp only [publishItem, publish, getWriter, hw, hitem]

/-- Why a hub does not publish an item, and how many identifiers that uses
up: its data cannot be found, or the next identifier is refused. -/
inductive Refuses (h : Hub ω δ) (item : Item) : Error → Nat → Prop
  | unready {e : Error} (hencode : h.encode item.key item.json = .error e) : Refuses h item e 0
  | unnamed {e : Error} {made : Metadata × Bytes}
      (hencode : h.encode item.key item.json = .ok made)
      (hid : h.ids.source h.ids.drawn = .error e) : Refuses h item e 1

/-- No envelope is made of an item that is refused. -/
theorem Refuses.envelope {spent : Nat} (hwhy : h.Refuses item e spent) (ctx : Context) (now : Nat) :
    h.envelope ctx now item = (.error e, h.drawnBy spent) := by
  cases hwhy with
  | unready hencode =>
      simp only [Hub.envelope, hencode]
      rfl
  | unnamed hencode hid =>
      simp only [Hub.envelope, hencode, Ids.draw, hid]
      rfl

/-- An envelope is made with one draw, or there is a reason why not. -/
theorem envelope_cases (h : Hub ω δ) (ctx : Context) (now : Nat) (item : Item) :
    (∃ message, h.envelope ctx now item = (.ok message, h.drawnBy 1)) ∨
      ∃ e spent, h.Refuses item e spent := by
  cases hencode : h.encode item.key item.json with
  | error e => exact .inr ⟨e, 0, .unready hencode⟩
  | ok made =>
      cases hid : h.ids.source h.ids.drawn with
      | error e => exact .inr ⟨e, 1, .unnamed hencode hid⟩
      | ok id =>
          refine .inl ⟨h.assemble ctx now made.1 made.2 id item.subject, ?_⟩
          simp only [envelope, hencode, Ids.draw, hid]
          rfl

/-- An item that is refused is not published. -/
theorem Refuses.publishItem {spent : Nat} (hwhy : h.Refuses item e spent) (hw : h.writer = some w)
    (ctx : Context) (now : Nat) :
    h.publishItem ctx now item = (.error e, h.drawnBy spent) := by
  rw [publishItem_eq hw, hwhy.envelope ctx now]
  rfl

/-- Any other item is. -/
theorem publishItem_cases (hw : h.writer = some w) (ctx : Context) (now : Nat) (item : Item) :
    (∃ message, h.publishItem ctx now item = (.ok (w, message), h.drawnBy 1)) ∨
      ∃ e spent, h.Refuses item e spent := by
  rw [publishItem_eq hw]
  rcases h.envelope_cases ctx now item with ⟨message, hmade⟩ | hwhy
  · exact .inl ⟨message, by rw [hmade]; rfl⟩
  · exact .inr hwhy

/-- One draw has been made for an item that was published. -/
theorem hub_of_publishItem {mid : Hub ω δ} (hw : h.writer = some w)
    (hmade : h.publishItem ctx now item = (.ok (w, message), mid)) : mid = h.drawnBy 1 := by
  rcases publishItem_cases hw ctx now item with ⟨_, hpublished⟩ | ⟨_, _, hwhy⟩
  · rw [hpublished] at hmade
    exact (congrArg Prod.snd hmade).symm
  · rw [hwhy.publishItem hw] at hmade
    cases congrArg Prod.fst hmade

/-- Items are published one after the other, each on what the one before
has left: these are the messages for the writer, and this is the hub
afterwards. -/
inductive OneByOne (ctx : Context) (now : Nat) (w : ω) :
    Hub ω δ → List Item → List Message → Hub ω δ → Prop
  | nil (h : Hub ω δ) : OneByOne ctx now w h [] [] h
  | cons {h mid h' : Hub ω δ} {item : Item} {items : List Item} {message : Message}
      {messages : List Message} (hfirst : h.publishItem ctx now item = (.ok (w, message), mid))
      (hrest : OneByOne ctx now w mid items messages h') :
      OneByOne ctx now w h (item :: items) (message :: messages) h'

namespace OneByOne

/-- There is one message for each item, and one draw. -/
theorem counts (hw : h.writer = some w) (hall : OneByOne ctx now w h items messages h') :
    messages.length = items.length ∧ h' = h.drawnBy items.length := by
  induction hall with
  | nil h => exact ⟨rfl, rfl⟩
  | @cons h mid h' item items message messages hfirst hrest ih =>
      obtain rfl := hub_of_publishItem hw hfirst
      obtain ⟨hlength, hhub⟩ := ih hw
      refine ⟨by rw [List.length_cons, List.length_cons, hlength], ?_⟩
      rw [hhub, drawnBy_drawnBy, List.length_cons, Nat.add_comm]

end OneByOne

/-- Items are published one by one, up to the first that is refused if there
is one. -/
theorem oneByOne_cases (hw : h.writer = some w) (ctx : Context) (now : Nat)
    (items : List Item) :
    (∃ messages h', OneByOne ctx now w h items messages h') ∨
      ∃ before item after messages mid e h', items = before ++ item :: after ∧
        OneByOne ctx now w h before messages mid ∧
        mid.publishItem ctx now item = (.error e, h') := by
  induction items generalizing h with
  | nil => exact .inl ⟨[], h, .nil h⟩
  | cons item items ih =>
      rcases publishItem_cases hw ctx now item with ⟨message, hmade⟩ | ⟨e, spent, hwhy⟩
      · rcases ih (h := h.drawnBy 1) hw with ⟨messages, h', hall⟩ |
          ⟨before, last, after, messages, mid, e, h', rfl, hbefore, hlast⟩
        · exact .inl ⟨message :: messages, h', .cons hmade hall⟩
        · exact .inr ⟨item :: before, last, after, message :: messages, mid, e, h', rfl,
            .cons hmade hbefore, hlast⟩
      · exact .inr ⟨[], item, items, [], h, e, h.drawnBy spent, rfl, .nil h,
          hwhy.publishItem hw ctx now⟩

/-- The first message of a batch, and then the rest. -/
theorem envelopes_cons (hw : h.writer = some w) :
    h.envelopes ctx now (item :: items) =
      match h.publishItem ctx now item with
      | (.error e, mid) => (.error e, mid)
      | (.ok (_, message), mid) =>
          ((mid.envelopes ctx now items).1.map (message :: ·), (mid.envelopes ctx now items).2) := by
  rw [publishItem_eq hw, envelopes]
  cases h.envelope ctx now item with
  | mk made mid => cases made <;> rfl

/-- Items that can be published one by one make a batch. -/
theorem OneByOne.envelopes (hw : h.writer = some w)
    (hall : OneByOne ctx now w h items messages h') :
    h.envelopes ctx now items = (.ok messages, h') := by
  induction hall with
  | nil h => rfl
  | cons hfirst hrest ih =>
      obtain rfl := hub_of_publishItem hw hfirst
      rw [envelopes_cons hw, hfirst]
      dsimp only
      rw [ih hw]
      rfl

/-- The first item that is refused makes the batch fail. -/
theorem OneByOne.envelopes_refused {mid : Hub ω δ} (hw : h.writer = some w)
    (hbefore : OneByOne ctx now w h items messages mid)
    (hlast : mid.publishItem ctx now item = (.error e, h')) (after : List Item) :
    h.envelopes ctx now (items ++ item :: after) = (.error e, h') := by
  induction hbefore with
  | nil h => rw [List.nil_append, envelopes_cons hw, hlast]
  | cons hfirst hrest ih =>
      obtain rfl := hub_of_publishItem hw hfirst
      rw [List.cons_append, envelopes_cons hw, hfirst]
      dsimp only
      rw [ih hw hlast]
      rfl

/-- All messages of a batch are made just when the items can be published one
by one. -/
theorem envelopes_ok_iff (hw : h.writer = some w) :
    h.envelopes ctx now items = (.ok messages, h') ↔
      OneByOne ctx now w h items messages h' := by
  refine ⟨fun hmade => ?_, fun hall => hall.envelopes hw⟩
  rcases oneByOne_cases hw ctx now items with ⟨messages', h'', hall⟩ |
    ⟨before, item, after, messages', mid, e, h'', rfl, hbefore, hlast⟩
  · rw [hall.envelopes hw] at hmade
    cases hmade
    exact hall
  · rw [hbefore.envelopes_refused hw hlast after] at hmade
    cases hmade

/-- A batch is refused just when one of its items is, once those before it
have been published. -/
theorem envelopes_error_iff (hw : h.writer = some w) :
    h.envelopes ctx now items = (.error e, h') ↔
      ∃ before item after messages mid, items = before ++ item :: after ∧
        OneByOne ctx now w h before messages mid ∧
        mid.publishItem ctx now item = (.error e, h') := by
  constructor
  · intro hmade
    rcases oneByOne_cases hw ctx now items with ⟨messages, h'', hall⟩ |
      ⟨before, item, after, messages, mid, e', h'', rfl, hbefore, hlast⟩
    · rw [hall.envelopes hw] at hmade
      cases hmade
    · rw [hbefore.envelopes_refused hw hlast after] at hmade
      cases hmade
      exact ⟨before, item, after, messages, mid, rfl, hbefore, hlast⟩
  · rintro ⟨before, item, after, messages, mid, rfl, hbefore, hlast⟩
    exact hbefore.envelopes_refused hw hlast after

/-- A hub with a writer has for a batch what it makes of its items. -/
theorem publishBatch_eq (hw : h.writer = some w) :
    h.publishBatch ctx now items =
      ((h.envelopes ctx now items).1.map (w, ·), (h.envelopes ctx now items).2) := by
  simp only [publishBatch, getWriter, hw]

/-- A batch is for the writer just when its items can be published one by
one. -/
theorem publishBatch_ok_iff (hw : h.writer = some w) {w' : ω} :
    h.publishBatch ctx now items = (.ok (w', messages), h') ↔
      w' = w ∧ OneByOne ctx now w h items messages h' := by
  rw [publishBatch_eq hw, ← envelopes_ok_iff hw, Prod.ext_iff, Prod.ext_iff]
  cases (h.envelopes ctx now items).1 with
  | error e => simp [Except.map]
  | ok made => simp [Except.map, and_assoc, eq_comm]

/-- A batch is refused as its items are. -/
theorem publishBatch_error_iff (hw : h.writer = some w) :
    h.publishBatch ctx now items = (.error e, h') ↔
      h.envelopes ctx now items = (.error e, h') := by
  rw [publishBatch_eq hw, Prod.ext_iff, Prod.ext_iff]
  cases (h.envelopes ctx now items).1 with
  | error e => simp [Except.map]
  | ok made => simp [Except.map]

/-- An item that was not published was refused. -/
theorem publishItem_error_iff (hw : h.writer = some w) :
    h.publishItem ctx now item = (.error e, h') ↔
      ∃ spent, h.Refuses item e spent ∧ h' = h.drawnBy spent := by
  constructor
  · intro hfailed
    rcases publishItem_cases hw ctx now item with ⟨message, hmade⟩ | ⟨e', spent, hwhy⟩
    · rw [hmade] at hfailed
      cases congrArg Prod.fst hfailed
    · rw [hwhy.publishItem hw] at hfailed
      obtain ⟨herror, hhub⟩ := Prod.mk.inj hfailed
      cases herror
      exact ⟨spent, hwhy, hhub.symm⟩
  · rintro ⟨spent, hwhy, rfl⟩
    exact hwhy.publishItem hw ctx now

end Hub

namespace Scenario

variable {s : Scenario} {sink : Sink} {ctx : Context} {item : Hub.Item} {items : List Hub.Item}
  {message : Message} {messages : List Message} {e : Error} {hub : Hub Sink Feed}

/-- For an item, the writer is asked for the message that was made. -/
theorem publish_asks (hmade : s.hub.publishItem ctx s.now item = (.ok (sink, message), hub)) :
    s.publish ctx item.key item.content = { s with hub }.send sink ctx message := by
  unfold Hub.publishItem at hmade
  simp only [publish, hmade]

/-- For a batch, the writer is asked once. -/
theorem publishBatch_asks
    (hmade : s.hub.publishBatch ctx s.now items = (.ok (sink, messages), hub)) :
    s.publishBatch ctx items = { s with hub }.sendBatch sink ctx messages := by
  simp only [publishBatch, hmade]

/-- A batch that fails changes nothing but the supply of identifiers. -/
theorem publishBatch_quits (hmade : s.hub.publishBatch ctx s.now items = (.error e, hub)) :
    s.publishBatch ctx items = .ok ({ s with hub }, some (.error e)) := by
  simp only [publishBatch, hmade]

end Scenario

namespace Hub

/-- **A batch is all or nothing, and agrees with its items**: a hub with a
writer has messages for a batch just when its items can be published one
after the other, and then it has the messages of these publications, one
for each item and in their order; otherwise the batch fails as the first
item does that cannot be published after those before it.  Identifiers are
drawn once for each item before that one, once more if it is its identifier
that is refused, and for none after it.  A program asks the writer once for
all messages of the batch, and not at all if it fails. -/
theorem publishBatch_agrees {ω δ : Type} {h : Hub ω δ} {w : ω} (hw : h.writer = some w)
    (ctx : Context) (now : Nat) (items : List Item) :
    (∀ w' messages h', h.publishBatch ctx now items = (.ok (w', messages), h') ↔
        w' = w ∧ messages.length = items.length ∧ h' = h.drawnBy items.length ∧
          OneByOne ctx now w h items messages h') ∧
      (∀ e h', h.publishBatch ctx now items = (.error e, h') ↔
        ∃ before item after messages spent, items = before ++ item :: after ∧
          OneByOne ctx now w h before messages (h.drawnBy before.length) ∧
          (h.drawnBy before.length).publishItem ctx now item = (.error e, h') ∧
          (h.drawnBy before.length).Refuses item e spent ∧
          h' = h.drawnBy (before.length + spent)) ∧
      ∀ s : Scenario,
        (∀ item sink message hub,
          s.hub.publishItem ctx s.now item = (.ok (sink, message), hub) →
            s.publish ctx item.key item.content = { s with hub }.send sink ctx message) ∧
        (∀ sink messages hub, s.hub.publishBatch ctx s.now items = (.ok (sink, messages), hub) →
            s.publishBatch ctx items = { s with hub }.sendBatch sink ctx messages) ∧
        ∀ e hub, s.hub.publishBatch ctx s.now items = (.error e, hub) →
            s.publishBatch ctx items = .ok ({ s with hub }, some (.error e)) := by
  refine ⟨fun w' messages h' => ?_, fun e h' => ?_, fun s => ⟨fun _ _ _ _ => s.publish_asks,
    fun _ _ _ => s.publishBatch_asks, fun _ _ => s.publishBatch_quits⟩⟩
  · rw [publishBatch_ok_iff hw]
    constructor
    · rintro ⟨rfl, hall⟩
      exact ⟨rfl, (hall.counts hw).1, (hall.counts hw).2, hall⟩
    · rintro ⟨rfl, -, -, hall⟩
      exact ⟨rfl, hall⟩
  · rw [publishBatch_error_iff hw, envelopes_error_iff hw]
    constructor
    · rintro ⟨before, item, after, messages, mid, rfl, hbefore, hlast⟩
      obtain ⟨-, rfl⟩ := hbefore.counts hw
      obtain ⟨spent, hwhy, hhub⟩ :=
        (publishItem_error_iff (h := h.drawnBy before.length) hw).mp hlast
      exact ⟨before, item, after, messages, spent, rfl, hbefore, hlast, hwhy,
        hhub.trans (drawnBy_drawnBy h before.length spent)⟩
    · rintro ⟨before, item, after, messages, spent, rfl, hbefore, hlast, -, -⟩
      exact ⟨before, item, after, messages, _, rfl, hbefore, hlast⟩

/-- A hub whose second identifier is refused. -/
def sparing : Hub Sink Feed :=
  { (Hub.blank "shop" : Hub Sink Feed) with
    writer := some .bus
    ids := .numbered "m-" (some 2)
    registry := Registry.empty.set "order" (.ofStream "orders") }

/-- The second of three items is refused for its identifier; the third one,
which has no stream, is not looked at. -/
theorem publishBatch_agrees_refused :
    let items : List Item := [⟨"order", .null, none⟩, ⟨"order", .null, none⟩, ⟨"lost", .null, none⟩]
    sparing.writer = some .bus ∧
      sparing.publishBatch (Context.fresh Tokens.none).1 0 items =
        (.error (.identifier "id 2 refused"), sparing.drawnBy 2) := by
  intro items
  have hsecond : (sparing.drawnBy 1).Refuses ⟨"order", .null, none⟩ (.identifier "id 2 refused") 1 :=
    .unnamed rfl (by simp [sparing, drawnBy, Ids.numbered]; decide)
  refine ⟨rfl, ((publishBatch_agrees (h := sparing) (w := .bus) rfl _ 0 items).2.1 _ _).mpr ?_⟩
  exact ⟨items.take 1, _, items.drop 2, _, 1, rfl, .cons rfl (.nil _),
    hsecond.publishItem rfl _ 0, hsecond, rfl⟩

end Hub
end PubSub
