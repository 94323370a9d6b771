import PubSub.Codec
import PubSub.Proofs.Json.Depth
import PubSub.Proofs.Json.Values

/-!
# JSON data, there and back

The codec for JSON writes every value and looks at no schema.  What it has
written it reads again, unless the value is nested too deep; and since all
that it reads are values it could have written, reading, writing and reading
again ends where the first reading did.

* `Codec.json_undone` — the data of a value is read as that value, or is
  nested too deep;
* `Codec.json_settles` — data is read as a value that is read again;
* `Codec.json_inverse` — all of this together.
-/

namespace PubSub

namespace Json

/-- Values whose numbers are whole have texts of their own, however deep they
are nested. -/
theorem bytes_inj {v w : Json} (hv : v.Every Plain) (hw : w.Every Plain)
    (h : v.bytes = w.bytes) : v = w := by
  have hread {u : Json} (hu : u.Every Plain) (hdepth : u.nesting ≤ max v.nesting w.nesting) :
      readValue (2 * u.bytes.length + 1) (max v.nesting w.nesting) (u.bytes ++ []) =
        .ok (u, []) :=
    readValue_write hu (by simp only [bytes]; omega) hdepth (by simp [EndsNumber])
  have hsame := hread hv (Nat.le_max_left _ _)
  rw [h, hread hw (Nat.le_max_right _ _)] at hsame
  cases hsame
  rfl

end Json

namespace Codec

open Json (Plain NoFloat nestingLimit)

/-- Parsing fails with the codec's own error for bad JSON. -/
theorem parseJson_error {data : Bytes} {e : Json.Error} (h : Json.parse data = .error e) :
    parseJson data = .error (.json e) := by
  rw [parseJson, h]
  rfl

/-- What is parsed is what the JSON reader reads. -/
theorem parseJson_ok {data : Bytes} {v : Json} :
    parseJson data = .ok v ↔ Json.parse data = .ok v := by
  unfold parseJson
  cases Json.parse data <;> simp [Except.mapError]

/-- The data of a value is read as that value, or is nested too deep. -/
theorem json_undone {v : Json} (h : v.Every Plain) (schema : String) :
    (v.nesting ≤ nestingLimit → json.unmarshal schema v.bytes = .ok v) ∧
      (nestingLimit < v.nesting →
        ∃ e, json.unmarshal schema v.bytes = .error (.json e) ∧ e.cause = .flaw .tooDeep) := by
  refine ⟨fun hdepth => parseJson_ok.mpr (Json.parse_bytes h hdepth), fun hdepth => ?_⟩
  obtain ⟨e, he, hcause⟩ := Json.parse_deep h hdepth
  exact ⟨e, parseJson_error he, hcause⟩

/-- What was read, and has no floating number, can be written and is read
again. -/
theorem json_settles {schema : String} {data : Bytes} {v : Json}
    (h : json.unmarshal schema data = .ok v) (hwhole : v.Every NoFloat) :
    v.Every Plain ∧ v.nesting ≤ nestingLimit := by
  have hwithin := Json.parse_within (parseJson_ok.mp h)
  exact ⟨hwithin.proper.and hwhole, hwithin.nesting⟩

/-- **Reading undoes writing, up to the nesting limit.**  A value whose numbers
are whole and fit 64 bits is always written.  Its data is read as that value
again, whatever the schemas, if at most 127 arrays and objects enclose each
other; and if there are more, reading fails for that reason.  Different values
have different data.  And whatever data was read, with blanks, escapes,
members in any order or repeated, writes and reads again as the same value, if
there is no floating number in it. -/
theorem json_inverse :
    (∀ v : Json, v.Every Plain → ∀ written read : String, ∃ data,
      json.marshal written v = .ok data ∧
        (v.nesting ≤ 127 → json.unmarshal read data = .ok v) ∧
        (127 < v.nesting →
          ∃ e, json.unmarshal read data = .error (.json e) ∧ e.cause = .flaw .tooDeep)) ∧
    (∀ v w : Json, v.Every Plain → w.Every Plain → ∀ written written' : String,
      json.marshal written v = json.marshal written' w → v = w) ∧
    (∀ (read : String) (data : Bytes) (v : Json), json.unmarshal read data = .ok v →
      v.Every NoFloat → ∀ written again : String, ∃ data',
        json.marshal written v = .ok data' ∧ json.unmarshal again data' = .ok v) := by
  refine ⟨?_, ?_, ?_⟩
  · intro v hv written read
    exact ⟨v.bytes, rfl, json_undone hv read⟩
  · intro v w hv hw written written' hsame
    exact Json.bytes_inj hv hw (Except.ok.inj hsame)
  · intro read data v hread hwhole written again
    obtain ⟨hplain, hdepth⟩ := json_settles hread hwhole
    exact ⟨v.bytes, rfl, (json_undone hplain again).1 hdepth⟩

/-- Arrays in arrays. -/
def boxed : Nat → Json
  | 0 => .null
  | n + 1 => .arr [boxed n]

/-- Arrays in arrays have no numbers at all. -/
theorem boxed_plain (n : Nat) : (boxed n).Every Plain := by
  induction n with
  | zero => exact ⟨trivial, trivial⟩
  | succ n ih => exact ⟨⟨trivial, trivial⟩, ih, trivial⟩

/-- They are nested as deep as there are arrays. -/
theorem boxed_nesting (n : Nat) : (boxed n).nesting = n := by
  induction n with
  | zero => rfl
  | succ n ih => simp [boxed, Json.nesting, Json.nestingItems, ih]

/-- An object with blanks, with an escape, out of order and with a member
repeated. -/
def untidy : Bytes :=
  Utf8.encode ['\x7b', ' ', '"', 'b', '"', ':', '1', ',', '"', 'a', '"', ':', '"', '\\', 'u', '0', '0',
    '4', '1', '"', ',', '\n', '"', 'b', '"', ' ', ':', '[', '-', '2', ']', '\x7d']

/-- It is read, written and read again as the same value; and 127 arrays are
read back from their data, 128 are not. -/
theorem json_inverse_untidy :
    json.unmarshal "" untidy = .ok (.obj [("a", .str "A"), ("b", .arr [.int (-2)])]) ∧
    (∃ data, json.marshal "v1" (.obj [("a", .str "A"), ("b", .arr [.int (-2)])]) = .ok data ∧
      json.unmarshal "v2" data = .ok (.obj [("a", .str "A"), ("b", .arr [.int (-2)])])) ∧
    (∃ data, json.marshal "" (boxed 127) = .ok data ∧
      json.unmarshal "" data = .ok (boxed 127)) ∧
    ∃ data e, json.marshal "" (boxed 128) = .ok data ∧ json.unmarshal "" data = .error (.json e) := by
  have hread : json.unmarshal "" untidy =
      .ok (.obj [("a", .str "A"), ("b", .arr [.int (-2)])]) := by rfl
  obtain ⟨hundone, -, hsettles⟩ := json_inverse
  obtain ⟨fits, hfits, hback, -⟩ := hundone (boxed 127) (boxed_plain 127) "" ""
  obtain ⟨deep, hdeep, -, hfails⟩ := hundone (boxed 128) (boxed_plain 128) "" ""
  obtain ⟨e, he, -⟩ := hfails (by rw [boxed_nesting]; decide)
  refine ⟨hread, hsettles "" untidy _ hread ?_ "v1" "v2", ⟨fits, hfits, hback ?_⟩,
    ⟨deep, e, hdeep, he⟩⟩
  · exact ⟨trivial, trivial, ⟨trivial, trivial, trivial⟩, trivial⟩
  · rw [boxed_nesting]

end Codec
end PubSub
