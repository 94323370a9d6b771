import PubSub.Message.Basic

/-!
# What a message type identifies

The type of a message is made of its source, its stream and its version, and
all three can be written in each other's way: a stream may begin with the
source, and it may end like a version.  So two pairs of a stream and a version
may share a type, and it can be said exactly when they do.

* `Leads` — a source that a stream begins with;
* `messageType_of_leads`, `messageType_of_not_leads`, `messageType_versioned` —
  the three parts of a type;
* `unversioned_eq_iff` — streams that share a type without a version;
* `versioned_inj` — a version is read off the end of a type;
* `messageType_identifies` — all of this together.
-/

namespace PubSub

/-- The stream begins with the source. -/
def Leads (source stream : String) : Prop := ∃ rest, stream = source ++ rest

variable {source stream a b : String} {v w : Nat}

/-- Beginning with a source is what a type asks of its stream. -/
theorem leads_iff : Leads source stream ↔ source = "" ∨ source.toList.isPrefixOf stream.toList := by
  constructor
  · rintro ⟨rest, rfl⟩
    refine .inr (List.isPrefixOf_iff_prefix.mpr ?_)
    rw [String.toList_append]
    exact List.prefix_append _ _
  · rintro (rfl | hprefix)
    · exact ⟨stream, (String.empty_append).symm⟩
    · obtain ⟨rest, hrest⟩ := List.isPrefixOf_iff_prefix.mp hprefix
      refine ⟨String.ofList rest, String.toList_inj.mp ?_⟩
      rw [String.toList_append, String.toList_ofList, hrest]

/-- The empty source leads every stream. -/
theorem ne_empty_of_not_leads (h : ¬Leads source stream) : source ≠ "" := by
  intro hempty
  exact h (leads_iff.mpr (.inl hempty))

/-- A stream that begins with its source is its own type. -/
theorem messageType_of_leads (h : Leads source stream) : messageType source stream 0 = stream := by
  simp only [messageType, if_pos (leads_iff.mp h), if_pos, String.empty_append, String.append_empty]

/-- Any other stream gets its source in front. -/
theorem messageType_of_not_leads (h : ¬Leads source stream) :
    messageType source stream 0 = source ++ "." ++ stream := by
  simp only [messageType, if_neg (mt leads_iff.mpr h), if_pos, String.append_empty]

/-- A version comes at the end. -/
theorem messageType_versioned (source stream : String) (hv : v ≠ 0) :
    messageType source stream v = messageType source stream 0 ++ ".v" ++ toString v := by
  simp [messageType, hv, String.append_assoc]

/-- A type begins with the source. -/
theorem leads_messageType (source stream : String) : Leads source (messageType source stream 0) := by
  by_cases h : Leads source stream
  · rw [messageType_of_leads h]
    exact h
  · rw [messageType_of_not_leads h, String.append_assoc]
    exact ⟨_, rfl⟩

/-- A type without a version ends with the stream. -/
theorem messageType_ends (source stream : String) :
    ∃ lead, messageType source stream 0 = lead ++ stream := by
  by_cases h : Leads source stream
  · exact ⟨"", by rw [messageType_of_leads h, String.empty_append]⟩
  · exact ⟨source ++ ".", messageType_of_not_leads h⟩

/-- The type of a type is that type. -/
theorem messageType_messageType (source stream : String) :
    messageType source (messageType source stream 0) 0 = messageType source stream 0 :=
  messageType_of_leads (leads_messageType source stream)

/-- The source and a point in front of a stream. -/
theorem dotted_inj (h : source ++ "." ++ a = source ++ "." ++ b) : a = b := by
  have hlists := congrArg String.toList h
  simp only [String.toList_append] at hlists
  exact String.toList_inj.mp (List.append_cancel_left hlists)

/-- The stream that another one turns into begins with the source. -/
theorem messageType_dotted (source stream : String) :
    messageType source (source ++ "." ++ stream) 0 = source ++ "." ++ stream :=
  messageType_of_leads ⟨"." ++ stream, String.append_assoc⟩

/-- Two streams share a type if they are one, or if one of them is what the
other turns into. -/
theorem unversioned_eq_iff : messageType source a 0 = messageType source b 0 ↔
    a = b ∨ (a = source ++ "." ++ b ∧ ¬Leads source b) ∨
      (b = source ++ "." ++ a ∧ ¬Leads source a) := by
  constructor
  · intro h
    by_cases ha : Leads source a
    · by_cases hb : Leads source b
      · rw [messageType_of_leads ha, messageType_of_leads hb] at h
        exact .inl h
      · rw [messageType_of_leads ha, messageType_of_not_leads hb] at h
        exact .inr (.inl ⟨h, hb⟩)
    · by_cases hb : Leads source b
      · rw [messageType_of_not_leads ha, messageType_of_leads hb] at h
        exact .inr (.inr ⟨h.symm, ha⟩)
      · rw [messageType_of_not_leads ha, messageType_of_not_leads hb] at h
        exact .inl (dotted_inj h)
  · rintro (rfl | ⟨rfl, hb⟩ | ⟨rfl, ha⟩)
    · rfl
    · rw [messageType_dotted, messageType_of_not_leads hb]
    · rw [messageType_dotted, messageType_of_not_leads ha]

/-- The last of a letter divides a list in one way only. -/
theorem append_last_inj {α : Type} {xs ys ds es : List α} {x : α} (hds : x ∉ ds) (hes : x ∉ es)
    (h : xs ++ x :: ds = ys ++ x :: es) : xs = ys ∧ ds = es := by
  rcases List.append_eq_append_iff.mp h with ⟨more, rfl, hrest⟩ | ⟨more, rfl, hrest⟩
  · cases more with
    | nil =>
        cases hrest
        exact ⟨(List.append_nil xs).symm, rfl⟩
    | cons c more =>
        obtain ⟨-, rfl⟩ := List.cons.inj hrest
        exact absurd (List.mem_append_right more List.mem_cons_self) hds
  · cases more with
    | nil =>
        cases hrest
        exact ⟨List.append_nil ys, rfl⟩
    | cons c more =>
        obtain ⟨-, rfl⟩ := List.cons.inj hrest
        exact absurd (List.mem_append_right more List.mem_cons_self) hes

/-- No decimal number has the letter of a version in it. -/
theorem letter_not_mem_decimal (n : Nat) : 'v' ∉ (toString n).toList := by
  intro hmem
  rw [Nat.toString_eq_ofList_toDigits, String.toList_ofList] at hmem
  have hdigit := Nat.isDigit_of_mem_toDigits (by omega) (Nat.le_refl 10) hmem
  revert hdigit
  decide

/-- A number is read off its decimal text. -/
theorem decimal_inj (h : (toString v).toList = (toString w).toList) : v = w := by
  simp only [Nat.toString_eq_ofList_toDigits, String.toList_ofList] at h
  calc v = Nat.ofDigitChars 10 (Nat.toDigits 10 v) 0 := Nat.ofDigitChars_ten_toDigits.symm
    _ = Nat.ofDigitChars 10 (Nat.toDigits 10 w) 0 := by rw [h]
    _ = w := Nat.ofDigitChars_ten_toDigits

/-- The version is read off the end of a type, and what is before it is left. -/
theorem versioned_inj (h : a ++ ".v" ++ toString v = b ++ ".v" ++ toString w) : a = b ∧ v = w := by
  have hlists := congrArg String.toList h
  simp only [String.toList_append] at hlists
  change a.toList ++ ['.', 'v'] ++ _ = b.toList ++ ['.', 'v'] ++ _ at hlists
  have hsplit : ∀ s ds : List Char, s ++ ['.', 'v'] ++ ds = (s ++ ['.']) ++ 'v' :: ds := by simp
  rw [hsplit, hsplit] at hlists
  obtain ⟨hfront, hdigits⟩ :=
    append_last_inj (letter_not_mem_decimal v) (letter_not_mem_decimal w) hlists
  exact ⟨String.toList_inj.mp (List.append_cancel_right hfront), decimal_inj hdigits⟩

/-- Different versions other than zero make different types. -/
theorem messageType_ne (hv : v ≠ 0) (hw : w ≠ 0) (hne : v ≠ w) :
    messageType source a v ≠ messageType source b w := by
  intro h
  rw [messageType_versioned source a hv, messageType_versioned source b hw] at h
  exact hne (versioned_inj h).2

/-- Under the same version it is the streams that matter. -/
theorem messageType_eq_iff_unversioned : messageType source a v = messageType source b v ↔
    messageType source a 0 = messageType source b 0 := by
  by_cases hv : v = 0
  · rw [hv]
  · rw [messageType_versioned source a hv, messageType_versioned source b hv]
    constructor
    · intro h
      exact (versioned_inj h).1
    · intro h
      rw [h]

/-- **What a type identifies.**  Under one source, two streams with their
versions share a type just when they are the same; or the versions are, and
one stream is the other with the source and a point in front, which the other
does not begin with itself; or one has no version and its type is that of the
other, version included.  So no two versions other than zero share a type.
And a type without a version begins with the source, ends with the stream, and
is its own type. -/
theorem messageType_identifies (source : String) :
    (∀ a v b w, messageType source a v = messageType source b w ↔
      (v = w ∧ a = b) ∨
      (v = w ∧ source ≠ "" ∧
        ((a = source ++ "." ++ b ∧ ¬Leads source b) ∨
          (b = source ++ "." ++ a ∧ ¬Leads source a))) ∨
      (v = 0 ∧ w ≠ 0 ∧
        messageType source a 0 = messageType source b 0 ++ ".v" ++ toString w) ∨
      (w = 0 ∧ v ≠ 0 ∧
        messageType source b 0 = messageType source a 0 ++ ".v" ++ toString v)) ∧
    (∀ a v b w, v ≠ 0 → w ≠ 0 → v ≠ w → messageType source a v ≠ messageType source b w) ∧
    ∀ stream, Leads source (messageType source stream 0) ∧
      (∃ lead, messageType source stream 0 = lead ++ stream) ∧
      messageType source (messageType source stream 0) 0 = messageType source stream 0 := by
  refine ⟨?_, ?_, ?_⟩
  · intro a v b w
    by_cases hvw : v = w
    · subst hvw
      rw [messageType_eq_iff_unversioned, unversioned_eq_iff]
      constructor
      · rintro (hab | ⟨hab, hb⟩ | ⟨hab, ha⟩)
        · exact .inl ⟨rfl, hab⟩
        · exact .inr (.inl ⟨rfl, ne_empty_of_not_leads hb, .inl ⟨hab, hb⟩⟩)
        · exact .inr (.inl ⟨rfl, ne_empty_of_not_leads ha, .inr ⟨hab, ha⟩⟩)
      · rintro (⟨-, hab⟩ | ⟨-, -, hdotted⟩ | ⟨hv, hv', -⟩ | ⟨hv, hv', -⟩)
        · exact .inl hab
        · exact .inr hdotted
        · exact absurd hv hv'
        · exact absurd hv hv'
    · by_cases hv : v = 0
      · subst hv
        have hw : w ≠ 0 := fun hw => hvw hw.symm
        rw [messageType_versioned source b hw]
        simp [hw, hvw]
      · by_cases hw : w = 0
        · subst hw
          rw [messageType_versioned source a hv]
          simp [hv, eq_comm]
        · have hne : messageType source a v ≠ messageType source b w := messageType_ne hv hw hvw
          simp [hne, hvw, hv, hw]
  · intro a v b w hv hw hne
    exact messageType_ne hv hw hne
  · intro stream
    exact ⟨leads_messageType source stream, messageType_ends source stream,
      messageType_messageType source stream⟩

/-- A stream that already has the source in front shares the type of the one
that gets it; a stream that ends like a version shares that of the one which
has it. -/
theorem messageType_identifies_shared :
    messageType "shop" "shop.orders" 2 = messageType "shop" "orders" 2 ∧
      messageType "shop" "orders.v2" 0 = messageType "shop" "orders" 2 ∧
      messageType "shop" "orders" 2 ≠ messageType "shop" "orders" 3 := by
  obtain ⟨hiff, hne, -⟩ := messageType_identifies "shop"
  refine ⟨(hiff _ _ _ _).mpr (.inr (.inl ⟨rfl, by decide, .inl ⟨rfl, ?_⟩⟩)),
    (hiff _ _ _ _).mpr (.inr (.inr (.inl ⟨rfl, by decide, by decide⟩))),
    hne _ _ _ _ (by decide) (by decide) (by decide)⟩
  rw [leads_iff]
  decide

end PubSub
