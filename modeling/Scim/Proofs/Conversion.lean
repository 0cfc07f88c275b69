import Scim.Proofs.Value

/-!
# Values and documents, back and forth

A document stands for the value that it is read as, and a value is rendered as a document. Which documents
and which values are kept by that, and which are not: a document comes back exactly if each of its integers
is a signed word of 64 bits (`Json.Signed`), and a value exactly if it has no date-times, no octets and no
decimals that are no numbers (`Value.Plain`). Nothing of what comes back has changed its kind
(`Value.lossless_iff`).
-/

set_option autoImplicit false

namespace Scim

/-! ## Documents -/

namespace Json

/-- Every integer of the document is a signed word of 64 bits. -/
inductive Signed : Json → Prop
  | null : Signed .null
  | bool (b : Bool) : Signed (.bool b)
  | integer {n : Int} : -0x8000000000000000 ≤ n → n < 0x8000000000000000 → Signed (.integer n)
  | decimal (x : FiniteBinary64) : Signed (.decimal x)
  | string (s : String) : Signed (.string s)
  | array {items : List Json} : (∀ j ∈ items, Signed j) → Signed (.array items)
  | object {members : List (String × Json)} : (∀ m ∈ members, Signed m.2) → Signed (.object members)

theorem signed_integer_iff {n : Int} :
    (integer n).Signed ↔ -0x8000000000000000 ≤ n ∧ n < 0x8000000000000000 :=
  ⟨fun | .integer low high => ⟨low, high⟩, fun h => .integer h.1 h.2⟩

theorem signed_array_iff {items : List Json} : (array items).Signed ↔ ∀ j ∈ items, j.Signed :=
  ⟨fun | .array h => h, .array⟩

theorem signed_object_iff {members : List (String × Json)} :
    (object members).Signed ↔ ∀ m ∈ members, m.2.Signed :=
  ⟨fun | .object h => h, .object⟩

/-- Induction over documents: what they hold comes before them. -/
@[elab_as_elim]
theorem induct {P : Json → Prop} (j : Json) (null : P .null) (bool : ∀ b, P (.bool b))
    (integer : ∀ n, P (.integer n)) (decimal : ∀ x, P (.decimal x)) (string : ∀ s, P (.string s))
    (array : ∀ items, (∀ j ∈ items, P j) → P (.array items))
    (object : ∀ members, (∀ m ∈ members, P m.2) → P (.object members)) : P j := by
  refine @Json.rec P (fun items => ∀ j ∈ items, P j) (fun members => ∀ m ∈ members, P m.2)
    (fun m => P m.2) null bool integer decimal string array object ?_ ?_ ?_ ?_ (fun _ _ h => h) j
  · exact nofun
  · exact fun _ _ h hs => List.forall_mem_cons.2 ⟨h, hs⟩
  · exact nofun
  · exact fun _ _ h hs => List.forall_mem_cons.2 ⟨h, hs⟩

end Json

/-! ## Values -/

namespace Value

/-- What a document can say: no date-times and no octets, and all decimals are numbers. -/
inductive Plain : Value → Prop
  | null : Plain .null
  | boolean (b : Bool) : Plain (.boolean b)
  | integer (n : Int64) : Plain (.integer n)
  | decimal {x : Binary64} : x.isFinite = true → Plain (.decimal x)
  | text (s : String) : Plain (.text s)
  | list {items : List Value} : (∀ v ∈ items, Plain v) → Plain (.list items)
  | map {entries : List (String × Value)} : (∀ e ∈ entries, Plain e.2) → Plain (.map entries)

theorem plain_decimal_iff {x : Binary64} : (decimal x).Plain ↔ x.isFinite = true :=
  ⟨fun | .decimal h => h, .decimal⟩

theorem plain_list_iff {items : List Value} : (list items).Plain ↔ ∀ v ∈ items, v.Plain :=
  ⟨fun | .list h => h, .list⟩

theorem plain_map_iff {entries : List (String × Value)} :
    (map entries).Plain ↔ ∀ e ∈ entries, e.2.Plain :=
  ⟨fun | .map h => h, .map⟩

/-- Induction over values: what they hold comes before them. -/
@[elab_as_elim]
theorem induct {P : Value → Prop} (v : Value) (null : P .null) (boolean : ∀ b, P (.boolean b))
    (integer : ∀ n, P (.integer n)) (decimal : ∀ x, P (.decimal x)) (text : ∀ s, P (.text s))
    (dateTime : ∀ t, P (.dateTime t)) (binary : ∀ bytes, P (.binary bytes))
    (list : ∀ items, (∀ v ∈ items, P v) → P (.list items))
    (map : ∀ entries, (∀ e ∈ entries, P e.2) → P (.map entries)) : P v := by
  refine @Value.rec P (fun items => ∀ v ∈ items, P v) (fun entries => ∀ e ∈ entries, P e.2)
    (fun e => P e.2) null boolean integer decimal text dateTime binary list map ?_ ?_ ?_ ?_
    (fun _ _ h => h) v
  · exact nofun
  · exact fun _ _ h hs => List.forall_mem_cons.2 ⟨h, hs⟩
  · exact nofun
  · exact fun _ _ h hs => List.forall_mem_cons.2 ⟨h, hs⟩

end Value

/-! ## Back and forth -/

theorem map_eq_self_iff {α : Type} {f : α → α} {l : List α} : l.map f = l ↔ ∀ a ∈ l, f a = a :=
  calc l.map f = l ↔ l.map f = l.map id := by rw [List.map_id]
    _ ↔ ∀ a ∈ l, f a = a := List.map_inj_left

theorem map_entries_eq_self_iff {α : Type} {f : α → α} {l : List (String × α)} :
    l.map (fun e => (e.1, f e.2)) = l ↔ ∀ e ∈ l, f e.2 = e.2 := by
  rw [map_eq_self_iff]
  exact forall₂_congr fun e _ => by rw [Prod.ext_iff, and_iff_right rfl]

namespace Value

/-- A document comes back from its value exactly if every integer fits. -/
theorem toJson_ofJson_eq_iff (j : Json) : (ofJson j).toJson = j ↔ j.Signed := by
  induction j using Json.induct with
  | null => exact iff_of_true rfl .null
  | bool b => exact iff_of_true rfl (.bool b)
  | decimal x => exact iff_of_true (Json.Words.ofBinary64_finite x.2) (.decimal x)
  | string s => exact iff_of_true rfl (.string s)
  | integer n =>
    rw [Json.signed_integer_iff, ofJson]
    simp only [Bool.and_eq_true, decide_eq_true_eq]
    split
    · rename_i h
      rw [toJson, Int64.toInt_ofInt_of_le h.1 h.2]
      exact iff_of_true rfl h
    · rename_i h
      -- the nearest decimal stands for it, which is rendered as one or as null
      refine iff_of_false (fun he => ?_) h
      rw [toJson, Json.ofBinary64] at he
      split at he <;> cases he
  | array items ih =>
    rw [Json.signed_array_iff, ofJson, toJson, ofJsonAll_eq, toJsonAll_eq, List.map_map,
      Json.array.injEq, map_eq_self_iff]
    exact forall₂_congr ih
  | object members ih =>
    rw [Json.signed_object_iff, ofJson, toJson, ofJsonMembers_eq, toJsonEntries_eq, List.map_map,
      Json.object.injEq]
    exact (map_entries_eq_self_iff (f := fun j => (ofJson j).toJson)).trans (forall₂_congr ih)

/-- A value comes back from its document exactly if the document can say all of it. -/
theorem ofJson_toJson_eq_iff (v : Value) : ofJson v.toJson = v ↔ v.Plain := by
  induction v using induct with
  | null => exact iff_of_true rfl .null
  | boolean b => exact iff_of_true rfl (.boolean b)
  | integer n => exact iff_of_true (Json.Words.ofJson_toJson_integer n) (.integer n)
  | decimal x =>
    rw [plain_decimal_iff]
    refine ⟨fun h => ?_, Json.Words.ofJson_toJson_decimal⟩
    rw [toJson, Json.ofBinary64] at h
    split at h
    · assumption
    · cases h
  | text s => exact iff_of_true rfl (.text s)
  | dateTime t => exact iff_of_false (fun h => by cases h) fun h => by cases h
  | binary bytes => exact iff_of_false (fun h => by cases h) fun h => by cases h
  | list items ih =>
    rw [plain_list_iff, toJson, ofJson, toJsonAll_eq, ofJsonAll_eq, List.map_map, list.injEq,
      map_eq_self_iff]
    exact forall₂_congr ih
  | map entries ih =>
    rw [plain_map_iff, toJson, ofJson, toJsonEntries_eq, ofJsonMembers_eq, List.map_map, map.injEq]
    exact (map_entries_eq_self_iff (f := fun v => ofJson v.toJson)).trans (forall₂_congr ih)

/-- **Nothing is lost between values and documents** exactly where the one can say what the other
does. -/
theorem lossless_iff :
    (∀ j : Json, (ofJson j).toJson = j ↔ j.Signed) ∧ ∀ v : Value, ofJson v.toJson = v ↔ v.Plain :=
  ⟨toJson_ofJson_eq_iff, ofJson_toJson_eq_iff⟩

end Value

end Scim
