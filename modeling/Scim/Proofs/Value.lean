import Scim.Proofs.Binary64
import Scim.Proofs.Json.Words
import Scim.Value

/-!
# Values and documents

Rendering and reading of lists and maps, element by element, and the shapes of what is rendered and of
what is read. The value of a document whose integers are words of 64 bits (`Json.Words`) is rendered as
a document of the same value (`Json.Words.ofJson_toJson`).
-/

set_option autoImplicit false

namespace Scim

theorem Json.isNull_iff {j : Json} : j.isNull = true ↔ j = .null := by
  cases j <;> simp [isNull]

theorem Json.isNull_eq_false_iff {j : Json} : j.isNull = false ↔ j ≠ .null := by
  rw [← Bool.not_eq_true, isNull_iff]

namespace Value

theorem toJsonAll_eq (items : List Value) : toJsonAll items = items.map toJson := by
  induction items with
  | nil => rfl
  | cons v items ih => rw [toJsonAll, ih, List.map_cons]

theorem toJsonEntries_eq (entries : List (String × Value)) :
    toJsonEntries entries = entries.map fun e => (e.1, e.2.toJson) := by
  induction entries with
  | nil => rfl
  | cons e entries ih => rw [toJsonEntries, ih, List.map_cons]

theorem toJson_eq_object_iff {v : Value} {members : List (String × Json)} :
    v.toJson = .object members ↔
      ∃ entries, v = .map entries ∧ members = entries.map fun e => (e.1, e.2.toJson) := by
  cases v with
  | decimal x =>
    simp only [toJson, Json.ofBinary64]
    split <;> simp
  | map entries =>
    simp only [toJson, toJsonEntries_eq, Json.object.injEq, map.injEq]
    constructor
    · rintro rfl
      exact ⟨entries, rfl, rfl⟩
    · rintro ⟨_, rfl, rfl⟩
      rfl
  | _ => simp [toJson]

theorem toJson_eq_array_iff {v : Value} {items : List Json} :
    v.toJson = .array items ↔ ∃ values, v = .list values ∧ items = values.map toJson := by
  cases v with
  | decimal x =>
    simp only [toJson, Json.ofBinary64]
    split <;> simp
  | list values =>
    simp only [toJson, toJsonAll_eq, Json.array.injEq, list.injEq]
    constructor
    · rintro rfl
      exact ⟨values, rfl, rfl⟩
    · rintro ⟨_, rfl, rfl⟩
      rfl
  | _ => simp [toJson]

theorem ofJsonAll_eq (items : List Json) : ofJsonAll items = items.map ofJson := by
  induction items with
  | nil => rfl
  | cons j items ih => rw [ofJsonAll, ih, List.map_cons]

theorem ofJsonMembers_eq (members : List (String × Json)) :
    ofJsonMembers members = members.map fun m => (m.1, ofJson m.2) := by
  induction members with
  | nil => rfl
  | cons m members ih => rw [ofJsonMembers, ih, List.map_cons]

theorem ofJson_eq_list_iff {j : Json} {values : List Value} :
    ofJson j = .list values ↔ ∃ items, j = .array items ∧ values = items.map ofJson := by
  cases j with
  | integer n =>
    rw [ofJson]
    split <;> simp
  | array items => simp [ofJson, ofJsonAll_eq, eq_comm]
  | _ => simp [ofJson]

theorem ofJson_eq_map_iff {j : Json} {entries : List (String × Value)} :
    ofJson j = .map entries ↔
      ∃ members, j = .object members ∧ entries = members.map fun m => (m.1, ofJson m.2) := by
  cases j with
  | integer n =>
    rw [ofJson]
    split <;> simp
  | object members => simp [ofJson, ofJsonMembers_eq, eq_comm]
  | _ => simp [ofJson]

end Value

/-! ## Documents of words -/

namespace Json.Words

variable {j : Json}

theorem ofBinary64_finite {x : Binary64} (h : x.isFinite = true) :
    Json.ofBinary64 x = .decimal ⟨x, h⟩ :=
  dif_pos h

/-- The value of an integer is one of a machine word, or a finite decimal. -/
theorem ofJson_integer {n : Int} (hlow : -0x8000000000000000 ≤ n)
    (hhigh : n < 0x10000000000000000) :
    (∃ w, Value.ofJson (.integer n) = .integer w) ∨
      ∃ x, x.isFinite = true ∧ Value.ofJson (.integer n) = .decimal x := by
  rw [Value.ofJson]
  split
  · exact .inl ⟨_, rfl⟩
  · exact .inr ⟨_, Binary64.isFinite_ofInt hlow hhigh, rfl⟩

theorem ofJson_toJson_integer (w : Int64) : Value.ofJson (Value.integer w).toJson = .integer w := by
  have hlow := w.le_toInt
  have hhigh := w.toInt_lt
  rw [Value.toJson, Value.ofJson, if_pos (by simp; omega), Int64.ofInt_toInt]

theorem ofJson_toJson_decimal {x : Binary64} (h : x.isFinite = true) :
    Value.ofJson (Value.decimal x).toJson = .decimal x := by
  rw [Value.toJson, ofBinary64_finite h, Value.ofJson]

/-- **Reading and rendering gives a document of the same value.** -/
theorem ofJson_toJson (h : j.Words) : Value.ofJson (Value.ofJson j).toJson = Value.ofJson j := by
  induction h with
  | integer hlow hhigh =>
    rcases ofJson_integer hlow hhigh with ⟨w, hw⟩ | ⟨x, hx, hw⟩
    · rw [hw, ofJson_toJson_integer]
    · rw [hw, ofJson_toJson_decimal hx]
  | decimal x => exact ofJson_toJson_decimal x.2
  | array _ ih =>
    simp only [Value.ofJson, Value.toJson, Value.ofJsonAll_eq, Value.toJsonAll_eq, List.map_map]
    congr 1
    exact List.map_congr_left ih
  | @object members _ ih =>
    simp only [Value.ofJson, Value.toJson, Value.ofJsonMembers_eq, Value.toJsonEntries_eq,
      List.map_map]
    congr 1
    exact List.map_congr_left fun m hm => congrArg (Prod.mk m.1) (ih m hm)
  | _ => rfl

end Json.Words

end Scim
