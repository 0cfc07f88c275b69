import Scim.Proofs.Text
import Scim.Resource.Accessor

/-!
# What names lead to

The table of accessors holds under each key the first entry that has it (`get?_table`). So what the
attribute at a position has among its own entries is found exactly if no attribute before it has the
key among its forms (`get?_table_untaken`), and leads to an earlier position otherwise
(`get?_table_taken`). Among the entries of one attribute, its own name comes first (`lookup_own`), and
the path of a sub-attribute leads to the first that has its name (`lookup_path`).
-/

set_option autoImplicit false

namespace Scim.Accessor

/-! ## The first entry of a key -/

/-- The entries of all attributes, in the order in which they are registered. -/
def entries (ds : List Descriptor) : List (String × Accessor) :=
  ds.zipIdx.flatMap fun (d, i) => ofDescriptor i d

theorem get?_foldl_register (es : List (String × Accessor)) (t : Table Accessor) (key : String) :
    (es.foldl register t).get? key = (t.get? key).or (es.lookup key) := by
  induction es generalizing t with
  | nil => simp
  | cons e es ih =>
    rw [List.foldl_cons, ih, register, Table.get?_update, List.lookup_cons]
    by_cases h : key = e.1
    · subst h
      cases t.get? e.1 <;> simp
    · rw [if_neg h, beq_false_of_ne h]

/-- The table holds the first entry of a key. -/
theorem get?_table (ds : List Descriptor) (key : String) :
    (table ds).get? key = (entries ds).lookup key := by
  rw [table, get?_foldl_register, Table.get?_empty, Option.none_or]
  rfl

/-! ## The entries of one attribute -/

/-- The forms of the names of an attribute and of its sub-attributes. -/
def keys (d : Descriptor) : List String :=
  (ofDescriptor 0 d).map Prod.fst

theorem keys_ofDescriptor (i : Nat) (d : Descriptor) : (ofDescriptor i d).map Prod.fst = keys d := by
  unfold keys ofDescriptor
  split <;> simp [Function.comp_def, List.map_flatMap]

theorem position_ofDescriptor {i : Nat} {d : Descriptor} {e : String × Accessor}
    (h : e ∈ ofDescriptor i d) : e.2.position = i := by
  unfold ofDescriptor at h
  split at h
  · rcases List.mem_append.1 h with h | h
    · obtain ⟨_, -, rfl⟩ := List.mem_map.1 h
      rfl
    · obtain ⟨_, -, h⟩ := List.mem_flatMap.1 h
      obtain ⟨_, -, rfl⟩ := List.mem_map.1 h
      rfl
  · obtain ⟨_, -, rfl⟩ := List.mem_map.1 h
    rfl

/-- An attribute is found under its own name. -/
theorem lookup_own (i : Nat) (d : Descriptor) :
    (ofDescriptor i d).lookup (Text.lower d.name) = some ⟨i, none⟩ := by
  unfold ofDescriptor
  split <;> simp [forms]

theorem forms_name (name : String) : forms [name] = [Text.lower name, Text.snake name] := by
  simp only [forms, List.map_cons, List.map_nil, String.intercalate_singleton]

theorem forms_path (name sub : String) : forms [name, sub] =
    [Text.lower name ++ "." ++ Text.lower sub, Text.snake name ++ "_" ++ Text.snake sub] := by
  simp only [forms, List.map_cons, List.map_nil, String.intercalate_cons_cons,
    String.intercalate_singleton, Text.lower_append]
  rfl

theorem lookup_composed (i : Nat) (name n : String) (subs : List Descriptor) :
    (subs.flatMap fun sub => (forms [name, sub.name]).map fun key =>
        (key, (⟨i, some sub.name⟩ : Accessor))).lookup (Text.lower name ++ "." ++ Text.lower n) =
      (subs.find? fun sub => Text.sameName sub.name n).map fun sub => ⟨i, some sub.name⟩ := by
  induction subs with
  | nil => rfl
  | cons sub subs ih =>
    have hjoined := Text.snake_append_ne_path name (Text.snake sub.name) (Text.lower n)
    rw [List.flatMap_cons, List.lookup_append, ih, List.find?_cons, forms_path]
    simp only [List.map_cons, List.map_nil, List.lookup_cons, beq_false_of_ne hjoined.symm,
      List.lookup_nil]
    cases h : Text.sameName sub.name n with
    | true =>
      rw [Text.sameName_iff.1 h, beq_self_eq_true]
      rfl
    | false =>
      have hne : Text.lower name ++ "." ++ Text.lower n ≠
          Text.lower name ++ "." ++ Text.lower sub.name := by
        intro he
        rw [Text.sameName_iff.2 ((String.append_right_inj _).1 he).symm] at h
        cases h
      rw [beq_false_of_ne hne]
      rfl

/-- The path of a name leads to the first sub-attribute that has it, in any letter case. -/
theorem lookup_path (i : Nat) {d : Descriptor} (hd : (d.isComplex && !d.multiValued) = true)
    (n : String) : (ofDescriptor i d).lookup (Text.lower d.name ++ "." ++ Text.lower n) =
      (d.sub? n).map fun sub => ⟨i, some sub.name⟩ := by
  have hown : Text.lower d.name ++ "." ++ Text.lower n ≠ Text.lower d.name := by
    intro he
    have := congrArg String.length he
    have hdot : ".".length = 1 := rfl
    rw [String.length_append, String.length_append] at this
    omega
  have hsnake := (Text.snake_ne_path d.name (Text.lower n)).symm
  unfold ofDescriptor
  rw [if_pos hd, List.lookup_append, lookup_composed, forms_name]
  simp only [List.map_cons, List.map_nil, List.lookup_cons, beq_false_of_ne hown,
    beq_false_of_ne hsnake, List.lookup_nil, Option.none_or]
  rfl

/-- What the table holds is an entry of an attribute. -/
theorem mem_of_get?_table {ds : List Descriptor} {key : String} {accessor : Accessor}
    (h : (table ds).get? key = some accessor) :
    ∃ i d, ds[i]? = some d ∧ (key, accessor) ∈ ofDescriptor i d := by
  rw [get?_table] at h
  obtain ⟨l₁, l₂, hl, -⟩ := List.lookup_eq_some_iff.1 h
  have hmem : (key, accessor) ∈ entries ds := hl ▸ List.mem_append_right l₁ List.mem_cons_self
  obtain ⟨⟨d, i⟩, hdi, he⟩ := List.mem_flatMap.1 hmem
  exact ⟨i, d, List.mem_zipIdx_iff_getElem?.1 hdi, he⟩

/-! ## Positions -/

/-- An attribute before the position has the key among its forms. -/
def Taken (ds : List Descriptor) (i : Nat) (key : String) : Prop :=
  ∃ j < i, ∃ d, ds[j]? = some d ∧ key ∈ keys d

theorem taken_iff {ds : List Descriptor} {i : Nat} {key : String} :
    Taken ds i key ↔ key ∈ (ds.take i).flatMap keys := by
  rw [List.mem_flatMap]
  constructor
  · rintro ⟨j, hj, d, hd, hk⟩
    exact ⟨d, List.mem_iff_getElem?.2 ⟨j, by rw [List.getElem?_take, if_pos hj, hd]⟩, hk⟩
  · rintro ⟨d, hd, hk⟩
    obtain ⟨j, hj⟩ := List.mem_iff_getElem?.1 hd
    rw [List.getElem?_take] at hj
    split at hj
    · exact ⟨j, ‹_›, d, hj, hk⟩
    · cases hj

instance (ds : List Descriptor) (i : Nat) (key : String) : Decidable (Taken ds i key) :=
  decidable_of_iff _ taken_iff.symm

theorem entries_append {ds₁ ds₂ : List Descriptor} :
    entries (ds₁ ++ ds₂) = entries ds₁ ++
      (ds₂.zipIdx ds₁.length).flatMap fun (d, i) => ofDescriptor i d := by
  rw [entries, List.zipIdx_append, List.flatMap_append, Nat.zero_add]
  rfl

/-- The entries before a position, those at it, and the rest. -/
theorem entries_split {ds : List Descriptor} {i : Nat} {d : Descriptor} (h : ds[i]? = some d) :
    ∃ rest, entries ds = entries (ds.take i) ++ (ofDescriptor i d ++ rest) := by
  obtain ⟨hi, rfl⟩ := List.getElem?_eq_some_iff.1 h
  have hlen : (ds.take i).length = i := by simp; omega
  refine ⟨((ds.drop (i + 1)).zipIdx (i + 1)).flatMap fun (d, i) => ofDescriptor i d, ?_⟩
  conv => lhs; rw [← List.take_append_drop i ds, List.drop_eq_getElem_cons hi]
  rw [entries_append, hlen, List.zipIdx_cons, List.flatMap_cons]

theorem mem_entries_take {ds : List Descriptor} {i : Nat} {e : String × Accessor} :
    e ∈ entries (ds.take i) ↔ ∃ j < i, ∃ d, ds[j]? = some d ∧ e ∈ ofDescriptor j d := by
  simp only [entries, List.mem_flatMap, Prod.exists, List.mem_zipIdx_iff_getElem?, List.getElem?_take]
  constructor
  · rintro ⟨d, j, hd, he⟩
    split at hd
    · exact ⟨j, ‹_›, d, hd, he⟩
    · cases hd
  · rintro ⟨j, hj, d, hd, he⟩
    exact ⟨d, j, by simpa [hj] using hd, he⟩

theorem lookup_take_of_not_taken {ds : List Descriptor} {i : Nat} {key : String}
    (h : ¬ Taken ds i key) : (entries (ds.take i)).lookup key = none := by
  rw [List.lookup_eq_none_iff]
  intro e he
  obtain ⟨j, hj, d, hd, he⟩ := mem_entries_take.1 he
  rw [bne_iff_ne]
  rintro rfl
  exact h ⟨j, hj, d, hd, keys_ofDescriptor j d ▸ List.mem_map_of_mem he⟩

/-- **What no earlier attribute has taken is found.** -/
theorem get?_table_untaken {ds : List Descriptor} {i : Nat} {d : Descriptor} (hd : ds[i]? = some d)
    {key : String} {accessor : Accessor} (hkey : (ofDescriptor i d).lookup key = some accessor)
    (h : ¬ Taken ds i key) : (table ds).get? key = some accessor := by
  obtain ⟨rest, hsplit⟩ := entries_split hd
  rw [get?_table, hsplit, List.lookup_append, lookup_take_of_not_taken h, List.lookup_append, hkey]
  rfl

/-- **What an earlier attribute has taken leads to one that is earlier.** -/
theorem get?_table_taken {ds : List Descriptor} {i : Nat} {key : String} (h : Taken ds i key) :
    ∃ accessor, (table ds).get? key = some accessor ∧ accessor.position < i := by
  obtain ⟨j, hj, d, hd, hk⟩ := h
  have hsome : ((entries (ds.take i)).lookup key).isSome := by
    rw [← keys_ofDescriptor j] at hk
    obtain ⟨e, he, rfl⟩ := List.mem_map.1 hk
    rw [← Option.ne_none_iff_isSome]
    intro hnone
    simpa using List.lookup_eq_none_iff.1 hnone e (mem_entries_take.2 ⟨j, hj, d, hd, he⟩)
  obtain ⟨accessor, ha⟩ := Option.isSome_iff_exists.1 hsome
  refine ⟨accessor, ?_, ?_⟩
  · conv => lhs; rw [← List.take_append_drop i ds]
    rw [get?_table, entries_append, List.lookup_append, ha]
    rfl
  · obtain ⟨l₁, l₂, hl, -⟩ := List.lookup_eq_some_iff.1 ha
    obtain ⟨j', hj', d', -, he⟩ := mem_entries_take.1
      (hl ▸ List.mem_append_right l₁ List.mem_cons_self)
    exact position_ofDescriptor he ▸ hj'

end Scim.Accessor
