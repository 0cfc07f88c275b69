import Mathlib.Data.List.Basic
import Mathlib.Data.List.Induction
import Scim.Proofs.Resource.Update
import Scim.Proofs.Table

/-!
# Search in order

Binding and looking up, said as a search from the first to the last. Of the declarations those are
bound that are the first of their name (`Descriptor.firsts_eq_distinct`). Under a name stands the
place of the first entry that has it in the directory, which lists for each attribute its own names
and then the paths of its sub-attributes (`Accessor.get?_table_eq`). So the table, in which a key
stays with what has taken it first, is a search through the directory, in every state of a resource
(`Resource.found_in_order`).
-/

set_option autoImplicit false

namespace Scim

/-! ## The first declarations of their names -/

namespace Descriptor

/-- The declarations before which none has their name in any letter case. -/
def distinct (declared : List Descriptor) : List Descriptor :=
  (declared.zipIdx.filter fun e =>
    (declared.take e.2).all fun earlier => !Text.sameName earlier.name e.1.name).map Prod.fst

theorem distinct_concat (declared : List Descriptor) (d : Descriptor) :
    distinct (declared ++ [d]) = distinct declared ++
      if declared.any fun earlier => Text.sameName earlier.name d.name then [] else [d] := by
  have before : declared.zipIdx.filter (fun e => ((declared ++ [d]).take e.2).all
        fun earlier => !Text.sameName earlier.name e.1.name) =
      declared.zipIdx.filter fun e => (declared.take e.2).all
        fun earlier => !Text.sameName earlier.name e.1.name := by
    apply List.filter_congr
    intro e he
    obtain ⟨-, hlt, -⟩ := List.mem_zipIdx he
    rw [List.take_append_of_le_length (by omega)]
  have last : (declared.all fun earlier => !Text.sameName earlier.name d.name) =
      !declared.any fun earlier => Text.sameName earlier.name d.name := by
    simp [List.all_eq_not_any_not]
  rw [distinct, List.zipIdx_append, List.filter_append, List.map_append, before, ← distinct]
  simp only [List.zipIdx_cons, List.zipIdx_nil, List.filter_cons, List.filter_nil, Nat.zero_add,
    List.take_left, last]
  cases declared.any fun earlier => Text.sameName earlier.name d.name <;> rfl

theorem firsts_concat (declared : List Descriptor) (d : Descriptor) :
    firsts (declared ++ [d]) =
      if (firsts declared).any fun b => Text.sameName b.name d.name then firsts declared
      else firsts declared ++ [d] := by
  rw [firsts, List.foldl_append, ← firsts]
  rfl

/-- A name is bound where it is declared, since equality of names passes from one to the next. -/
theorem any_firsts (declared : List Descriptor) (name : String) :
    ((firsts declared).any fun b => Text.sameName b.name name) =
      declared.any fun earlier => Text.sameName earlier.name name := by
  induction declared using List.reverseRecOn with
  | nil => rfl
  | append_singleton declared d ih =>
    rw [firsts_concat, List.any_append, ← ih]
    split
    · rename_i hbound
      obtain ⟨b, hb, hsame⟩ := List.any_eq_true.1 hbound
      cases hname : Text.sameName d.name name with
      | false => simp [hname]
      | true =>
        rw [List.any_eq_true.2 ⟨b, hb, Text.sameName_trans hsame hname⟩]
        rfl
    · rw [List.any_append]

/-- **The first declaration of each name is bound**, and they keep their order. -/
theorem firsts_eq_distinct (declared : List Descriptor) : firsts declared = distinct declared := by
  induction declared using List.reverseRecOn with
  | nil => rfl
  | append_singleton declared d ih =>
    rw [firsts_concat, distinct_concat, any_firsts, ih]
    split <;> simp

end Descriptor

/-! ## The directory of names -/

deriving instance DecidableEq for Place

/-- What is found through the attribute at a position: the attribute, under its name in lower case
and under the snake-case form of it; then, if it is complex with one value, each sub-attribute,
under the path in lower case and under the snake-case forms joined by an underscore. -/
def Place.listed (i : Nat) (d : Descriptor) : List (String × Place) :=
  [(Text.lower d.name, ⟨i, none⟩), (Text.snake d.name, ⟨i, none⟩)] ++
    if d.isComplex && !d.multiValued then
      d.subAttributes.zipIdx.flatMap fun e =>
        [(Text.lower (d.name ++ "." ++ e.1.name), ⟨i, some e.2⟩),
          (Text.snake d.name ++ "_" ++ Text.snake e.1.name, ⟨i, some e.2⟩)]
    else []

/-- The names of all bound attributes with their places. -/
def Place.directory (ds : List Descriptor) : List (String × Place) :=
  ds.zipIdx.flatMap fun e => listed e.2 e.1

/-- The accessor that is kept for a place: a sub-attribute by its name. -/
def Place.accessor (ds : List Descriptor) (p : Place) : Accessor :=
  ⟨p.position, p.child.bind fun k =>
    ds[p.position]?.bind fun d => d.subAttributes[k]?.map Descriptor.name⟩

section
variable {α β : Type}

theorem lookup_flatMap (l : List α) (f : α → List (String × β)) (key : String) :
    (l.flatMap f).lookup key = l.findSome? fun a => (f a).lookup key := by
  induction l with
  | nil => rfl
  | cons a l ih =>
    rw [List.flatMap_cons, List.lookup_append, List.findSome?_cons, ih]
    cases (f a).lookup key <;> rfl

theorem lookup_pair (first second key : String) (b : β) :
    [(first, b), (second, b)].lookup key = if key = first ∨ key = second then some b else none := by
  by_cases h : key = first
  · subst h
    simp
  · by_cases h' : key = second
    · subst h'
      simp [List.lookup_cons, beq_false_of_ne h]
    · simp [List.lookup_cons, beq_false_of_ne h, beq_false_of_ne h', h, h']

/-- What a list gives first is given at a position before which nothing is given. -/
theorem exists_of_findSome?_zipIdx {l : List α} {f : α × Nat → Option β} {b : β}
    (h : l.zipIdx.findSome? f = some b) :
    ∃ i a, l[i]? = some a ∧ f (a, i) = some b ∧ ∀ j < i, ∀ x, l[j]? = some x → f (x, j) = none := by
  obtain ⟨before, ⟨a, i⟩, rest, hl, hb, hnone⟩ := List.findSome?_eq_some_iff.1 h
  have get (j : Nat) : l[j]?.map (fun x => (x, j)) = (before ++ (a, i) :: rest)[j]? := by
    rw [← hl, List.getElem?_zipIdx]
    simp
  have hi := get before.length
  rw [List.getElem?_append_right (Nat.le_refl _), Nat.sub_self, List.getElem?_cons_zero] at hi
  obtain ⟨x, hx, he⟩ := Option.map_eq_some_iff.1 hi
  cases he
  refine ⟨_, a, hx, hb, fun j hj x hx => hnone (x, j) ?_⟩
  have hj' := get j
  rw [hx, List.getElem?_append_left hj] at hj'
  exact List.mem_of_getElem? hj'.symm

end

namespace Accessor

theorem ofDescriptor_eq {ds : List Descriptor} {i : Nat} {d : Descriptor} (hd : ds[i]? = some d) :
    ofDescriptor i d = (Place.listed i d).map fun e => (e.1, e.2.accessor ds) := by
  have composed : (d.subAttributes.flatMap fun sub => (forms [d.name, sub.name]).map fun key =>
        (key, (⟨i, some sub.name⟩ : Accessor))) =
      d.subAttributes.zipIdx.flatMap fun e =>
        [(Text.lower (d.name ++ "." ++ e.1.name), Place.accessor ds ⟨i, some e.2⟩),
          (Text.snake d.name ++ "_" ++ Text.snake e.1.name, Place.accessor ds ⟨i, some e.2⟩)] := by
    conv => lhs; rw [← List.zipIdx_map_fst 0 d.subAttributes, List.flatMap_map]
    refine List.flatMap_congr fun e he => ?_
    have hsub := List.mem_zipIdx_iff_getElem?.1 he
    rw [forms_path, Text.lower_append, Text.lower_append]
    simp [Place.accessor, hd, hsub]
    rfl
  unfold ofDescriptor Place.listed
  dsimp only
  rw [composed, forms_name, List.map_append]
  split <;> simp [Place.accessor, List.map_flatMap]

/-- **The table is a search through the directory.** -/
theorem get?_table_eq (ds : List Descriptor) (key : String) :
    (table ds).get? key = ((Place.directory ds).lookup key).map (Place.accessor ds) := by
  have listed : entries ds = (Place.directory ds).map fun e => (e.1, e.2.accessor ds) := by
    rw [entries, Place.directory, List.map_flatMap]
    exact List.flatMap_congr fun e he => ofDescriptor_eq (List.mem_zipIdx_iff_getElem?.1 he)
  rw [get?_table, listed]
  exact Entries.get?_map (Place.accessor ds) _ key

/-- What is found first leads to where it stands: of sub-attributes that are written the same, the
first is listed before the others, under the same names. -/
theorem leadsTo_of_lookup {ds : List Descriptor} {key : String} {p : Place}
    (h : (Place.directory ds).lookup key = some p) : ∃ d, (p.accessor ds).LeadsTo ds p d := by
  rw [Place.directory, lookup_flatMap] at h
  obtain ⟨i, d, hd, hp, -⟩ := exists_of_findSome?_zipIdx h
  rw [Place.listed, List.lookup_append, lookup_pair] at hp
  rcases Option.or_eq_some_iff.1 hp with hown | ⟨-, hsub⟩
  · obtain ⟨-, rfl⟩ : _ ∧ ⟨i, none⟩ = p := by simpa using hown
    exact ⟨d, .top hd⟩
  · split at hsub
    · rename_i hsingle
      rw [lookup_flatMap] at hsub
      obtain ⟨k, sub, hk, hfound, hbefore⟩ := exists_of_findSome?_zipIdx hsub
      simp only [lookup_pair] at hfound hbefore
      obtain ⟨hkey, rfl⟩ : _ ∧ ⟨i, some k⟩ = p := by simpa using hfound
      have haccessor : Place.accessor ds ⟨i, some k⟩ = ⟨i, some sub.name⟩ := by
        simp [Place.accessor, hd, hk]
      rw [haccessor]
      refine ⟨sub, .sub hd hsingle hk rfl fun j hj s hs hname => ?_⟩
      have hnone := hbefore j hj s hs
      rw [hname, if_pos hkey] at hnone
      cases hnone
    · cases hsub

end Accessor

/-! ## Main result -/

namespace Resource

/-- The attribute that is worked on at a place. A sub-attribute stands in the object that its
attribute holds, or in a new one where it holds none. -/
def reached? (r : Resource) (p : Place) : Option Attribute :=
  r.attributes[p.position]?.bind fun a =>
    match p.child with
    | none => some a
    | some k => a.opened.attributes[k]?

theorem Bound.visit_eq {K : Kept} {ds : List Descriptor} {r : Resource} (h : r.Bound K ds)
    {name : String} {accessor : Accessor} {p : Place} {d : Descriptor}
    (hacc : r.accessor? name = some accessor) (hp : accessor.LeadsTo ds p d) :
    ∃ a, r.reached? p = some a ∧ a.descriptor = d ∧ ∀ (α : Type) (f : Attribute → α × Attribute),
      r.visit f name = (some (f a).1, r.put p (f a).2) := by
  cases hp with
  | @top i _ hd =>
    obtain ⟨a, ha, rfl⟩ := h.attribute_at hd
    refine ⟨a, by simp [reached?, ha], rfl, fun α f => ?_⟩
    rw [visit_some hacc ha]
    simp only [put, ha]
    rfl
  | @sub i k parent _ _ hd hsingle hsub hname hfirst =>
    subst hname
    obtain ⟨a, child, ha, rfl, hdescriptor, hk, hchild⟩ := h.opened_at hd hsub hfirst
    refine ⟨child, by simp [reached?, ha, hchild], hdescriptor, fun α f => ?_⟩
    rw [visit_some hacc ha]
    simp only [put, ha]
    show ((a.visit f [d.name]).1, r.withAttribute i (a.visit f [d.name]).2) = _
    rw [Attribute.visit_cons_some hsingle hk hchild]
    rfl

/-- Work under the name is work at the place, or is not done where there is no place. -/
def Addresses (r : Resource) (name : String) : Option Place → Prop
  | some p => ∃ a, r.reached? p = some a ∧ ∀ (α : Type) (f : Attribute → α × Attribute),
      r.visit f name = (some (f a).1, r.put p (f a).2)
  | none => ∀ (α : Type) (f : Attribute → α × Attribute), r.visit f name = (none, r)

theorem Bound.addresses {K : Kept} {ds : List Descriptor} {r : Resource} (h : r.Bound K ds)
    (name : String) : r.Addresses name ((Place.directory ds).lookup (Text.lower name)) := by
  have hacc := h.accessor?_eq name
  rw [Accessor.get?_table_eq] at hacc
  cases hp : (Place.directory ds).lookup (Text.lower name) with
  | none =>
    rw [hp] at hacc
    exact fun α f => visit_none hacc
  | some p =>
    rw [hp] at hacc
    obtain ⟨d, hleads⟩ := Accessor.leadsTo_of_lookup hp
    obtain ⟨a, ha, -, hvisit⟩ := h.visit_eq hacc hleads
    exact ⟨a, ha, hvisit⟩

/-- **Binding and looking up are searches in order.** A new resource has the first declaration of
each name, and keeps them in this order. Whatever was done with it, work under a name is work at the
place that stands first in the directory under the name in lower case, and nothing happens where
none stands there. So names that differ in the case of letters only are one. -/
theorem found_in_order {schemas : List Schema} (hne : schemas ≠ []) (location : String) :
    ∃ r₀ ds, bind schemas location = .ok r₀ ∧
      ds = Descriptor.distinct (schemas.flatMap Schema.attributes) ∧
      r₀.attributes = ds.map Attribute.bind ∧
      ∀ operations : List Operation,
        (r₀.run operations).attributes.map Attribute.descriptor = ds ∧
        ∀ name, (r₀.run operations).Addresses name ((Place.directory ds).lookup (Text.lower name)) ∧
          ∀ other, Text.sameName name other = true →
            ∀ (α : Type) (f : Attribute → α × Attribute),
              (r₀.run operations).visit f name = (r₀.run operations).visit f other := by
  obtain ⟨r₀, h⟩ := exists_bind hne location
  have hds : Descriptor.bound schemas = Descriptor.distinct (schemas.flatMap Schema.attributes) :=
    Descriptor.firsts_eq_distinct _
  refine ⟨r₀, _, h, hds, (fresh_of_bind h).1, fun operations => ?_⟩
  have hr := (Bound.bind .anything h).run (.anything true) (.anything false) operations
  refine ⟨hr.descriptors, fun name => ⟨hr.addresses name, fun other hother α f => ?_⟩⟩
  have hsame : (r₀.run operations).accessor? name = (r₀.run operations).accessor? other := by
    rw [accessor?, accessor?, Text.sameName_iff.1 hother]
  rw [visit, visit, hsame]

/-- A schema of visitors. -/
def visitors : Schema :=
  { Schema.new "urn:visitors" "Visitor" "/Schemas/Visitor" with
    attributes := [.new "userName" .string,
      ((Descriptor.new "name" .complex).addSub (.new "familyName" .string)).addSub
        (.new "FAMILYNAME" .string)] }

/-- A schema that declares a user's name again. -/
def staff : Schema :=
  { Schema.new "urn:staff" "Staff" "/Schemas/Staff" with
    attributes := [.new "USERNAME" .integer, .new "name_family_name" .string,
      .new "user_name" .string] }

/-- The second declaration of a user's name is not bound. A family name is found under its path
before the attribute that bears the joined form as its name, and `user_name` leads to the first
attribute. -/
theorem found_in_order_visitors :
    [visitors, staff] ≠ [] ∧ ∃ (r₀ : Resource) (ds : List Descriptor),
      bind [visitors, staff] "/Visitors/1" = .ok r₀ ∧
      ds.map Descriptor.name = ["userName", "name", "name_family_name", "user_name"] ∧
      r₀.attributes = ds.map Attribute.bind ∧
      let r := r₀.run [.work "name" [] (.assign (.text "Ann Lee"))]
      r.Addresses "Name.familyname" (some ⟨1, some 0⟩) ∧
        r.Addresses "NAME_family_NAME" (some ⟨1, some 0⟩) ∧
        r.Addresses "user_name" (some ⟨0, none⟩) ∧ r.Addresses "nickName" none := by
  obtain ⟨r₀, ds, h, rfl, hattributes, hall⟩ :=
    @found_in_order [visitors, staff] (by simp) "/Visitors/1"
  have hds : Descriptor.distinct ([visitors, staff].flatMap Schema.attributes) =
      visitors.attributes ++ staff.attributes.tail := by decide +kernel
  rw [hds] at hall hattributes
  refine ⟨by simp, r₀, _, h, by rw [hds]; rfl, hds ▸ hattributes, ?_⟩
  intro r
  have found (name : String) (p : Option Place)
      (hp : (Place.directory (visitors.attributes ++ staff.attributes.tail)).lookup
        (Text.lower name) = p) : r.Addresses name p := by
    rw [← hp]
    exact ((hall _).2 name).1
  exact ⟨found _ _ (by decide +kernel), found _ _ (by decide +kernel),
    found _ _ (by decide +kernel), found _ _ (by decide +kernel)⟩

end Resource

end Scim
