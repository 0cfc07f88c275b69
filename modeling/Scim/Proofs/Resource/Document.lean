import Scim.Proofs.Attribute.RoundTrip
import Scim.Proofs.Resource.Accessor
import Scim.Proofs.Resource.Run

/-!
# Documents of resources

A resource that is filled from documents is rendered as a document that fills a new resource of the
same schemas with all that is shown (`toJson_assignJson_toJson`). Each attribute is reached under its
own name (`accessor?_own`), so the members of the document go to the attributes that they come from
(`foldl_assignMember`), and each of these shows what it is assigned (`Content.Shaped.settles`). That
the integers of a document are words of 64 bits is what reading it from a text gives
(`Json.words_of_ofText`).
-/

set_option autoImplicit false

namespace Scim

/-! ## Names of bound attributes -/

theorem Descriptor.pairwise_firsts (declared : List Descriptor) :
    (firsts declared).Pairwise fun a b => Text.sameName a.name b.name = false := by
  have kept : ∀ (declared bound : List Descriptor),
      bound.Pairwise (fun a b => Text.sameName a.name b.name = false) →
      (declared.foldl (fun bound d =>
        if bound.any fun b => Text.sameName b.name d.name then bound else bound ++ [d]) bound).Pairwise
          fun a b => Text.sameName a.name b.name = false := by
    intro declared
    induction declared with
    | nil => exact fun _ h => h
    | cons d declared ih =>
      intro bound h
      rw [List.foldl_cons]
      apply ih
      split
      · exact h
      · rename_i hnew
        rw [List.pairwise_append]
        refine ⟨h, List.pairwise_singleton _ _, fun b hb x hx => ?_⟩
        obtain rfl := List.mem_singleton.1 hx
        simpa using fun he => hnew (List.any_eq_true.2 ⟨b, hb, he⟩)
  exact kept declared [] List.Pairwise.nil

/-- No two bound attributes have one name. -/
theorem Descriptor.bound_position {schemas : List Schema} {i k : Nat} {d e : Descriptor}
    (hi : (bound schemas)[i]? = some d) (hk : (bound schemas)[k]? = some e)
    (h : Text.sameName d.name e.name = true) : i = k := by
  have hpairwise : (bound schemas).Pairwise fun a b => Text.sameName a.name b.name = false :=
    pairwise_firsts _
  obtain ⟨hilt, rfl⟩ := List.getElem?_eq_some_iff.1 hi
  obtain ⟨hklt, rfl⟩ := List.getElem?_eq_some_iff.1 hk
  rcases Nat.lt_trichotomy i k with hlt | he | hlt
  · have hdiffer := List.pairwise_iff_getElem.1 hpairwise i k hilt hklt hlt
    exact absurd h (by simpa using hdiffer)
  · exact he
  · have hdiffer := List.pairwise_iff_getElem.1 hpairwise k i hklt hilt hlt
    rw [Text.sameName_comm] at h
    exact absurd h (by simpa using hdiffer)

theorem Descriptor.nodup_bound (schemas : List Schema) : ((bound schemas).map name).Nodup := by
  have hpairwise : (bound schemas).Pairwise fun a b => Text.sameName a.name b.name = false :=
    pairwise_firsts _
  rw [List.Nodup, List.pairwise_map]
  refine hpairwise.imp fun {a b} hdiffer he => ?_
  rw [he, Text.sameName_refl] at hdiffer
  cases hdiffer

/-- The key of a sub-attribute is longer than its name. -/
theorem Accessor.length_child_lt {i : Nat} {d : Descriptor} {key child : String}
    (h : (key, (⟨i, some child⟩ : Accessor)) ∈ ofDescriptor i d) : child.length < key.length := by
  have hcomposed (sub : Descriptor) (h : (key, (⟨i, some child⟩ : Accessor)) ∈
      (forms [d.name, sub.name]).map fun key => (key, (⟨i, some sub.name⟩ : Accessor))) :
      child.length < key.length := by
    obtain ⟨form, hform, he⟩ := List.mem_map.1 h
    cases he
    have hsnake := Text.length_le_snake sub.name
    have hdot : ".".length = 1 := rfl
    have hunderscore : "_".length = 1 := rfl
    rw [forms_path] at hform
    rcases List.mem_cons.1 hform with rfl | hform
    · rw [String.length_append, String.length_append, Text.length_lower, Text.length_lower]
      omega
    · obtain rfl := List.mem_singleton.1 hform
      rw [String.length_append, String.length_append]
      omega
  have hown (h : (key, (⟨i, some child⟩ : Accessor)) ∈
      (forms [d.name]).map fun key => (key, (⟨i, none⟩ : Accessor))) : child.length < key.length := by
    obtain ⟨_, -, he⟩ := List.mem_map.1 h
    cases he
  unfold ofDescriptor at h
  split at h
  · rcases List.mem_append.1 h with h | h
    · exact hown h
    · obtain ⟨sub, -, h⟩ := List.mem_flatMap.1 h
      exact hcomposed sub h
  · exact hown h

namespace Resource

variable {schemas : List Schema} {location : String} {r₀ r : Resource}

theorem attribute?_some {name : String} {a : Attribute} (h : r.attribute? name = some a) :
    ∃ accessor b, r.accessor? name = some accessor ∧ r.attributes[accessor.position]? = some b ∧
      ((accessor.child = none ∧ b = a) ∨
        ∃ child, accessor.child = some child ∧ b.child? child = some a) := by
  unfold attribute? at h
  split at h
  · rename_i accessor hacc
    split at h
    · rename_i b hb
      refine ⟨accessor, b, hacc, hb, ?_⟩
      split at h
      · exact .inr ⟨_, ‹_›, h⟩
      · exact .inl ⟨‹_›, Option.some.inj h⟩
    · cases h
  · cases h

theorem sameName_of_child? {a b : Attribute} {child : String} (h : b.child? child = some a) :
    Text.sameName a.name child = true := by
  unfold Attribute.child? at h
  split at h
  · rename_i c hc
    unfold Composite.find? at h
    split at h
    · rename_i i hi
      refine sameName_of_placeOf? hi ?_
      rw [List.getElem?_map, h]
      rfl
    · cases h
  · cases h

/-- An attribute that is found under its own name is so by itself: no path leads to a sub-attribute
under so short a key, and no two attributes have one name. -/
theorem accessor?_own (h : bind schemas location = .ok r₀)
    (hown : ∀ a ∈ r₀.attributes, r₀.attribute? a.name = some a) {i : Nat} {a : Attribute}
    (ha : r₀.attributes[i]? = some a) : r₀.accessor? a.name = some ⟨i, none⟩ := by
  have hbound := Bound.bind .settled h
  obtain ⟨⟨k, child⟩, b, hacc, hb, hfound⟩ := attribute?_some (hown a (List.mem_of_getElem? ha))
  rcases hfound with ⟨hnone, rfl⟩ | ⟨child, hchild, hfound⟩
  · have hdescriptor {k : Nat} (hb : r₀.attributes[k]? = some b) :
        (Descriptor.bound schemas)[k]? = some b.descriptor := by
      rw [← hbound.descriptors, List.getElem?_map, hb]
      rfl
    obtain rfl : i = k :=
      Descriptor.bound_position (hdescriptor ha) (hdescriptor hb) (Text.sameName_refl _)
    obtain rfl : child = none := hnone
    exact hacc
  · obtain rfl : _ = some child := hchild
    rw [hbound.accessor?_eq] at hacc
    obtain ⟨_, d, -, hmem⟩ := Accessor.mem_of_get?_table hacc
    obtain rfl := Accessor.position_ofDescriptor hmem
    have hlt := Accessor.length_child_lt hmem
    have hlen := congrArg String.length (Text.sameName_iff.1 (sameName_of_child? hfound))
    rw [Text.length_lower, Text.length_lower] at hlen
    rw [Text.length_lower] at hlt
    omega

/-- Attributes are found under their own names if the accessors lead from these to their places. -/
theorem attribute?_own (h : bind schemas location = .ok r₀)
    (htable : ∀ e ∈ (Descriptor.bound schemas).zipIdx,
      (Accessor.table (Descriptor.bound schemas)).get? (Text.lower e.1.name) = some ⟨e.2, none⟩) :
    ∀ a ∈ r₀.attributes, r₀.attribute? a.name = some a := by
  have hbound := Bound.bind .settled h
  intro a ha
  obtain ⟨i, hi⟩ := List.mem_iff_getElem?.1 ha
  have hd : (Descriptor.bound schemas)[i]? = some a.descriptor := by
    rw [← hbound.descriptors, List.getElem?_map, hi]
    rfl
  have hacc := hbound.accessor?_eq a.name
  rw [Attribute.name, htable (a.descriptor, i) (List.mem_zipIdx_iff_getElem?.2 hd)] at hacc
  rw [attribute?, Attribute.name, hacc]
  simp only [hi]

/-! ## Members of a document -/

/-- The names that mean something else in a document. -/
def reserved : List String := ["id", "externalId", "schemas", "meta"]

/-- Every attribute is reached under its own name, and none has a reserved one. -/
structure Own (r : Resource) : Prop where
  accessor : ∀ (i : Nat) (a : Attribute), r.attributes[i]? = some a →
    r.accessor? a.name = some ⟨i, none⟩
  free : ∀ a ∈ r.attributes, a.name ∉ reserved

/-- The attribute with the member of its name, if there is one. -/
def take (members : List (String × Json)) (a : Attribute) : Attribute :=
  (Entries.get? members a.name).elim a fun j => a.store true (.ofJson j)

/-- The resource with the members of a document, each in its place. -/
def filled (r : Resource) (members : List (String × Json)) : Resource :=
  { r with
    id := (Entries.get? members "id").elim r.id identifier?
    externalId := (Entries.get? members "externalId").elim r.externalId identifier?
    attributes := r.attributes.map (take members) }

theorem name_take (members : List (String × Json)) (a : Attribute) :
    (take members a).name = a.name := by
  unfold take
  cases Entries.get? members a.name <;> rfl

theorem Own.filled (h : r.Own) (members : List (String × Json)) : (r.filled members).Own := by
  refine ⟨fun i a ha => ?_, fun a ha => ?_⟩
  · have ha : (r.attributes.map (take members))[i]? = some a := ha
    rw [List.getElem?_map] at ha
    obtain ⟨b, hb, rfl⟩ := Option.map_eq_some_iff.1 ha
    rw [name_take]
    exact h.accessor i b hb
  · obtain ⟨b, hb, rfl⟩ := List.mem_map.1 ha
    rw [name_take]
    exact h.free b hb

theorem get?_cons (m : String × Json) (members : List (String × Json)) (key : String) :
    Entries.get? (m :: members) key = if key = m.1 then some m.2 else Entries.get? members key :=
  Entries.get?_cons m.1 m.2 members key

theorem get?_member (key : String) (j : Json) (k : String) :
    Entries.get? [(key, j)] k = if k = key then some j else none :=
  get?_cons (key, j) [] k

theorem take_of_ne {key : String} {j : Json} {a : Attribute} (h : a.name ≠ key) :
    take [(key, j)] a = a := by
  rw [take, get?_member, if_neg h]
  rfl

/-- A member goes to the one attribute of its name. -/
theorem Own.set_assign (h : r.Own) {i : Nat} {a : Attribute} (hi : r.attributes[i]? = some a)
    (j : Json) :
    r.attributes.set i (a.assign (.ofJson j)) = r.attributes.map (take [(a.name, j)]) := by
  apply List.ext_getElem?
  intro k
  rw [List.getElem?_map, List.getElem?_set]
  by_cases hk : i = k
  · subst hk
    rw [if_pos rfl, if_pos (List.getElem?_eq_some_iff.1 hi).1, hi, Option.map_some, take, get?_member,
      if_pos rfl]
    rfl
  · rw [if_neg hk]
    cases hb : r.attributes[k]? with
    | none => rfl
    | some b =>
      have hne : b.name ≠ a.name := by
        intro he
        have hacc := h.accessor k b hb
        rw [he, h.accessor i a hi] at hacc
        cases hacc
        exact hk rfl
      rw [Option.map_some, take_of_ne hne]

/-- One member fills the resource as a document with this member alone. -/
theorem Own.assignMember (h : r.Own) {m : String × Json}
    (hm : m.1 ∈ reserved ∨ ∃ a ∈ r.attributes, a.name = m.1) :
    r.assignMember m = r.filled [m] := by
  obtain ⟨key, j⟩ := m
  by_cases hkey : key ∈ reserved
  · have hkept : r.attributes.map (take [(key, j)]) = r.attributes := by
      conv => rhs; rw [← List.map_id r.attributes]
      refine List.map_congr_left fun a ha => take_of_ne ?_
      rintro rfl
      exact h.free a ha hkey
    unfold Resource.assignMember Resource.filled
    rw [hkept]
    simp only [get?_member]
    simp only [reserved, List.mem_cons, List.not_mem_nil, or_false] at hkey
    rcases hkey with rfl | rfl | rfl | rfl <;> rfl
  · obtain ⟨a, ha, rfl⟩ := hm.resolve_left hkey
    obtain ⟨i, hi⟩ := List.mem_iff_getElem?.1 ha
    simp only [reserved, List.mem_cons, List.not_mem_nil, or_false, not_or] at hkey
    obtain ⟨hid, hexternal, hschemas, hmeta⟩ := hkey
    unfold Resource.assignMember Resource.filled Resource.assign
    rw [visit_some (h.accessor i a hi) hi]
    simp only [get?_member, hid, hexternal, hschemas, hmeta, if_false, decide_false, Bool.or_self,
      Bool.false_eq_true, Ne.symm hid, Ne.symm hexternal, ← h.set_assign hi j]
    rfl

theorem take_take {m : String × Json} {members : List (String × Json)}
    (hm : m.1 ∉ members.map Prod.fst) (a : Attribute) :
    take members (take [m] a) = take (m :: members) a := by
  by_cases he : a.name = m.1
  · have hnone : Entries.get? members a.name = none := Entries.get?_eq_none (he ▸ hm)
    conv => lhs; rw [take, name_take, hnone]
    rw [take, take, get?_cons, get?_cons, if_pos he, if_pos he]
    rfl
  · rw [take_of_ne he, take, take, get?_cons, if_neg he]

theorem filled_filled {m : String × Json} {members : List (String × Json)}
    (hm : m.1 ∉ members.map Prod.fst) : (r.filled [m]).filled members = r.filled (m :: members) := by
  have hget {α : Type} (key : String) (f : Json → α) (old : α) :
      (Entries.get? members key).elim ((Entries.get? [m] key).elim old f) f =
        (Entries.get? (m :: members) key).elim old f := by
    by_cases he : key = m.1
    · rw [get?_cons, get?_cons, if_pos he, if_pos he, Entries.get?_eq_none (he ▸ hm)]
      rfl
    · rw [get?_cons, get?_cons, if_neg he, if_neg he]
      rfl
  unfold filled
  simp only [hget, List.map_map]
  congr 1
  exact List.map_congr_left fun a _ => take_take hm a

/-- **A document of names that are reached fills the resource member by member.** -/
theorem Own.foldl_assignMember (h : r.Own) {members : List (String × Json)}
    (hn : (members.map Prod.fst).Nodup)
    (hm : ∀ m ∈ members, m.1 ∈ reserved ∨ ∃ a ∈ r.attributes, a.name = m.1) :
    members.foldl Resource.assignMember r = r.filled members := by
  induction members generalizing r with
  | nil =>
    have htake : take [] = fun a => a := rfl
    rw [Resource.filled, htake, List.map_id']
    rfl
  | cons m members ih =>
    rw [List.map_cons, List.nodup_cons] at hn
    rw [List.foldl_cons, h.assignMember (hm m List.mem_cons_self),
      ih (h.filled [m]) hn.2 fun m' hm' => ?_, filled_filled hn.1]
    refine (hm m' (List.mem_cons_of_mem _ hm')).imp_right ?_
    rintro ⟨a, ha, hname⟩
    exact ⟨take [m] a, List.mem_map_of_mem ha, (name_take [m] a).trans hname⟩

/-! ## Runs of documents -/

/-- Filling leaves alone what documents do not say. -/
theorem frame_foldl (members : List (String × Json)) (r : Resource) :
    (members.foldl assignMember r).schemas = r.schemas ∧
      (members.foldl assignMember r).metadata = r.metadata ∧
      (members.foldl assignMember r).mode = r.mode := by
  induction members generalizing r with
  | nil => exact ⟨rfl, rfl, rfl⟩
  | cons m members ih =>
    have hstep : (r.assignMember m).schemas = r.schemas ∧ (r.assignMember m).metadata = r.metadata ∧
        (r.assignMember m).mode = r.mode := by
      unfold assignMember assign visit
      repeat' split
      all_goals exact ⟨rfl, rfl, rfl⟩
    obtain ⟨hs, hm, hmode⟩ := ih (r.assignMember m)
    exact ⟨hs.trans hstep.1, hm.trans hstep.2.1, hmode.trans hstep.2.2⟩

/-- What a run of documents keeps: the attributes show what settles, and the rest is as it was. -/
theorem foldlM_assignJson {K : Kept} {P : Value → Prop} (hK : K.Takes true P) {ds : List Descriptor}
    {documents : List Json}
    (hdocuments : ∀ j ∈ documents, ∃ members, j = .object members ∧ ∀ m ∈ members, P (.ofJson m.2))
    (h : r₀.Bound K ds) :
    ∃ r, documents.foldlM assignJson r₀ = .ok r ∧ r.Bound K ds ∧
      r.schemas = r₀.schemas ∧ r.metadata = r₀.metadata ∧ r.mode = r₀.mode := by
  induction documents generalizing r₀ with
  | nil => exact ⟨r₀, rfl, h, rfl, rfl, rfl⟩
  | cons j documents ih =>
    obtain ⟨members, rfl, hmembers⟩ := hdocuments j List.mem_cons_self
    obtain ⟨hs, hm, hmode⟩ := frame_foldl members r₀
    obtain ⟨r, hr, hbound, hs', hm', hmode'⟩ :=
      ih (fun j hj => hdocuments j (List.mem_cons_of_mem _ hj)) (h.assignMembers hK hmembers)
    refine ⟨r, ?_, hbound, hs'.trans hs, hm'.trans hm, hmode'.trans hmode⟩
    rw [List.foldlM_cons]
    exact hr

/-! ## What is shown -/

/-- The members of a resource besides those of its attributes. -/
def ownMembers (r : Resource) : List (String × Json) :=
  [("schemas", Json.array (r.schemas.map fun s => .string s.id))] ++
    (r.id.map fun id => ("id", Json.string id)).toList ++
    (r.externalId.map fun id => ("externalId", Json.string id)).toList

theorem content_eq (mode : Mode) (r : Resource) :
    r.content mode = Entries.ofList (r.ownMembers ++ Attribute.members mode r.attributes) := rfl

theorem keys_ownMembers (r : Resource) :
    (r.ownMembers.map Prod.fst).Sublist ["schemas", "id", "externalId"] := by
  unfold ownMembers
  cases r.id <;> cases r.externalId <;> simp

theorem reserved_of_mem_keys {key : String} (h : key ∈ r.ownMembers.map Prod.fst) :
    key ∈ reserved := by
  have hall : ∀ k ∈ ["schemas", "id", "externalId"], k ∈ reserved := by decide
  exact hall key ((keys_ownMembers r).subset h)

theorem get?_ownMembers (r : Resource) :
    (Entries.get? r.ownMembers "id").elim none identifier? = r.id ∧
      (Entries.get? r.ownMembers "externalId").elim none identifier? = r.externalId := by
  unfold ownMembers
  cases r.id <;> cases r.externalId <;> exact ⟨rfl, rfl⟩

/-- The members of the document that is shown. -/
def shown (r : Resource) : List (String × Json) :=
  Entries.insert "meta" r.metadata.toJson (r.content r.mode)

theorem toJson_eq (r : Resource) : r.toJson = .object r.shown := rfl

theorem mem_shown {m : String × Json} (hm : m ∈ r.shown) :
    m.1 ∈ reserved ∨ ∃ a ∈ r.attributes, a.name = m.1 := by
  rcases Entries.mem_update hm with ⟨hkey, -⟩ | hm
  · exact .inl (hkey ▸ by decide)
  · rcases List.mem_append.1 (Entries.mem_of_mem_ofList hm) with hm | hm
    · exact .inl (reserved_of_mem_keys (List.mem_map_of_mem hm))
    · obtain ⟨a, ha, hname, -⟩ := Attribute.mem_members hm
      exact .inr ⟨a, ha, hname⟩

theorem ascending_shown (r : Resource) : Entries.Ascending r.shown :=
  Entries.ascending_insert (Entries.ascending_ofList _)

theorem toJson_congr {s : Resource} (hown : s.ownMembers = r.ownMembers)
    (hmembers : Attribute.members s.mode s.attributes = Attribute.members r.mode r.attributes)
    (hmetadata : s.metadata = r.metadata) : s.toJson = r.toJson := by
  rw [toJson_eq, toJson_eq, shown, shown, content_eq, content_eq, hown, hmembers, hmetadata]

theorem Bound.names {K : Kept} {ds : List Descriptor} (h : r.Bound K ds) :
    r.attributes.map Attribute.name = ds.map Descriptor.name := by
  rw [← h.descriptors, List.map_map]
  rfl

/-- What one resource shows goes where another of the same attributes is reached. -/
theorem Bound.mem_shown {K : Kept} {ds : List Descriptor} {s : Resource} (h : r.Bound K ds)
    (hs : s.Bound K ds) {m : String × Json} (hm : m ∈ r.shown) :
    m.1 ∈ reserved ∨ ∃ a ∈ s.attributes, a.name = m.1 := by
  refine (Resource.mem_shown hm).imp_right fun ⟨a, ha, hname⟩ => ?_
  have hmem : a.name ∈ s.attributes.map Attribute.name := by
    rw [hs.names, ← h.names]
    exact List.mem_map_of_mem ha
  obtain ⟨b, hb, he⟩ := List.mem_map.1 hmem
  exact ⟨b, hb, he.trans hname⟩

/-- The names of attributes are distinct, and none is reserved. -/
structure Named (r : Resource) : Prop where
  free : ∀ a ∈ r.attributes, a.name ∉ reserved
  nodup : (r.attributes.map Attribute.name).Nodup

theorem Bound.named {K : Kept} (h : r.Bound K (Descriptor.bound schemas))
    (hfree : ∀ d ∈ Descriptor.bound schemas, d.name ∉ reserved) : r.Named := by
  refine ⟨fun a ha => hfree _ (h.descriptors ▸ List.mem_map_of_mem ha), ?_⟩
  rw [h.names]
  exact Descriptor.nodup_bound schemas

namespace Named

variable {mode : Mode}

theorem get?_members (h : r.Named) {key : String} (hkey : key ∈ reserved) :
    Entries.get? (Attribute.members mode r.attributes) key = none := by
  refine Entries.get?_eq_none fun hk => ?_
  obtain ⟨m, hm, rfl⟩ := List.mem_map.1 hk
  obtain ⟨a, ha, hname, -⟩ := Attribute.mem_members hm
  exact h.free a ha (hname ▸ hkey)

theorem get?_own (h : r.Named) {a : Attribute} (ha : a ∈ r.attributes) :
    Entries.get? r.ownMembers a.name = none :=
  Entries.get?_eq_none fun hk => h.free a ha (reserved_of_mem_keys hk)

/-- The members of a resource stand where they were put. -/
theorem get?_content (h : r.Named) (key : String) :
    Entries.get? (r.content mode) key = (Entries.get? r.ownMembers key).or
      (Entries.get? (Attribute.members mode r.attributes) key) := by
  rw [content_eq, Entries.get?_ofList, Entries.get?_append]
  rw [List.map_append, List.nodup_append]
  refine ⟨(keys_ownMembers r).nodup (by decide), Attribute.nodup_members mode h.nodup, ?_⟩
  rintro k hk _ hk' rfl
  obtain ⟨m, hm, rfl⟩ := List.mem_map.1 hk'
  obtain ⟨a, ha, hname, -⟩ := Attribute.mem_members hm
  exact h.free a ha (hname ▸ reserved_of_mem_keys hk)

theorem get?_shown (h : r.Named) {key : String} (hkey : key ≠ "meta") :
    Entries.get? r.shown key = (Entries.get? r.ownMembers key).or
      (Entries.get? (Attribute.members r.mode r.attributes) key) := by
  have hascending : Entries.Ascending (r.content r.mode) := Entries.ascending_ofList _
  rw [shown, Entries.get?_insert hascending, if_neg hkey, h.get?_content]

/-- Under the name of an attribute stands what it shows. -/
theorem get?_attribute (h : r.Named) (hmode : r.mode = .server) {a : Attribute}
    (ha : a ∈ r.attributes) : Entries.get? r.shown a.name = a.shown? := by
  have hmeta : a.name ≠ "meta" := fun he => h.free a ha (he ▸ by decide)
  rw [h.get?_shown hmeta, h.get?_own ha, Option.none_or, hmode, Attribute.get?_members h.nodup ha]
  rfl

/-- Under the other names stands what belongs to the resource itself. -/
theorem get?_reserved (h : r.Named) {key : String} (hkey : key ∈ reserved) (hmeta : key ≠ "meta") :
    Entries.get? r.shown key = Entries.get? r.ownMembers key := by
  rw [h.get?_shown hmeta, h.get?_members hkey, Option.or_none]

end Named

/-! ## Main result -/

/-- A new resource that takes what another shows has its attributes, each of which was assigned what it
showed. -/
theorem attributes_filled {K : Kept} {ds : List Descriptor} (hr : r.Bound K ds) (h : r.Named)
    (hmode : r.mode = .server) :
    (ds.map Attribute.bind).map (take r.shown) = r.attributes.map Attribute.again := by
  rw [← hr.descriptors, List.map_map, List.map_map]
  refine List.map_congr_left fun a ha => ?_
  have hname : (Attribute.bind a.descriptor).name = a.name := by
    rw [Attribute.name, Attribute.descriptor_bind]
    rfl
  simp only [Function.comp_apply, take, hname, h.get?_attribute hmode ha, Attribute.again]

theorem Named.id_filled (h : r.Named) {fresh : Resource} (hid : fresh.id = none) :
    (fresh.filled r.shown).id = r.id := by
  show (Entries.get? r.shown "id").elim fresh.id identifier? = r.id
  rw [h.get?_reserved (by decide) (by decide), hid, r.get?_ownMembers.1]

theorem toJson_filled {ds : List Descriptor} (hr : r.Bound .settled ds) (h : r.Named)
    (hmode : r.mode = .server) (hdistinct : ∀ d ∈ ds, d.Distinct) {fresh : Resource}
    (hattributes : fresh.attributes = ds.map Attribute.bind) (hid : fresh.id = none)
    (hexternal : fresh.externalId = none) (hschemas : r.schemas = fresh.schemas)
    (hmetadata : r.metadata = fresh.metadata) (hserver : r.mode = fresh.mode) :
    (fresh.filled r.shown).toJson = r.toJson := by
  have hexternal' : (fresh.filled r.shown).externalId = r.externalId := by
    show (Entries.get? r.shown "externalId").elim fresh.externalId identifier? = r.externalId
    rw [h.get?_reserved (by decide) (by decide), hexternal, r.get?_ownMembers.2]
  have hownMembers : (fresh.filled r.shown).ownMembers = r.ownMembers := by
    unfold ownMembers
    rw [h.id_filled hid, hexternal', hschemas]
    rfl
  have hsettles (a : Attribute) (ha : a ∈ r.attributes) :
      a.descriptor.Settles (a.content.render .server a.descriptor) :=
    (hr.shaped a ha).settles (hdistinct _ (hr.descriptors ▸ List.mem_map_of_mem ha))
  refine toJson_congr hownMembers ?_ hmetadata.symm
  show Attribute.members fresh.mode (fresh.attributes.map (take r.shown)) = _
  rw [hattributes, attributes_filled hr h hmode, ← hserver, hmode, Attribute.members_again hsettles]

/-- What a run of documents leaves is shown as a document that goes into a new resource member by
member. -/
theorem exists_filled {K : Kept} (hK : K.Takes true fun v => ∃ j : Json, j.Words ∧ v = .ofJson j)
    (h : bind schemas location = .ok r₀) (hfree : ∀ d ∈ Descriptor.bound schemas, d.name ∉ reserved)
    (hown : ∀ a ∈ r₀.attributes, r₀.attribute? a.name = some a) {documents : List Json}
    (hdocuments : ∀ j ∈ documents, (∃ members, j = .object members) ∧ j.Words) :
    ∃ r, documents.foldlM assignJson r₀ = .ok r ∧ r.Bound K (Descriptor.bound schemas) ∧
      r.schemas = r₀.schemas ∧ r.metadata = r₀.metadata ∧ r.mode = r₀.mode ∧
      r₀.assignJson r.toJson = .ok (r₀.filled r.shown) := by
  have hbound := Bound.bind K h
  have hwords (j : Json) (hj : j ∈ documents) : ∃ members, j = .object members ∧
      ∀ m ∈ members, ∃ k : Json, k.Words ∧ Value.ofJson m.2 = .ofJson k := by
    obtain ⟨⟨members, rfl⟩, hw⟩ := hdocuments j hj
    cases hw with
    | object hmembers => exact ⟨members, rfl, fun m hm => ⟨m.2, hmembers m hm, rfl⟩⟩
  obtain ⟨r, hr, hkept, hschemas, hmetadata, hmode⟩ := foldlM_assignJson hK hwords hbound
  have hfresh : r₀.Own := ⟨fun i a ha => accessor?_own h hown ha, (hbound.named hfree).free⟩
  refine ⟨r, hr, hkept, hschemas, hmetadata, hmode, ?_⟩
  rw [toJson_eq, assignJson, hfresh.foldl_assignMember r.ascending_shown.nodup fun m hm =>
    hkept.mem_shown hbound hm]

/-- **Documents survive rendering.** A resource that was filled from any documents shows one that fills
a new resource so that it shows the same. -/
theorem toJson_assignJson_toJson (hne : schemas ≠ [])
    (hdistinct : ∀ d ∈ Descriptor.bound schemas, d.Distinct)
    (hfree : ∀ d ∈ Descriptor.bound schemas, d.name ∉ reserved)
    (hown : ∀ r₀, bind schemas location = .ok r₀ → ∀ a ∈ r₀.attributes, r₀.attribute? a.name = some a)
    (documents : List Json) (hdocuments : ∀ j ∈ documents, (∃ members, j = .object members) ∧ j.Words) :
    ∃ r₀, bind schemas location = .ok r₀ ∧ ∃ r, documents.foldlM assignJson r₀ = .ok r ∧
      ∃ r₂, r₀.assignJson r.toJson = .ok r₂ ∧ r₂.toJson = r.toJson := by
  obtain ⟨r₀, h⟩ := exists_bind hne location
  obtain ⟨r, hr, hkept, hschemas, hmetadata, hserver, hfilled⟩ :=
    exists_filled .settled h hfree (hown r₀ h) hdocuments
  obtain ⟨hattributes, hid, hexternal, hmode⟩ := fresh_of_bind h
  refine ⟨r₀, h, r, hr, r₀.filled r.shown, hfilled, ?_⟩
  exact toJson_filled hkept (hkept.named hfree) (hserver.trans hmode) hdistinct hattributes hid
    hexternal hschemas hmetadata hserver

/-- A schema of a person's account. -/
def account : Schema :=
  { Schema.new "urn:account" "Account" "/Schemas/Account" with
    attributes := [.new "userName" .string, .new "lastLogin" .dateTime,
      (Descriptor.new "name" .complex).addSub (.new "familyName" .string)] }

theorem bound_account : Descriptor.bound [account] = account.attributes := by decide +kernel

/-- An account that is given a number as its name and a text in place of an object. -/
theorem toJson_assignJson_account :
    ∃ r₀, bind [account] "/Accounts/1" = .ok r₀ ∧ ∃ r,
      [Json.object [("id", .string "1"), ("lastLogin", .string "2024-02-29"), ("name", .string "none"),
        ("userName", .integer 7)]].foldlM assignJson r₀ = .ok r ∧
      ∃ r₂, r₀.assignJson r.toJson = .ok r₂ ∧ r₂.toJson = r.toJson := by
  have leaf {name : String} {datatype : DataType} : (Descriptor.new name datatype).Distinct :=
    .intro List.nodup_nil nofun
  have hdistinct : ∀ d ∈ Descriptor.bound [account], d.Distinct := by
    rw [bound_account]
    simp only [account, List.mem_cons, List.not_mem_nil, or_false]
    rintro d (rfl | rfl | rfl)
    · exact leaf
    · exact leaf
    · exact .intro (by decide) fun sub hsub => List.mem_singleton.1 hsub ▸ leaf
  have hfree : ∀ d ∈ Descriptor.bound [account], d.name ∉ reserved := by
    rw [bound_account]
    decide
  have hown (r₀ : Resource) (h : bind [account] "/Accounts/1" = .ok r₀) :
      ∀ a ∈ r₀.attributes, r₀.attribute? a.name = some a := by
    refine attribute?_own h ?_
    rw [bound_account]
    decide +kernel
  refine toJson_assignJson_toJson (by simp) hdistinct hfree hown _ ?_
  simp only [List.mem_singleton]
  rintro j rfl
  refine ⟨⟨_, rfl⟩, .object ?_⟩
  simp only [List.mem_cons, List.not_mem_nil, or_false]
  rintro m (rfl | rfl | rfl | rfl)
  · exact .string _
  · exact .string _
  · exact .string _
  · exact .integer (by decide) (by decide)

end Resource

end Scim
