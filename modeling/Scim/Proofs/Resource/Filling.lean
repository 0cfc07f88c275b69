import Scim.Proofs.Resource.Document
import Scim.Proofs.Resource.Update

/-!
# Filling from a document

What a document does to a resource, said at once and not member by member (`foldl_assignMember`): every
attribute is given the members that lead to it or to one of its sub-attributes, in their order, and the
rest is left alone. A document that is assigned twice does what it does once (`assignJson_assignJson`).
The reason is `Attribute.foldl_fill_fill`: a member for the attribute itself makes all that was before
count for nothing, and without one the members go to the sub-attributes of one object, each of which
keeps the last (`Composite.route_route`).
-/

set_option autoImplicit false

namespace Scim

/-! ## Members for the sub-attributes of an object -/

namespace Composite

/-- Declared members that are assigned twice leave what they leave once. -/
theorem route_route {coerced : Bool} {c : Composite} {entries : List (String × Value)}
    (h : ∀ e ∈ entries, (Scim.placeOf? c.names e.1).isSome = true) :
    route coerced (route coerced c entries) entries = route coerced c entries := by
  have hkeys : ((entries.map Prod.fst).filter fun key => (Scim.placeOf? c.names key).isNone) = [] := by
    rw [List.filter_eq_nil_iff, List.forall_mem_map]
    intro e he hnone
    rw [Option.isNone_iff_eq_none] at hnone
    have := h e he
    simp [hnone] at this
  refine ext ?_ ?_
  · apply List.ext_getElem?
    intro i
    rw [attributes_route, names_route, attributes_route, Option.map_map]
    congr 1
    funext a
    cases routed? c.names i entries with
    | none => rfl
    | some v => exact Attribute.store_store coerced v v a
  · rw [undeclared_route, names_route, hkeys, List.append_nil]

/-- Assigns a value to the sub-attribute of a name, if there is one. -/
def put (c : Composite) (e : String × Value) : Composite :=
  match Scim.placeOf? c.names e.1 with
  | some i => c.modify i (Attribute.store true e.2)
  | none => c

theorem foldl_put (entries : List (String × Value)) (c : Composite) :
    entries.foldl put c =
      route true c (entries.filter fun e => (Scim.placeOf? c.names e.1).isSome) := by
  induction entries generalizing c with
  | nil => rw [List.foldl_nil, List.filter_nil, route]
  | cons e entries ih =>
    obtain ⟨key, v⟩ := e
    rw [List.foldl_cons, ih, List.filter_cons]
    cases h : Scim.placeOf? c.names key with
    | none => simp [put, h]
    | some i =>
      have hput : c.put (key, v) = c.modify i (Attribute.store true v) := by simp [put, h]
      rw [hput, names_store, if_pos (by simp), route_cons_some h]

theorem foldl_put_put (entries : List (String × Value)) (c : Composite) :
    entries.foldl put (entries.foldl put c) = entries.foldl put c := by
  rw [foldl_put entries c, foldl_put, names_route]
  exact route_route fun e he => (List.mem_filter.1 he).2

end Composite

/-! ## Members for an attribute -/

namespace Attribute

/-- Takes a member of a document, for the attribute itself or for one of its sub-attributes. -/
def fill (a : Attribute) (member : Option String × Value) : Attribute :=
  (a.visit (fun b => ((), b.assign member.2)) member.1.toList).2

theorem fill_none (a : Attribute) (v : Value) : a.fill (none, v) = a.assign v := by
  simp only [fill, Option.toList_none, visit]

theorem fill_other {a : Attribute} (h : (a.descriptor.isComplex && !a.descriptor.multiValued) = false)
    (name : String) (v : Value) : a.fill (some name, v) = a := by
  rw [fill, Option.toList_some, visit_cons_other h]

/-- A sub-attribute is filled in the object that is held, or in a new one. -/
theorem fill_some {a : Attribute} (h : (a.descriptor.isComplex && !a.descriptor.multiValued) = true)
    (name : String) (v : Value) :
    a.fill (some name, v) = a.withContent (.object (a.opened.put (name, v))) := by
  rw [fill, Option.toList_some, Composite.put]
  cases hi : placeOf? a.opened.names name with
  | none => rw [visit_cons_none h hi]
  | some i =>
    obtain ⟨child, -, hc⟩ := Composite.find?_some hi
    have hmodify : (a.opened.modify i fun _ => child.store true v) =
        a.opened.modify i (Attribute.store true v) := by
      refine Composite.ext (List.ext_getElem? fun j => ?_) rfl
      show (a.opened.attributes.modify i _)[j]? = (a.opened.attributes.modify i _)[j]?
      rw [List.getElem?_modify, List.getElem?_modify]
      by_cases hj : i = j
      · subst hj
        rw [hc]
        rfl
      · simp [hj]
    rw [visit_cons_some h hi hc]
    exact congrArg (fun c => a.withContent (.object c)) hmodify

/-- Nothing but the content changes. -/
theorem exists_foldl_fill (members : List (Option String × Value)) (a : Attribute) :
    ∃ content, members.foldl fill a = a.withContent content := by
  induction members generalizing a with
  | nil => exact ⟨a.content, a.withContent_content.symm⟩
  | cons member members ih =>
    obtain ⟨first, hfirst⟩ : ∃ content, a.fill member = a.withContent content := by
      obtain ⟨child, v⟩ := member
      cases child with
      | none => exact ⟨_, fill_none a v⟩
      | some name =>
        cases h : a.descriptor.isComplex && !a.descriptor.multiValued with
        | false => exact ⟨a.content, (fill_other h name v).trans a.withContent_content.symm⟩
        | true => exact ⟨_, fill_some h name v⟩
    obtain ⟨content, hcontent⟩ := ih (a.fill member)
    refine ⟨content, ?_⟩
    rw [List.foldl_cons, hcontent, hfirst]
    rfl

/-- Members for sub-attributes only fill one object. -/
theorem foldl_fill_children {a : Attribute}
    (h : (a.descriptor.isComplex && !a.descriptor.multiValued) = true)
    (e : String × Value) (entries : List (String × Value)) :
    ((e :: entries).map fun e => (some e.1, e.2)).foldl fill a =
      a.withContent (.object ((e :: entries).foldl Composite.put a.opened)) := by
  induction entries generalizing a e with
  | nil => exact fill_some h e.1 e.2
  | cons e' entries ih =>
    rw [List.map_cons, List.foldl_cons, fill_some h]
    exact ih (a := a.withContent (.object (a.opened.put e))) h e'

/-- Where sub-attributes cannot be, members for them do nothing. -/
theorem foldl_fill_other {a : Attribute}
    (h : (a.descriptor.isComplex && !a.descriptor.multiValued) = false)
    (entries : List (String × Value)) : (entries.map fun e => (some e.1, e.2)).foldl fill a = a := by
  induction entries with
  | nil => rfl
  | cons e entries ih => rw [List.map_cons, List.foldl_cons, fill_other h, ih]

theorem exists_children {members : List (Option String × Value)} (h : ∀ v, (none, v) ∉ members) :
    ∃ entries : List (String × Value), members = entries.map fun e => (some e.1, e.2) := by
  induction members with
  | nil => exact ⟨[], rfl⟩
  | cons member members ih =>
    obtain ⟨child, v⟩ := member
    cases child with
    | none => exact absurd List.mem_cons_self (h v)
    | some name =>
      obtain ⟨entries, rfl⟩ := ih fun v hv => h v (List.mem_cons_of_mem _ hv)
      exact ⟨(name, v) :: entries, rfl⟩

/-- **Members that are taken twice leave what they leave once**, whatever the attribute holds. -/
theorem foldl_fill_fill (members : List (Option String × Value)) (a : Attribute) :
    members.foldl fill (members.foldl fill a) = members.foldl fill a := by
  by_cases hwhole : ∃ v, (none, v) ∈ members
  · -- what the attribute held before the member for itself does not count
    obtain ⟨v, hv⟩ := hwhole
    obtain ⟨before, after, rfl⟩ := List.append_of_mem hv
    have hfrom (b : Attribute) :
        (before ++ (none, v) :: after).foldl fill b = after.foldl fill (b.assign v) := by
      obtain ⟨content, hcontent⟩ := exists_foldl_fill before b
      rw [List.foldl_append, List.foldl_cons, fill_none, hcontent]
      rfl
    obtain ⟨content, hcontent⟩ := exists_foldl_fill (before ++ (none, v) :: after) a
    conv => lhs; rw [hcontent]
    rw [hfrom, hfrom]
    rfl
  · obtain ⟨entries, rfl⟩ := exists_children fun v hv => hwhole ⟨v, hv⟩
    cases entries with
    | nil => rfl
    | cons e entries =>
      cases h : a.descriptor.isComplex && !a.descriptor.multiValued with
      | false => rw [foldl_fill_other h, foldl_fill_other h]
      | true =>
        rw [foldl_fill_children h, foldl_fill_children (a := a.withContent _) h]
        show a.withContent (.object ((e :: entries).foldl Composite.put
          ((e :: entries).foldl Composite.put a.opened))) = _
        rw [Composite.foldl_put_put]

end Attribute

/-! ## Members for a resource -/

namespace Resource

variable {r : Resource}

/-- Resources that agree in their attributes, one by one, and in all else. -/
theorem eq_of_attributes {r s : Resource} (h : ∀ i : Nat, r.attributes[i]? = s.attributes[i]?)
    (hrest : { r with attributes := [] } = { s with attributes := [] }) : r = s := by
  have hattributes : r.attributes = s.attributes := List.ext_getElem? h
  obtain ⟨id, externalId, metadata, schemas, attributes, accessors, mode, report⟩ := r
  cases hattributes
  cases hrest
  rfl

/-- What a member of a document is for the attribute at a position, if it is something for it. -/
def memberFor? (r : Resource) (i : Nat) (member : String × Json) : Option (Option String × Value) :=
  if member.1 ∈ reserved then none
  else (r.accessor? member.1).bind fun accessor =>
    if accessor.position = i then some (accessor.child, .ofJson member.2) else none

/-- An identifier after a document; of two members with one key the last gives it. -/
def identifierAfter (members : List (String × Json)) (key : String) (before : Option String) :
    Option String :=
  (Entries.get? members.reverse key).elim before identifier?

/-- The resource after a document. -/
def after (r : Resource) (members : List (String × Json)) : Resource :=
  { r with
    id := identifierAfter members "id" r.id
    externalId := identifierAfter members "externalId" r.externalId
    attributes := r.attributes.mapIdx fun i a => (members.filterMap (r.memberFor? i)).foldl .fill a }

theorem identifierAfter_append (members more : List (String × Json)) (key : String)
    (before : Option String) : identifierAfter more key (identifierAfter members key before) =
      identifierAfter (members ++ more) key before := by
  unfold identifierAfter
  rw [List.reverse_append, Entries.get?_append]
  cases Entries.get? more.reverse key <;> rfl

theorem identifierAfter_idem (members : List (String × Json)) (key : String)
    (before : Option String) : identifierAfter members key (identifierAfter members key before) =
      identifierAfter members key before := by
  unfold identifierAfter
  cases Entries.get? members.reverse key <;> rfl

theorem identifierAfter_of_notMem {members : List (String × Json)} {key : String}
    (h : key ∉ members.map Prod.fst) (before : Option String) :
    identifierAfter members key before = before := by
  have hnone : Entries.get? members.reverse key = none :=
    Entries.get?_eq_none (by simpa using h)
  rw [identifierAfter, hnone]
  rfl

theorem getElem?_after (r : Resource) (members : List (String × Json)) (i : Nat) :
    (r.after members).attributes[i]? =
      r.attributes[i]?.map fun a => (members.filterMap (r.memberFor? i)).foldl .fill a :=
  List.getElem?_mapIdx

/-- What leads to an attribute before a document leads there after it. -/
theorem memberFor?_after (r : Resource) (members : List (String × Json)) :
    (r.after members).memberFor? = r.memberFor? := rfl

/-- Documents one after the other do what the members of all of them do in one. -/
theorem after_after (r : Resource) (members more : List (String × Json)) :
    (r.after members).after more = r.after (members ++ more) := by
  refine eq_of_attributes (fun i => ?_) ?_
  · rw [getElem?_after, getElem?_after, getElem?_after, memberFor?_after, Option.map_map,
      List.filterMap_append]
    congr 1
    funext a
    exact List.foldl_append.symm
  · simp only [after, identifierAfter_append]

theorem after_idem (r : Resource) (members : List (String × Json)) :
    (r.after members).after members = r.after members := by
  refine eq_of_attributes (fun i => ?_) ?_
  · rw [getElem?_after, getElem?_after, memberFor?_after, Option.map_map]
    congr 1
    funext a
    exact Attribute.foldl_fill_fill _ a
  · simp only [after, identifierAfter_idem]

/-- A member with no other meaning is taken by the attribute to which it leads, and by no other. -/
theorem getElem?_assign {name : String} (h : name ∉ reserved) (j : Json) (i : Nat) :
    (r.assign name (.ofJson j)).2.attributes[i]? =
      r.attributes[i]?.map fun a => ([(name, j)].filterMap (r.memberFor? i)).foldl .fill a := by
  have hmember : [(name, j)].filterMap (r.memberFor? i) = (r.memberFor? i (name, j)).toList := by
    rw [List.filterMap_cons]
    cases r.memberFor? i (name, j) <;> rfl
  rw [hmember, memberFor?, if_neg h, assign]
  cases hacc : r.accessor? name with
  | none => simp [visit_none hacc]
  | some accessor =>
    cases ha : r.attributes[accessor.position]? with
    | none =>
      have hi : ∀ a, r.attributes[i]? = some a → accessor.position ≠ i := by
        rintro a hget rfl
        rw [ha] at hget
        cases hget
      rw [visit_out hacc ha]
      cases hget : r.attributes[i]? with
      | none => rfl
      | some a => simp [hi a hget]
    | some a =>
      rw [visit_some hacc ha]
      show (r.attributes.set accessor.position (a.fill (accessor.child, .ofJson j)))[i]? = _
      by_cases hi : accessor.position = i
      · subst hi
        rw [List.getElem?_set_self (List.getElem?_eq_some_iff.1 ha).1, ha]
        simp
      · rw [List.getElem?_set_ne hi]
        simp [hi]

theorem assignMember_eq (r : Resource) (m : String × Json) : r.assignMember m = r.after [m] := by
  obtain ⟨key, j⟩ := m
  have hidentifier (k : String) (before : Option String) :
      identifierAfter [(key, j)] k before = if k = key then identifier? j else before := by
    rw [identifierAfter, List.reverse_singleton, Entries.get?_cons]
    split <;> rfl
  by_cases hkey : key ∈ reserved
  · have hmember (i : Nat) : [(key, j)].filterMap (r.memberFor? i) = [] := by
      simp [memberFor?, hkey]
    refine eq_of_attributes (fun i => ?_) ?_
    · rw [getElem?_after, hmember]
      simp only [reserved, List.mem_cons, List.not_mem_nil, or_false] at hkey
      rcases hkey with rfl | rfl | rfl | rfl <;> simp [assignMember]
    · simp only [after, hidentifier]
      simp only [reserved, List.mem_cons, List.not_mem_nil, or_false] at hkey
      rcases hkey with rfl | rfl | rfl | rfl <;> rfl
  · have hassign : r.assignMember (key, j) = (r.assign key (.ofJson j)).2 := by
      simp only [reserved, List.mem_cons, List.not_mem_nil, or_false, not_or] at hkey
      simp [assignMember, hkey]
    rw [hassign]
    refine eq_of_attributes (fun i => ?_) ?_
    · rw [getElem?_after, getElem?_assign hkey]
    · simp only [reserved, List.mem_cons, List.not_mem_nil, or_false, not_or] at hkey
      simp only [after, hidentifier, Ne.symm hkey.1, Ne.symm hkey.2.1, if_false]
      unfold assign visit
      repeat' split
      all_goals rfl

/-- **A document fills the resource at once**: what it does is said for each attribute by itself. -/
theorem foldl_assignMember (members : List (String × Json)) (r : Resource) :
    members.foldl assignMember r = r.after members := by
  induction members generalizing r with
  | nil =>
    refine eq_of_attributes (fun i => ?_) rfl
    rw [getElem?_after]
    simp
  | cons m members ih =>
    rw [List.foldl_cons, ih, assignMember_eq, after_after]
    rfl

/-! ## Main result -/

/-- The second resource differs from the first only by what the members of a document lead to. -/
structure FilledBy (r : Resource) (members : List (String × Json)) (s : Resource) : Prop where
  id : "id" ∉ members.map Prod.fst → s.id = r.id
  externalId : "externalId" ∉ members.map Prod.fst → s.externalId = r.externalId
  metadata : s.metadata = r.metadata
  schemas : s.schemas = r.schemas
  accessors : s.accessors = r.accessors
  mode : s.mode = r.mode
  report : s.report = r.report
  size : s.attributes.length = r.attributes.length
  others : ∀ i : Nat, (∀ m ∈ members, m.1 ∉ reserved → ∀ accessor, r.accessor? m.1 = some accessor →
    accessor.position ≠ i) → s.attributes[i]? = r.attributes[i]?

theorem filledBy_after (r : Resource) (members : List (String × Json)) :
    r.FilledBy members (r.after members) where
  id h := identifierAfter_of_notMem h r.id
  externalId h := identifierAfter_of_notMem h r.externalId
  metadata := rfl
  schemas := rfl
  accessors := rfl
  mode := rfl
  report := rfl
  size := List.length_mapIdx
  others i h := by
    have hnone : members.filterMap (r.memberFor? i) = [] := by
      rw [List.filterMap_eq_nil_iff]
      intro m hm
      rw [memberFor?]
      split
      · rfl
      · rename_i hfree
        cases hacc : r.accessor? m.1 with
        | none => rfl
        | some accessor => simp [h m hm hfree accessor hacc]
    rw [getElem?_after, hnone]
    simp

/-- **A document fills a resource once and for all**, in whatever state the resource is and however
many of its members lead to one attribute: assigned again it changes nothing more. What no member leads
to is as it was before. What is no document is refused and changes nothing. -/
theorem assignJson_assignJson (r : Resource) :
    (∀ members, ∃ s, r.assignJson (.object members) = .ok s ∧
      s.assignJson (.object members) = .ok s ∧ r.FilledBy members s) ∧
    ∀ j, (∀ members, j ≠ .object members) →
      r.assignJson j = .error (.invalidDocument "resource document must be a JSON object") ∧
        (Operation.assignJson j).apply r = r := by
  constructor
  · intro members
    refine ⟨r.after members, ?_, ?_, r.filledBy_after members⟩
    · rw [assignJson, foldl_assignMember]
    · rw [assignJson, foldl_assignMember, after_idem]
  · intro j hj
    cases j with
    | object members => exact absurd rfl (hj members)
    | _ => exact ⟨rfl, rfl⟩

/-- A document with a name as a whole, once more as a text, and in parts before and after it. The text
counts for more than the part before it and gives way to the part behind it; the title stays. -/
theorem assignJson_assignJson_named :
    let members : List (String × Json) := [("NAME.familyName", .integer 7), ("id", .string "1"),
      ("name", .string "Ann Lee"), ("name.givenName", .string "Ann")]
    ∃ r₀ s, bind [named] "/Named/1" = .ok r₀ ∧ r₀.assignJson (.object members) = .ok s ∧
      s.assignJson (.object members) = .ok s ∧
      s.get "name" = .ok (.map [("givenName", .text "Ann")]) ∧
      s.attributes[0]? = r₀.attributes[0]? ∧
      r₀.assignJson (.array []) =
        .error (.invalidDocument "resource document must be a JSON object") := by
  intro members
  obtain ⟨r₀, h⟩ := @exists_bind [named] (by simp) "/Named/1"
  obtain ⟨hobject, hother⟩ := assignJson_assignJson r₀
  obtain ⟨s, hs, hagain, hfilled⟩ := hobject members
  have hleads : ∀ m ∈ members, m.1 ∉ reserved → ∀ accessor, r₀.accessor? m.1 = some accessor →
      accessor.position ≠ 0 := by
    cases h
    decide +kernel
  have hget : s.get "name" = .ok (.map [("givenName", .text "Ann")]) := by
    cases h
    cases hs
    rfl
  exact ⟨r₀, s, h, hs, hagain, hget, hfilled.others 0 hleads, (hother (.array []) nofun).1⟩

end Resource

end Scim
