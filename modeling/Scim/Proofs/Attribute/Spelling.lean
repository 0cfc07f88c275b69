import Mathlib.Data.List.Basic
import Scim.Proofs.Attribute.Routing
import Scim.Proofs.Table

/-!
# Members of one sub-attribute

Several members of an object may lead to one sub-attribute, as their keys differ in the case of
letters only. The last of them in the order of the keys leaves its state
(`Composite.attributes_last`), whatever the others are. So the member whose key is written like the
name does not stand for its sake: capitals come before small letters, and `givenname` comes after
`givenName`. It stands exactly if no other that leads there comes after it, or the last one leaves
the same (`Attribute.assign_written_iff`).
-/

set_option autoImplicit false

namespace Scim

/-! ## Objects in values and in what is stored -/

/-- The value is an object with the members, or a list that has one at a position. -/
inductive Value.Has : Value → Option Nat → List (String × Value) → Prop
  | object (entries : List (String × Value)) : Has (.map entries) none entries
  | element {items : List Value} {m : Nat} {entries : List (String × Value)} :
      items[m]? = some (.map entries) → Has (.list items) (some m) entries

/-- The content is an object, or a list that has one at a position. -/
inductive Content.Has : Content → Option Nat → Composite → Prop
  | object (c : Composite) : Has (.object c) none c
  | element {items : List Item} {m : Nat} {c : Composite} :
      items[m]? = some (.object c) → Has (.items items) (some m) c

/-- Objects are taken apart where they stand. -/
theorem Content.has_ofValue {coerced : Bool} {d : Descriptor} (hc : d.isComplex = true)
    {m : Option Nat} (hm : d.multiValued = m.isSome) {v : Value} {entries : List (String × Value)}
    (hv : v.Has m entries) :
    (ofValue coerced d v).Has m (.route coerced (.bind d) entries) := by
  cases hv with
  | object entries =>
    rw [ofValue_object hc hm]
    exact .object _
  | @element items m _ hget =>
    rw [ofValue_items hc hm]
    refine .element ?_
    rw [List.getElem?_map, hget]
    rfl

/-! ## The last member -/

/-- The last of the members that lead to the sub-attribute at a place. -/
structure Descriptor.Last (d : Descriptor) (i : Nat) (entries : List (String × Value))
    (e : String × Value) : Prop where
  mem : e ∈ entries
  leads : placeOf? d.names e.1 = some i
  after : ∀ e' ∈ entries, e.1 < e'.1 → placeOf? d.names e'.1 ≠ some i

namespace Descriptor

variable {d : Descriptor} {i : Nat} {entries : List (String × Value)}

theorem Last.cons {e e' : String × Value} (h : Entries.Ascending (e' :: entries))
    (hlast : d.Last i entries e) : d.Last i (e' :: entries) e := by
  refine ⟨List.mem_cons_of_mem _ hlast.mem, hlast.leads, fun x hx hlt => ?_⟩
  rcases List.mem_cons.1 hx with rfl | hx
  · exact absurd (Entries.lt_of_mem h e hlast.mem) (String.lt_asymm hlt)
  · exact hlast.after x hx hlt

/-- If the last member of all leads to the place, it is the last that does. -/
theorem Last.eq_of_concat {before : List (String × Value)} {e last : String × Value}
    (hlast : d.Last i (before ++ [e]) last) (h : Entries.Ascending (before ++ [e]))
    (hleads : placeOf? d.names e.1 = some i) : last = e := by
  rcases List.mem_append.1 hlast.mem with hbefore | he
  · have hlt := (List.pairwise_append.1 h).2.2 last hbefore e List.mem_cons_self
    exact absurd hleads (hlast.after e (List.mem_append_right _ List.mem_cons_self) hlt)
  · exact List.mem_singleton.1 he

/-- Where a member leads to the place, there is a last one, and its value is what is routed there.
-/
theorem exists_last (h : Entries.Ascending entries) {e : String × Value} (he : e ∈ entries)
    (hi : placeOf? d.names e.1 = some i) :
    ∃ last, d.Last i entries last ∧ routed? d.names i entries = some last.2 := by
  induction entries generalizing e with
  | nil => cases he
  | cons head rest ih =>
    cases hrest : routed? d.names i rest with
    | some v =>
      obtain ⟨key, hmem, hplace⟩ := mem_of_routed? hrest
      obtain ⟨last, hlast, hvalue⟩ := ih h.tail hmem hplace
      exact ⟨last, hlast.cons h, by rw [routed?, hvalue, Option.some_or]⟩
    | none =>
      have hother : ∀ x ∈ rest, placeOf? d.names x.1 ≠ some i := by
        intro x hx hplace
        obtain ⟨v, hv⟩ := exists_routed? hx hplace
        rw [hrest] at hv
        cases hv
      rcases List.mem_cons.1 he with rfl | hmem
      · refine ⟨e, ⟨List.mem_cons_self, hi, fun x hx hlt => ?_⟩, ?_⟩
        · rcases List.mem_cons.1 hx with rfl | hx
          · exact absurd hlt (String.lt_irrefl _)
          · exact hother x hx
        · rw [routed?, hrest, hi, if_pos rfl, Option.none_or]
      · exact absurd hi (hother e hmem)

end Descriptor

/-- The last member that leads to a sub-attribute leaves its state. -/
theorem Composite.attributes_last {coerced : Bool} {d sub : Descriptor} {i : Nat}
    {entries : List (String × Value)} (hsub : d.subAttributes[i]? = some sub) {v : Value}
    (hv : routed? d.names i entries = some v) :
    (route coerced (bind d) entries).attributes[i]? =
      some ((Attribute.bind sub).store coerced v) := by
  rw [getElem?_route_bind, hsub, hv]
  rfl

/-! ## Main result -/

namespace Attribute

variable {a : Attribute} {v w : Value} {m : Option Nat} {entries : List (String × Value)} {i : Nat}
  {sub : Descriptor}

/-- **When the member that is written like a name stands.** An object that is assigned, alone or in
a list, leaves the first sub-attribute of a name in the state of a new one to which the last of the
members that lead to it is assigned. If the object has a member written exactly like the name, it is
this member's state exactly if no other of them comes after it, or the last of them leaves the same.
-/
theorem assign_written_iff (hc : a.descriptor.isComplex = true)
    (hm : a.descriptor.multiValued = m.isSome) (hv : v.Has m entries)
    (hordered : Entries.Ascending entries) (hsub : a.descriptor.subAttributes[i]? = some sub)
    (hfirst : ∀ j < i, ∀ s, a.descriptor.subAttributes[j]? = some s → s.name ≠ sub.name)
    (hw : (sub.name, w) ∈ entries) :
    ∃ c last, (a.assign v).content.Has m c ∧ a.descriptor.Last i entries last ∧
      c.attributes[i]? = some ((bind sub).assign last.2) ∧
      (c.attributes[i]? = some ((bind sub).assign w) ↔
        last.1 = sub.name ∨ (bind sub).assign last.2 = (bind sub).assign w) := by
  have hplace := Descriptor.placeOf?_of_first hsub hfirst
  obtain ⟨last, hlast, hvalue⟩ := Descriptor.exists_last hordered hw hplace
  have hstate : (Composite.route true (.bind a.descriptor) entries).attributes[i]? =
      some ((bind sub).assign last.2) := Composite.attributes_last hsub hvalue
  refine ⟨_, last, Content.has_ofValue hc hm hv, hlast, hstate, ?_⟩
  rw [hstate, Option.some_inj]
  constructor
  · exact .inr
  · intro h
    rcases h with hname | he
    · obtain ⟨key, x⟩ := last
      obtain rfl : key = sub.name := hname
      rw [Entries.Ascending.eq_of_mem hordered hlast.mem hw]
    · exact he

/-- Of three spellings of a name in a list's first object the one in small letters comes last, so
the member that is written like the name is lost. In the second object it comes after the one in
capitals, and stands. -/
theorem assign_written_aliases :
    let givenName : Descriptor := .new "givenName" .string
    let aliases : Descriptor :=
      { (Descriptor.new "aliases" .complex).addSub givenName with multiValued := true }
    let one : List (String × Value) := [("GIVENNAME", .text "B")]
    let two := one ++ [("givenName", .text "Barbara")]
    let three := two ++ [("givenname", .text "Babs")]
    let a := (bind aliases).assign (.list [.map three, .map two])
    ∃ c c', a.content.Has (some 0) c ∧ a.content.Has (some 1) c' ∧
      c.attributes[0]? = some ((bind givenName).assign (.text "Babs")) ∧
      c.attributes[0]? ≠ some ((bind givenName).assign (.text "Barbara")) ∧
      c'.attributes[0]? = some ((bind givenName).assign (.text "Barbara")) := by
  intro givenName aliases one two three a
  have hcomplex : (bind aliases).descriptor.isComplex = true := by simp; rfl
  have hseveral (m : Nat) : (bind aliases).descriptor.multiValued = (some m).isSome := by simp; rfl
  have hgiven : (bind aliases).descriptor.subAttributes[0]? = some givenName := by simp; rfl
  have hnone_before : ∀ j < 0, ∀ s, (bind aliases).descriptor.subAttributes[j]? = some s →
      s.name ≠ givenName.name := fun j hj => absurd hj (Nat.not_lt_zero j)
  have htwo : Entries.Ascending two := by
    simp only [two, one, Entries.Ascending, List.cons_append, List.nil_append]
    decide
  have hthree : Entries.Ascending three := by
    simp only [three, two, one, Entries.Ascending, List.cons_append, List.nil_append]
    decide
  obtain ⟨c, last, hhas, hlast, hstate, hiff⟩ := assign_written_iff
    (v := .list [.map three, .map two]) (w := .text "Barbara") hcomplex (hseveral 0) (.element rfl)
    hthree hgiven hnone_before (.tail _ (.head _))
  obtain ⟨c', last', hhas', hlast', -, hiff'⟩ := assign_written_iff
    (v := .list [.map three, .map two]) (w := .text "Barbara") hcomplex (hseveral 1) (.element rfl)
    htwo hgiven hnone_before (.tail _ (.head _))
  have hleads (key : String) (hkey : placeOf? ["givenName"] key = some 0) :
      placeOf? (bind aliases).descriptor.names key = some 0 := by
    rw [descriptor_bind]
    exact hkey
  obtain rfl : last = ("givenname", .text "Babs") :=
    hlast.eq_of_concat hthree (hleads _ (by decide))
  obtain rfl : last' = ("givenName", .text "Barbara") :=
    hlast'.eq_of_concat htwo (hleads _ (by decide))
  refine ⟨c, c', hhas, hhas', hstate, fun he => ?_, hiff'.2 (.inl rfl)⟩
  rcases hiff.1 he with hname | hsame
  · exact absurd hname (by decide)
  · have hcontent := congrArg Attribute.content hsame
    rw [assign, assign, content_store, content_store, Content.ofValue_simple (by simp; rfl),
      Content.ofValue_simple (by simp; rfl)] at hcontent
    have htext : Value.text "Babs" = .text "Barbara" := Content.plain.inj hcontent
    simp at htext

end Attribute

end Scim
