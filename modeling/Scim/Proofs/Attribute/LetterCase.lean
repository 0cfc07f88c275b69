import Mathlib.Data.List.Nodup
import Scim.Proofs.Attribute.Representation
import Scim.Proofs.Table

/-!
# Letter case of keys

`Value.Respelled d v w`: the values differ only in how they write the names of sub-attributes, capital or
small, in the objects that an attribute of `d` takes apart. An attribute stores the same for both
(`Attribute.assign_respelled`), if no two sub-attributes have one name in any case. Other letters change
the order of the members, but each sub-attribute has its own (`placeOf?_eq_some_iff`), and the keys that
are not declared stay in ascending order (`Descriptor.undeclared_respelled`).
-/

set_option autoImplicit false

namespace Scim

/-! ## Names that differ in any case -/

/-- No two sub-attributes have one name in any letter case, at any level. -/
inductive Descriptor.CaseDistinct : Descriptor → Prop
  | intro {d : Descriptor} : (d.names.map Text.lower).Nodup →
      (∀ sub ∈ d.subAttributes, CaseDistinct sub) → CaseDistinct d

section
variable {names : List String} {key : String}

/-- A key leads to the one name that it spells. -/
theorem placeOf?_eq_some_iff (h : (names.map Text.lower).Nodup) {i : Nat} :
    placeOf? names key = some i ↔ ∃ n, names[i]? = some n ∧ Text.sameName n key = true := by
  constructor
  · intro hi
    obtain ⟨n, hn⟩ : ∃ n, names[i]? = some n := ⟨_, List.getElem?_eq_getElem (placeOf?_lt hi)⟩
    exact ⟨n, hn, sameName_of_placeOf? hi hn⟩
  · rintro ⟨n, hn, hsame⟩
    cases hj : placeOf? names key with
    | none =>
      rw [sameName_of_placeOf?_none hj n (List.mem_of_getElem? hn)] at hsame
      cases hsame
    | some j =>
      obtain ⟨m, hm⟩ : ∃ m, names[j]? = some m := ⟨_, List.getElem?_eq_getElem (placeOf?_lt hj)⟩
      have hlower : Text.lower m = Text.lower n :=
        (Text.sameName_iff.1 (sameName_of_placeOf? hj hm)).trans (Text.sameName_iff.1 hsame).symm
      have hlt : j < (names.map Text.lower).length := by simpa using placeOf?_lt hj
      have heq : (names.map Text.lower)[j]? = (names.map Text.lower)[i]? := by
        rw [List.getElem?_map, List.getElem?_map, hm, hn, Option.map_some, Option.map_some, hlower]
      rw [(List.getElem?_inj hlt h).1 heq]

/-- The key of a member counts only up to letter case. -/
theorem placeOf?_congr (h : (names.map Text.lower).Nodup) {key' : String}
    (hsame : Text.sameName key key' = true) : placeOf? names key = placeOf? names key' := by
  refine Option.ext fun i => ?_
  rw [placeOf?_eq_some_iff h, placeOf?_eq_some_iff h]
  refine exists_congr fun n => and_congr_right fun _ => ?_
  rw [Text.sameName_iff, Text.sameName_iff, Text.sameName_iff.1 hsame]

end

/-! ## Values whose keys are written differently -/

/-- The values differ only in the case of the keys that name sub-attributes. In an object the members of
one key, written either way, have values that differ so for the sub-attribute of the key; a member
that goes to none is the same. An object in a list is as one that stands alone. -/
inductive Value.Respelled : Descriptor → Value → Value → Prop
  | same (d : Descriptor) (v : Value) : Respelled d v v
  | object {d : Descriptor} {es fs : List (String × Value)} :
      d.isComplex = true → d.multiValued = false →
      (∀ e ∈ es, ∃ f ∈ fs, Text.sameName e.1 f.1 = true) →
      (∀ f ∈ fs, ∃ e ∈ es, Text.sameName e.1 f.1 = true) →
      (∀ e ∈ es, ∀ f ∈ fs, Text.sameName e.1 f.1 = true → ∀ sub ∈ d.subAttributes,
        Text.sameName sub.name e.1 = true → Respelled sub e.2 f.2) →
      (∀ e ∈ es, ∀ f ∈ fs, Text.sameName e.1 f.1 = true →
        (∀ sub ∈ d.subAttributes, Text.sameName sub.name e.1 = false) → e = f) →
      Respelled d (.map es) (.map fs)
  | list {d : Descriptor} {vs ws : List Value} :
      d.isComplex = true → d.multiValued = true → vs.length = ws.length →
      (∀ (i : Nat) (v w : Value), vs[i]? = some v → ws[i]? = some w →
        Respelled { d with multiValued := false } v w) →
      Respelled d (.list vs) (.list ws)

/-! ## Objects -/

section
variable {d : Descriptor} {es fs : List (String × Value)}
  (hd : (d.names.map Text.lower).Nodup)
  (hthere : ∀ e ∈ es, ∃ f ∈ fs, Text.sameName e.1 f.1 = true)
  (hback : ∀ f ∈ fs, ∃ e ∈ es, Text.sameName e.1 f.1 = true)
include hd hthere hback

/-- A key that is not declared is written the same, so these keys stay in their order. -/
theorem Descriptor.undeclared_respelled (hes : Entries.Ascending es) (hfs : Entries.Ascending fs)
    (hother : ∀ e ∈ es, ∀ f ∈ fs, Text.sameName e.1 f.1 = true →
      (∀ sub ∈ d.subAttributes, Text.sameName sub.name e.1 = false) → e = f) :
    d.undeclared es = d.undeclared fs := by
  have hkept (entries : List (String × Value)) : d.undeclared entries =
      (entries.filter fun e => (placeOf? d.names e.1).isNone).map Prod.fst := by
    rw [Descriptor.undeclared, List.filter_map]
    rfl
  have hnames {e : String × Value} (h : placeOf? d.names e.1 = none) :
      ∀ sub ∈ d.subAttributes, Text.sameName sub.name e.1 = false :=
    fun sub hsub => placeOf?_eq_none_iff.1 h _ (List.mem_map_of_mem hsub)
  rw [hkept, hkept]
  congr 1
  refine Entries.Ascending.eq_of_mem_iff (hes.filter _) (hfs.filter _) fun e => ?_
  simp only [List.mem_filter, Option.isNone_iff_eq_none]
  constructor
  · rintro ⟨he, hnone⟩
    obtain ⟨f, hf, hsame⟩ := hthere e he
    obtain rfl := hother e he f hf hsame (hnames hnone)
    exact ⟨hf, hnone⟩
  · rintro ⟨hf, hnone⟩
    obtain ⟨e', he, hsame⟩ := hback e hf
    obtain rfl := hother e' he e hf hsame (hnames ((placeOf?_congr hd hsame).trans hnone))
    exact ⟨he, hnone⟩

/-- The members that lead to a sub-attribute leave the same in it, written either way. -/
theorem Composite.routed_respelled {coerced : Bool} {i : Nat} {sub : Descriptor}
    (hi : d.subAttributes[i]? = some sub)
    (hsub : ∀ e ∈ es, ∀ f ∈ fs, Text.sameName e.1 f.1 = true →
      Text.sameName sub.name e.1 = true →
        Content.ofValue coerced sub e.2 = Content.ofValue coerced sub f.2) :
    ((routed? d.names i es).elim (.bind sub) fun v => (Attribute.bind sub).store coerced v) =
      (routed? d.names i fs).elim (.bind sub) fun v => (Attribute.bind sub).store coerced v := by
  have hname := Descriptor.getElem?_names hi
  cases hes : routed? d.names i es with
  | none =>
    cases hfs : routed? d.names i fs with
    | none => rfl
    | some w =>
      obtain ⟨key, hf, hplace⟩ := mem_of_routed? hfs
      obtain ⟨e, he, hsame⟩ := hback _ hf
      obtain ⟨v, hv⟩ := exists_routed? he ((placeOf?_congr hd hsame).trans hplace)
      rw [hes] at hv
      cases hv
  | some v =>
    obtain ⟨key, he, hplace⟩ := mem_of_routed? hes
    obtain ⟨f, hf, hsame⟩ := hthere _ he
    obtain ⟨w, hw⟩ := exists_routed? hf ((placeOf?_congr hd hsame).symm.trans hplace)
    obtain ⟨key', hf', hplace'⟩ := mem_of_routed? hw
    have hspells := sameName_of_placeOf? hplace hname
    have hspells' := sameName_of_placeOf? hplace' hname
    have hkeys : Text.sameName key key' = true := by
      rw [Text.sameName_comm] at hspells
      exact Text.sameName_trans hspells hspells'
    rw [hw]
    show (Attribute.bind sub).withContent (.ofValue coerced _ v) =
      (Attribute.bind sub).withContent (.ofValue coerced _ w)
    rw [Attribute.descriptor_bind, hsub _ he _ hf' hkeys hspells]

theorem Composite.route_respelled {coerced : Bool} (hes : Entries.Ascending es)
    (hfs : Entries.Ascending fs)
    (hsubs : ∀ e ∈ es, ∀ f ∈ fs, Text.sameName e.1 f.1 = true → ∀ sub ∈ d.subAttributes,
      Text.sameName sub.name e.1 = true →
        Content.ofValue coerced sub e.2 = Content.ofValue coerced sub f.2)
    (hother : ∀ e ∈ es, ∀ f ∈ fs, Text.sameName e.1 f.1 = true →
      (∀ sub ∈ d.subAttributes, Text.sameName sub.name e.1 = false) → e = f) :
    route coerced (bind d) es = route coerced (bind d) fs := by
  refine ext (List.ext_getElem? fun i => ?_) ?_
  · rw [getElem?_route_bind, getElem?_route_bind]
    cases hi : d.subAttributes[i]? with
    | none => rfl
    | some sub =>
      exact congrArg some (routed_respelled hd hthere hback hi fun e he f hf hsame =>
        hsubs e he f hf hsame sub (List.mem_of_getElem? hi))
  · rw [undeclared_route_bind, undeclared_route_bind]
    exact Descriptor.undeclared_respelled hd hthere hback hes hfs hother

end

/-! ## Main result -/

theorem Content.ofValue_respelled (coerced : Bool) {d : Descriptor} (hd : d.CaseDistinct)
    {v w : Value} (hv : v.Ascending) (hw : w.Ascending) (h : v.Respelled d w) :
    ofValue coerced d v = ofValue coerced d w := by
  induction d using Descriptor.induct generalizing v w with
  | step d ih =>
    obtain ⟨hnames, hsubs⟩ := hd
    -- an object that stands alone, or one in a list
    have objects {es fs : List (String × Value)} (hes : (Value.map es).Ascending)
        (hfs : (Value.map fs).Ascending)
        (h : Value.Respelled { d with multiValued := false } (.map es) (.map fs)) :
        Composite.route coerced (.bind d) es = Composite.route coerced (.bind d) fs := by
      rw [Value.ascending_map_iff] at hes hfs
      cases h with
      | same => rfl
      | object hc hm hthere hback hdeclared hother =>
        refine Composite.route_respelled hnames hthere hback hes.1 hfs.1 ?_ hother
        intro e he f hf hsame sub hsub hname
        exact ih sub hsub (hsubs sub hsub) (hes.2 e he) (hfs.2 f hf)
          (hdeclared e he f hf hsame sub hsub hname)
    have elements {v w : Value} (hv : v.Ascending) (hw : w.Ascending)
        (h : v.Respelled { d with multiValued := false } w) :
        Item.ofValue coerced d v = Item.ofValue coerced d w := by
      cases h with
      | same => rfl
      | object hc hm hthere hback hdeclared hother =>
        exact congrArg Item.object (objects hv hw (.object hc hm hthere hback hdeclared hother))
      | list hc hm => cases hm
    cases h with
    | same => rfl
    | @object _ es fs hc hm hthere hback hdeclared hother =>
      rw [ofValue_object hc hm, ofValue_object hc hm]
      exact congrArg object (objects hv hw (.object hc rfl hthere hback hdeclared hother))
    | @list _ vs ws hc hm hlength helement =>
      rw [Value.ascending_list_iff] at hv hw
      rw [ofValue_items hc hm, ofValue_items hc hm]
      congr 1
      apply List.ext_getElem?
      intro i
      rw [List.getElem?_map, List.getElem?_map]
      cases hvi : vs[i]? with
      | none => rw [List.getElem?_eq_none (hlength ▸ List.getElem?_eq_none_iff.1 hvi)]
      | some v =>
        obtain ⟨w, hwi⟩ : ∃ w, ws[i]? = some w :=
          ⟨_, List.getElem?_eq_getElem (hlength ▸ (List.getElem?_eq_some_iff.1 hvi).1)⟩
        rw [hwi]
        exact congrArg some (elements (hv v (List.mem_of_getElem? hvi))
          (hw w (List.mem_of_getElem? hwi)) (helement i v w hvi hwi))

/-- **Keys are the same in any letter case**, at every depth: values that differ only in the case of keys
that name sub-attributes leave an attribute in the same state, whether they are coerced or not. -/
theorem Attribute.assign_respelled (a : Attribute) (hd : a.descriptor.CaseDistinct) {v w : Value}
    (hv : v.Ascending) (hw : w.Ascending) (h : v.Respelled a.descriptor w) :
    a.assign v = a.assign w ∧ a.assignUncoerced v = a.assignUncoerced w := by
  have hstore (coerced : Bool) : a.store coerced v = a.store coerced w :=
    congrArg a.withContent (Content.ofValue_respelled coerced hd hv hw h)
  exact ⟨hstore true, hstore false⟩

/-- A street in another place, as its key starts with a small letter, in a list of addresses. A key that
is not declared is kept as it is written. -/
theorem Attribute.assign_respelled_addresses :
    let place : Descriptor := (Descriptor.new "place" .complex).addSub (.new "street" .string)
    let addresses : Descriptor := { ((Descriptor.new "addresses" .complex).addSub place).addSub
      (.new "kind" .string) with multiValued := true }
    let v : Value := .list [.map [("KIND", .text "home"), ("Zone", .null),
      ("place", .map [("STREET", .integer 7)])], .text "x"]
    let w : Value := .list [.map [("PLACE", .map [("street", .integer 7)]), ("Zone", .null),
      ("kind", .text "home")], .text "x"]
    addresses.CaseDistinct ∧ v.Ascending ∧ w.Ascending ∧ v.Respelled addresses w ∧
      (bind addresses).assign v = (bind addresses).assign w ∧
      (bind addresses).assignUncoerced v = (bind addresses).assignUncoerced w := by
  intro place addresses v w
  have hdistinct : addresses.CaseDistinct := by
    have leaf {sub : Descriptor} (h : sub.subAttributes = []) : sub.CaseDistinct :=
      .intro (by simp [Descriptor.names, h]) (by simp [h])
    refine .intro (by decide) fun sub hsub => ?_
    rcases List.mem_pair.1 hsub with rfl | rfl
    · exact .intro (by decide) fun sub hsub => List.mem_singleton.1 hsub ▸ leaf rfl
    · exact leaf rfl
  have hv : v.Ascending := by
    simp only [v, Value.Ascending, Value.AscendingAll, Value.AscendingEntries, Entries.Ascending]
    decide
  have hw : w.Ascending := by
    simp only [w, Value.Ascending, Value.AscendingAll, Value.AscendingEntries, Entries.Ascending]
    decide
  have hplace : Value.Respelled place (.map [("STREET", .integer 7)]) (.map [("street", .integer 7)]) := by
    refine .object rfl rfl (by decide) (by decide) ?_ ?_
    · intro e he f hf _ sub _ _
      rw [List.mem_singleton.1 he, List.mem_singleton.1 hf]
      exact .same sub _
    · intro e he f hf _ hother
      rw [List.mem_singleton.1 he] at hother
      exact absurd (hother _ List.mem_cons_self) (by decide)
  have hrespelled : v.Respelled addresses w := by
    refine .list rfl rfl rfl fun i x y hx hy => ?_
    rcases i with _ | _ | i
    · cases hx
      cases hy
      refine .object rfl rfl (by decide) (by decide) ?_ ?_
      all_goals
        intro e he f hf hsame
        simp only [List.mem_cons, List.not_mem_nil, or_false] at he hf
      · intro sub hsub hname
        rcases he with rfl | rfl | rfl
        · rcases hf with rfl | rfl | rfl
          · exact absurd hsame (by decide)
          · exact absurd hsame (by decide)
          · exact .same _ _
        · rcases List.mem_pair.1 hsub with rfl | rfl <;> exact absurd hname (by decide)
        · rcases List.mem_pair.1 hsub with rfl | rfl
          · rcases hf with rfl | rfl | rfl
            · exact hplace
            · exact absurd hsame (by decide)
            · exact absurd hsame (by decide)
          · exact absurd hname (by decide)
      · intro hother
        rcases he with rfl | rfl | rfl
        · exact absurd (hother _ (List.mem_cons_of_mem _ List.mem_cons_self)) (by decide)
        · rcases hf with rfl | rfl | rfl
          · exact absurd hsame (by decide)
          · rfl
          · exact absurd hsame (by decide)
        · exact absurd (hother _ List.mem_cons_self) (by decide)
    · cases hx
      cases hy
      exact .same _ _
    · cases hx
  obtain ⟨hassign, hgiven⟩ := assign_respelled (bind addresses) (by simpa using hdistinct) hv hw
    (by simpa using hrespelled)
  exact ⟨hdistinct, hv, hw, hrespelled, hassign, hgiven⟩

end Scim
