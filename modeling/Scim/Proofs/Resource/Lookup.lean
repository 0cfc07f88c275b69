import Scim.Proofs.Resource.Accessor
import Scim.Proofs.Resource.Run

/-!
# Attributes under their names

`Resource.StandsFor r name p`: under `name` the attribute at the place `p` is read and worked on.
Under its own name an attribute is reached exactly if no attribute before it has the name among its
forms, and a sub-attribute under its path exactly if, besides, no sub-attribute before it has its name
(`bound_names_reach_iff`). The forms of an earlier attribute win over the name of a later one: where
`userName` and `user_name` are declared in this order, both names stand for the first
(`bound_names_shadowed`).
-/

set_option autoImplicit false

namespace Scim

/-- Where an attribute stands: at the top of a resource, or in the object that one there holds. -/
structure Place where
  position : Nat
  child : Option Nat

namespace Resource

def at? (r : Resource) (p : Place) : Option Attribute :=
  match r.attributes[p.position]? with
  | none => none
  | some a =>
    match p.child with
    | none => some a
    | some i =>
      match a.content with
      | .object c => c.attributes[i]?
      | _ => none

/-- The resource with another attribute at a place. -/
def put (r : Resource) (p : Place) (b : Attribute) : Resource :=
  match r.attributes[p.position]? with
  | none => r
  | some a =>
    match p.child with
    | none => r.withAttribute p.position b
    | some i => r.withAttribute p.position (a.withContent (.object (a.opened.modify i fun _ => b)))

/-- A name stands for an attribute: it is the one that is read, and the one that all work is done on. -/
def StandsFor (r : Resource) (name : String) (p : Place) : Prop :=
  ∃ a, r.at? p = some a ∧ r.attribute? name = some a ∧
    ∀ (α : Type) (f : Attribute → α × Attribute),
      r.visit f name = (some (f a).1, r.put p (f a).2)

/-! ## Places -/

section
variable {r : Resource} {p : Place} {i k m : Nat} {a b : Attribute} {c : Composite}

theorem at?_top (ha : r.attributes[i]? = some a) : r.at? ⟨i, none⟩ = some a := by
  simp only [at?, ha]

theorem at?_child (ha : r.attributes[i]? = some a) (hc : a.content = .object c) :
    r.at? ⟨i, some k⟩ = c.attributes[k]? := by
  simp only [at?, ha, hc]

/-- What stands at a place depends on its position only. -/
theorem at?_congr {s : Resource} (h : s.attributes[p.position]? = r.attributes[p.position]?) :
    s.at? p = r.at? p := by
  rw [at?, h]
  rfl

theorem attributes_withAttribute (ha : r.attributes[i]? = some a) :
    (r.withAttribute i b).attributes[i]? = some b := by
  obtain ⟨hi, -⟩ := List.getElem?_eq_some_iff.1 ha
  show (r.attributes.set i b)[i]? = some b
  simp [hi]

theorem put_child (ha : r.attributes[i]? = some a) (hc : a.content = .object c) :
    r.put ⟨i, some k⟩ b = r.withAttribute i (a.withContent (.object (c.modify k fun _ => b))) := by
  simp only [put, ha, Attribute.opened, hc]

theorem at?_put_child (ha : r.attributes[i]? = some a) (hc : a.content = .object c) :
    (r.put ⟨i, some k⟩ b).at? ⟨i, some m⟩ = if k = m then c.attributes[m]?.map fun _ => b
      else c.attributes[m]? := by
  rw [put_child ha hc, at?_child (attributes_withAttribute ha) rfl]
  show (c.attributes.modify k _)[m]? = _
  rw [List.getElem?_modify]
  by_cases h : k = m <;> simp [h]

theorem at?_put (ha : r.at? p = some a) : (r.put p b).at? p = some b := by
  obtain ⟨i, child⟩ := p
  cases h : r.attributes[i]? with
  | none =>
    simp only [at?, h] at ha
    cases ha
  | some top =>
    cases child with
    | none =>
      have hput : r.put ⟨i, none⟩ b = r.withAttribute i b := by simp only [put, h]
      rw [hput]
      exact at?_top (attributes_withAttribute h)
    | some k =>
      cases hc : top.content with
      | object c =>
        rw [at?_child h hc] at ha
        rw [at?_put_child h hc, if_pos rfl, ha]
        rfl
      | plain v =>
        simp only [at?, h, hc] at ha
        cases ha
      | items items =>
        simp only [at?, h, hc] at ha
        cases ha

end

/-! ## What a name stands for -/

section
variable {r : Resource} {name : String} {i k m : Nat} {a : Attribute} {c : Composite}

theorem StandsFor.top (h : r.accessor? name = some ⟨i, none⟩) (ha : r.attributes[i]? = some a) :
    r.StandsFor name ⟨i, none⟩ := by
  refine ⟨a, at?_top ha, ?_, fun α f => ?_⟩
  · simp only [attribute?, h, ha]
  · rw [visit_some h ha]
    simp only [put, ha]
    rfl

theorem StandsFor.child {sub : String} (h : r.accessor? name = some ⟨i, some sub⟩)
    (ha : r.attributes[i]? = some a)
    (hd : (a.descriptor.isComplex && !a.descriptor.multiValued) = true)
    (hc : a.content = .object c) (hk : placeOf? c.names sub = some k) :
    r.StandsFor name ⟨i, some k⟩ := by
  obtain ⟨child, hf, hget⟩ := Composite.find?_some hk
  have hopened := Attribute.opened_object hc
  have hchild : a.child? sub = some child := by rw [Attribute.child?_object hc, hf]
  refine ⟨child, ?_, ?_, fun α f => ?_⟩
  · rw [at?_child ha hc]
    exact hget
  · simp only [attribute?, h, ha]
    exact hchild
  · have hvisit : a.visit f [sub] = (some (f child).1,
        a.withContent (.object (c.modify k fun _ => (f child).2))) := by
      rw [Attribute.visit_cons_some hd (by rw [hopened]; exact hk) (by rw [hopened]; exact hget),
        hopened]
      rfl
    rw [visit_some h ha, put_child ha hc]
    show ((a.visit f [sub]).1, r.withAttribute i (a.visit f [sub]).2) = _
    rw [hvisit]

/-- An attribute that differs from a given one, to see where work is done. -/
def mark (a : Attribute) : Attribute :=
  .mk { a.descriptor with required := !a.descriptor.required } a.content a.report

theorem mark_ne (a : Attribute) : mark a ≠ a := by
  intro h
  have h : (!a.descriptor.required) = a.descriptor.required :=
    congrArg (fun b : Attribute => b.descriptor.required) h
  cases hr : a.descriptor.required <;> rw [hr] at h <;> cases h

/-- Work under a name is done at the position that the name leads to. -/
theorem StandsFor.position {p : Place} (h : r.StandsFor name p) {accessor : Accessor}
    (hacc : r.accessor? name = some accessor) : accessor.position = p.position := by
  refine Decidable.byContradiction fun hne => ?_
  obtain ⟨a, ha, -, hvisit⟩ := h
  have hvisit := congrArg Prod.snd (hvisit Unit fun b => ((), mark b))
  have hkept : (r.visit (fun b => ((), mark b)) name).2.attributes[p.position]? =
      r.attributes[p.position]? := by
    cases htop : r.attributes[accessor.position]? with
    | none => rw [visit_out hacc htop]
    | some top =>
      rw [visit_some hacc htop]
      exact List.getElem?_set_ne hne
  have hsame := at?_congr (p := p) hkept
  rw [hvisit, at?_put ha, ha] at hsame
  exact mark_ne a (Option.some.inj hsame)

/-- A name stands for one sub-attribute only. -/
theorem StandsFor.child_unique (ha : r.attributes[i]? = some a) (hc : a.content = .object c)
    (h : r.StandsFor name ⟨i, some k⟩) (h' : r.StandsFor name ⟨i, some m⟩) : k = m := by
  refine Decidable.byContradiction fun hne => ?_
  obtain ⟨b, hb, -, hvisit⟩ := h
  obtain ⟨b', hb', -, hvisit'⟩ := h'
  have hput : r.put ⟨i, some k⟩ (mark b) = r.put ⟨i, some m⟩ (mark b') :=
    congrArg Prod.snd ((hvisit Unit fun b => ((), mark b)).symm.trans (hvisit' Unit _))
  have hsame := congrArg (at? · ⟨i, some m⟩) hput
  simp only [at?_put hb', at?_put_child ha hc, if_neg hne] at hsame
  rw [at?_child ha hc] at hb'
  rw [hb'] at hsame
  exact mark_ne b' (Option.some.inj hsame).symm

end

/-! ## The names of bound attributes -/

/-- The sub-attribute that a name leads to is the first of its name, and is found under its own. -/
theorem place_sub? {d sub : Descriptor} {name : String} (h : d.sub? name = some sub) :
    ∃ k, d.subAttributes[k]? = some sub ∧ placeOf? d.names sub.name = some k ∧
      ∀ j < k, ∀ s, d.subAttributes[j]? = some s → Text.sameName s.name name = false := by
  obtain ⟨hsub, k, hk, hget, hbefore⟩ := List.find?_eq_some_iff_getElem.1 h
  have hfirst (j : Nat) (hj : j < k) (s : Descriptor) (hs : d.subAttributes[j]? = some s) :
      Text.sameName s.name name = false := by
    obtain ⟨-, rfl⟩ := List.getElem?_eq_some_iff.1 hs
    simpa using hbefore j hj
  have hget : d.subAttributes[k]? = some sub := List.getElem?_eq_some_iff.2 ⟨hk, hget⟩
  refine ⟨k, hget, Descriptor.placeOf?_of_first hget fun j hj s hs hname => ?_, hfirst⟩
  have hother := hfirst j hj s hs
  rw [hname, hsub] at hother
  cases hother

variable {K : Kept} {ds : List Descriptor} {r : Resource}

theorem Bound.attribute_at (h : r.Bound K ds) {i : Nat} {d : Descriptor} (hd : ds[i]? = some d) :
    ∃ a, r.attributes[i]? = some a ∧ a.descriptor = d := by
  rw [← h.descriptors, List.getElem?_map] at hd
  exact Option.map_eq_some_iff.1 hd

/-- An object is held where one is declared, with the sub-attributes that are. -/
theorem Bound.declares_object (h : r.Bound K ds) {i : Nat} {a : Attribute} {c : Composite}
    (ha : r.attributes[i]? = some a) (hc : a.content = .object c) :
    (a.descriptor.isComplex && !a.descriptor.multiValued) = true ∧ c.names = a.descriptor.names := by
  have hs := h.shaped a (List.mem_of_getElem? ha)
  rw [Attribute.Shaped, hc] at hs
  cases hs with
  | object hcomplex hm hd _ _ =>
    rw [hcomplex, hm, Composite.names_of_descriptors hd]
    exact ⟨rfl, rfl⟩

/-- A name that an attribute before has among its forms stands for no other. -/
theorem Bound.not_standsFor (h : r.Bound K ds) {i : Nat} {child : Option Nat} {name : String}
    (htaken : Accessor.Taken ds i (Text.lower name)) : ¬ r.StandsFor name ⟨i, child⟩ := by
  intro hs
  obtain ⟨accessor, hget, hlt⟩ := Accessor.get?_table_taken htaken
  have hp : accessor.position = i := hs.position ((h.accessor?_eq name).trans hget)
  omega

theorem Bound.standsFor_top_iff (h : r.Bound K ds) {i : Nat} {d : Descriptor}
    (hd : ds[i]? = some d) {name : String} (hname : Text.sameName name d.name = true) :
    r.StandsFor name ⟨i, none⟩ ↔ ¬ Accessor.Taken ds i (Text.lower d.name) := by
  rw [← Text.sameName_iff.1 hname]
  constructor
  · intro hs htaken
    exact h.not_standsFor htaken hs
  · intro hfree
    obtain ⟨a, ha, -⟩ := h.attribute_at hd
    have hlookup := Accessor.lookup_own i d
    rw [← Text.sameName_iff.1 hname] at hlookup
    exact .top ((h.accessor?_eq name).trans (Accessor.get?_table_untaken hd hlookup hfree)) ha

/-- A path that no attribute before has among its forms leads to the first sub-attribute of the
name. -/
theorem Bound.standsFor_first (h : r.Bound K ds) {i k : Nat} {a : Attribute} {c : Composite}
    {child : String} {first : Descriptor} (ha : r.attributes[i]? = some a)
    (hc : a.content = .object c) (hfirst : a.descriptor.sub? child = some first)
    (hk : placeOf? a.descriptor.names first.name = some k)
    (hfree : ¬ Accessor.Taken ds i (Text.lower (a.descriptor.name ++ "." ++ child))) {name : String}
    (hname : Text.sameName name (a.descriptor.name ++ "." ++ child) = true) :
    r.StandsFor name ⟨i, some k⟩ := by
  obtain ⟨hsingle, hnames⟩ := h.declares_object ha hc
  have hd : ds[i]? = some a.descriptor := by
    rw [← h.descriptors, List.getElem?_map, ha]
    rfl
  have hacc := h.accessor?_eq name
  rw [Text.sameName_iff.1 hname] at hacc
  have hlower : Text.lower (a.descriptor.name ++ "." ++ child) =
      Text.lower a.descriptor.name ++ "." ++ Text.lower child := by
    rw [Text.lower_append, Text.lower_append]
    rfl
  have hlookup : (Accessor.ofDescriptor i a.descriptor).lookup
      (Text.lower (a.descriptor.name ++ "." ++ child)) = some ⟨i, some first.name⟩ := by
    rw [hlower, Accessor.lookup_path i hsingle, hfirst]
    rfl
  exact .child (hacc.trans (Accessor.get?_table_untaken hd hlookup hfree)) ha hsingle hc
    (hnames.symm ▸ hk)

theorem Bound.standsFor_child_iff (h : r.Bound K ds) {i m : Nat} {d sub : Descriptor}
    {a : Attribute} {c : Composite} (hd : ds[i]? = some d) (hsub : d.subAttributes[m]? = some sub)
    (ha : r.attributes[i]? = some a) (hc : a.content = .object c) {name : String}
    (hname : Text.sameName name (d.name ++ "." ++ sub.name) = true) :
    r.StandsFor name ⟨i, some m⟩ ↔
      ¬ Accessor.Taken ds i (Text.lower (d.name ++ "." ++ sub.name)) ∧
      ∀ k < m, ∀ s, d.subAttributes[k]? = some s → Text.sameName s.name sub.name = false := by
  obtain ⟨a', ha', rfl⟩ := h.attribute_at hd
  obtain rfl : a' = a := Option.some.inj (ha'.symm.trans ha)
  by_cases htaken : Accessor.Taken ds i (Text.lower (a'.descriptor.name ++ "." ++ sub.name))
  · exact iff_of_false (h.not_standsFor (Text.sameName_iff.1 hname ▸ htaken)) fun hr => hr.1 htaken
  obtain ⟨first, hfirst⟩ : ∃ first, a'.descriptor.sub? sub.name = some first := by
    rw [← Option.isSome_iff_exists, Descriptor.sub?, List.find?_isSome]
    exact ⟨sub, List.mem_of_getElem? hsub, Text.sameName_refl _⟩
  obtain ⟨k, hk, hplace, hbefore⟩ := place_sub? hfirst
  have hstands : r.StandsFor name ⟨i, some k⟩ :=
    h.standsFor_first ha hc hfirst hplace htaken hname
  constructor
  · intro hs
    obtain rfl := hstands.child_unique ha hc hs
    exact ⟨htaken, hbefore⟩
  · rintro ⟨-, hnone⟩
    -- the first of the name stands neither before nor behind the place
    have hm : k = m := by
      rcases Nat.lt_trichotomy k m with hlt | he | hlt
      · have hsame : Text.sameName first.name sub.name = true :=
          (List.find?_eq_some_iff_append.1 hfirst).1
        rw [hnone k hlt first hk] at hsame
        cases hsame
      · exact he
      · have := hbefore m hlt sub hsub
        rw [Text.sameName_refl] at this
        cases this
    exact hm ▸ hstands

end Resource

/-- Everything may be kept. -/
def Kept.anything : Kept where
  whole _ _ := True
  element _ _ := True
  fresh _ _ := trivial

theorem Kept.Takes.anything (coerced : Bool) : Kept.anything.Takes coerced fun _ => True where
  simple _ _ _ _ := trivial
  refused _ _ _ _ _ := trivial
  element _ _ _ _ := trivial
  ofItem _ _ _ _ := trivial
  ofMember _ _ _ _ := trivial

namespace Resource

/-- **Which attributes are reached under their own names**, whatever was done with the resource. -/
theorem bound_names_reach_iff {schemas : List Schema} (hne : schemas ≠ []) (location : String) :
    ∃ r₀, bind schemas location = .ok r₀ ∧ ∀ operations : List Operation,
      (∀ (i : Nat) (d : Descriptor), (Descriptor.bound schemas)[i]? = some d →
        ((∀ name, Text.sameName name d.name = true →
            (r₀.run operations).StandsFor name ⟨i, none⟩) ↔
          ¬ Accessor.Taken (Descriptor.bound schemas) i (Text.lower d.name))) ∧
      ∀ (i m : Nat) (d sub : Descriptor) (a : Attribute) (c : Composite),
        (Descriptor.bound schemas)[i]? = some d → d.subAttributes[m]? = some sub →
        (r₀.run operations).attributes[i]? = some a → a.content = .object c →
        ((∀ name, Text.sameName name (d.name ++ "." ++ sub.name) = true →
            (r₀.run operations).StandsFor name ⟨i, some m⟩) ↔
          ¬ Accessor.Taken (Descriptor.bound schemas) i (Text.lower (d.name ++ "." ++ sub.name)) ∧
          ∀ k < m, ∀ s, d.subAttributes[k]? = some s → Text.sameName s.name sub.name = false) := by
  obtain ⟨r₀, h⟩ := exists_bind hne location
  refine ⟨r₀, h, fun operations => ?_⟩
  have hr := (Bound.bind .anything h).run (.anything true) (.anything false) operations
  constructor
  · intro i d hd
    constructor
    · intro hall
      exact (hr.standsFor_top_iff hd (Text.sameName_refl _)).1 (hall _ (Text.sameName_refl _))
    · intro hfree name hname
      exact (hr.standsFor_top_iff hd hname).2 hfree
  · intro i m d sub a c hd hsub ha hc
    constructor
    · intro hall
      exact (hr.standsFor_child_iff hd hsub ha hc (Text.sameName_refl _)).1
        (hall _ (Text.sameName_refl _))
    · intro hfree name hname
      exact (hr.standsFor_child_iff hd hsub ha hc hname).2 hfree

/-- A schema whose second attribute is named like a form of the first. -/
def crowded : Schema :=
  { Schema.new "urn:user" "User" "/Schemas/User" with
    attributes := [.new "userName" .string, .new "user_name" .string,
      (Descriptor.new "name" .complex).addSub (.new "familyName" .string)] }

theorem bound_crowded : Descriptor.bound [crowded] = crowded.attributes := by decide +kernel

/-- The second attribute is out of reach; the first and the sub-attribute of the third are not. -/
theorem bound_names_shadowed :
    ∃ r, bind [crowded] "/Users/1" = .ok r ∧
      (∀ name, Text.sameName name "userName" = true → (r.run []).StandsFor name ⟨0, none⟩) ∧
      (¬ ∀ name, Text.sameName name "user_name" = true → (r.run []).StandsFor name ⟨1, none⟩) ∧
      ∀ name, Text.sameName name "name.familyName" = true → (r.run []).StandsFor name ⟨2, some 0⟩ := by
  obtain ⟨r, hr, hall⟩ := @bound_names_reach_iff [crowded] (by simp) "/Users/1"
  obtain ⟨top, children⟩ := hall []
  rw [bound_crowded] at top children
  refine ⟨r, hr, (top 0 _ rfl).2 (by decide +kernel), fun h => ?_, ?_⟩
  · exact (top 1 _ rfl).1 h (by decide +kernel)
  · have hget : r.attributes[2]? = (crowded.attributes.map Attribute.bind)[2]? := by
      cases hr
      rw [← bound_crowded]
      rfl
    exact (children 2 0 _ _ _ _ rfl rfl hget rfl).2 ⟨by decide +kernel, nofun⟩

end Resource

end Scim
