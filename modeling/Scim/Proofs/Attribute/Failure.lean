import Scim.Proofs.Attribute.Children
import Scim.Proofs.Attribute.Problems

/-!
# Look-ups that fail

A look-up along a path of names may fail at any of them. It leaves everything as it was, unless it
comes to an attribute that keeps a value of the wrong shape: that value is discarded, as if null
were assigned in its place, although nothing is found there (`Attribute.visit_failed`). It comes to
one such attribute at most, since what stands in a new object keeps no value. And this does not go
unseen: the value was a problem, which the check no longer finds
(`Attribute.Misshapen.check_perform_ne`).
-/

set_option autoImplicit false

namespace Scim

namespace Attribute

/-- The attribute is complex with one value, and keeps a value that is no object. -/
structure Misshapen (a : Attribute) : Prop where
  complex : a.descriptor.isComplex = true
  single : a.descriptor.multiValued = false
  whole : ∃ v, a.content = .plain v

/-- The attribute at the end of a path through objects. -/
def descend? (a : Attribute) : List String → Option Attribute
  | [] => some a
  | name :: path => (a.child? name).bind fun child => child.descend? path

/-- A look-up along the path comes to the attribute, to look for a further name there. -/
structure ComesTo (a : Attribute) (path q : List String) (b : Attribute) : Prop where
  descends : a.descend? q = some b
  further : ∃ name rest, path = q ++ name :: rest

/-! ## Steps of a look-up -/

section
variable {K : Kept} {a b child : Attribute} {c : Composite} {name : String} {path q : List String}

/-- A complex attribute with one value holds an object, or it keeps a value that is none. -/
theorem Shaped.object_or_misshapen (h : a.Shaped K) (hcomplex : a.descriptor.isComplex = true)
    (hsingle : a.descriptor.multiValued = false) : (∃ c, a.content = .object c) ∨ a.Misshapen := by
  cases hc : a.content with
  | object c => exact .inl ⟨c, rfl⟩
  | plain v => exact .inr ⟨hcomplex, hsingle, v, hc⟩
  | items items =>
    rw [Attribute.Shaped, hc] at h
    cases h with
    | items _ hm _ _ _ _ =>
      rw [hsingle] at hm
      cases hm

theorem Misshapen.opened (h : a.Misshapen) : a.opened = .bind a.descriptor := by
  obtain ⟨v, hv⟩ := h.whole
  exact opened_other (by simp [hv])

theorem ComesTo.here (a : Attribute) (name : String) (path : List String) :
    a.ComesTo (name :: path) [] a :=
  ⟨rfl, name, path, rfl⟩

theorem ComesTo.below (hchild : a.child? name = some child) (h : child.ComesTo path q b) :
    a.ComesTo (name :: path) (name :: q) b := by
  obtain ⟨hb, next, rest, rfl⟩ := h
  exact ⟨by rw [descend?, hchild]; exact hb, next, rest, rfl⟩

theorem Shaped.descend (h : a.Shaped K) (hb : a.descend? q = some b) : b.Shaped K := by
  induction q generalizing a with
  | nil => exact Option.some.inj hb ▸ h
  | cons name q ih =>
    obtain ⟨child, hchild, hbelow⟩ := Option.bind_eq_some_iff.1 hb
    obtain ⟨c, i, hobject, -, hget⟩ := child?_eq_some hchild
    exact ih ((h.object hobject).2.2 child (List.mem_of_getElem? hget)) hbelow

/-- What stands in a new object is new. -/
theorem descend?_bind {d : Descriptor} (h : (bind d).descend? q = some b) : ∃ d', b = bind d' := by
  induction q generalizing d with
  | nil => exact ⟨d, (Option.some.inj h).symm⟩
  | cons name q ih =>
    obtain ⟨child, hchild, hb⟩ := Option.bind_eq_some_iff.1 h
    obtain ⟨c, i, hc, -, hget⟩ := child?_eq_some hchild
    obtain ⟨hcomplex, hsingle, -⟩ := (Shaped.bind .misshapen d).object hc
    rw [descriptor_bind] at hcomplex hsingle
    rw [content_bind, Content.empty_object hcomplex hsingle] at hc
    obtain rfl := Content.object.inj hc
    rw [Composite.attributes_bind, List.getElem?_map] at hget
    obtain ⟨sub, -, rfl⟩ := Option.map_eq_some_iff.1 hget
    exact ih hb

theorem not_misshapen_bind (d : Descriptor) : ¬ (bind d).Misshapen := by
  intro ⟨hcomplex, hsingle, v, hv⟩
  rw [descriptor_bind] at hcomplex hsingle
  rw [content_bind, Content.empty_object hcomplex hsingle] at hv
  cases hv

end

/-! ## The state after a look-up that failed -/

section
variable {K : Kept} {α : Type} {f : Attribute → α × Attribute} {a b child : Attribute}
  {c : Composite} {name : String} {path q : List String}

/-- A step of a look-up in an object. -/
theorem Shaped.visit_child (h : a.Shaped K) (hobject : a.content = .object c) {i : Nat}
    (hi : placeOf? c.names name = some i) (hget : c.attributes[i]? = some child) :
    a.visit f (name :: path) = ((child.visit f path).1,
      a.withContent (.object (c.modify i fun _ => (child.visit f path).2))) := by
  obtain ⟨hc, hm, -⟩ := h.object hobject
  rw [← opened_object hobject] at hi hget ⊢
  exact visit_cons_some (by simp [hc, hm]) hi hget

/-- Where a look-up comes to objects only, it leaves them as they are. -/
theorem Shaped.visit_eq_self (h : a.Shaped K) (hnone : (a.visit f path).1 = none)
    (hclear : ∀ q b, a.ComesTo path q b → ¬ b.Misshapen) : (a.visit f path).2 = a := by
  induction path generalizing a with
  | nil => cases hnone
  | cons name path ih =>
    cases hcomplex : a.descriptor.isComplex && !a.descriptor.multiValued with
    | false => rw [visit_cons_other hcomplex]
    | true =>
      obtain ⟨hc, hm⟩ : a.descriptor.isComplex = true ∧ a.descriptor.multiValued = false := by
        simpa using hcomplex
      obtain ⟨c, hobject⟩ :=
        (h.object_or_misshapen hc hm).resolve_right (hclear [] a (.here a name path))
      have hself : a.withContent (.object c) = a := by rw [← hobject, withContent_content]
      cases hi : placeOf? c.names name with
      | none =>
        have hopened := opened_object hobject
        rw [visit_cons_none hcomplex (by rw [hopened, hi]), hopened, hself]
      | some i =>
        obtain ⟨child, hfind, hget⟩ := Composite.find?_some hi
        have hchild : a.child? name = some child := by rw [child?_object hobject, hfind]
        rw [h.visit_child hobject hi hget] at hnone ⊢
        have hkept : (child.visit f path).2 = child :=
          ih ((h.object hobject).2.2 child (List.mem_of_getElem? hget)) hnone
            fun q b hb => hclear _ b (hb.below hchild)
        simp only [hkept, Composite.modify_eq_self hget, hself]

/-- Work below a value of the wrong shape begins with nothing assigned. -/
theorem Misshapen.visit_eq (h : a.Misshapen) (name : String) :
    a.visit f (name :: path) = (((bind a.descriptor).visit f (name :: path)).1,
      a.withContent ((bind a.descriptor).visit f (name :: path)).2.content) := by
  have hcomplex : (a.descriptor.isComplex && !a.descriptor.multiValued) = true := by
    simp [h.complex, h.single]
  have hopened : (bind a.descriptor).opened = a.opened := by
    rw [h.opened]
    exact opened_object (by rw [content_bind, Content.empty_object h.complex h.single])
  have hbind : ((bind a.descriptor).descriptor.isComplex &&
      !(bind a.descriptor).descriptor.multiValued) = true := by rw [descriptor_bind, hcomplex]
  cases hi : placeOf? a.opened.names name with
  | none =>
    rw [visit_cons_none hcomplex hi, visit_cons_none hbind (by rw [hopened, hi]), hopened]
    rfl
  | some i =>
    obtain ⟨child, -, hget⟩ := Composite.find?_some hi
    rw [visit_cons_some hcomplex hi hget, visit_cons_some hbind (by rw [hopened, hi])
      (by rw [hopened, hget]), hopened]
    rfl

/-- Where a look-up comes to a value of the wrong shape, nothing else changes. -/
theorem Shaped.visit_eq_perform (h : a.Shaped K) (hnone : (a.visit f path).1 = none)
    (hto : a.ComesTo path q b) (hb : b.Misshapen) :
    (a.visit f path).2 = a.perform (q, .assign .null) := by
  induction q generalizing a path with
  | nil =>
    obtain ⟨hself, name, rest, rfl⟩ := hto
    obtain rfl : a = b := Option.some.inj hself
    rw [List.nil_append, hb.visit_eq] at hnone ⊢
    -- the rest of the way leads through a new object, in which nothing is left to discard
    have hnew : ((Attribute.bind a.descriptor).visit f (name :: rest)).2 = .bind a.descriptor :=
      (Shaped.bind K a.descriptor).visit_eq_self hnone fun q b hto => by
        obtain ⟨d', rfl⟩ := descend?_bind hto.descends
        exact not_misshapen_bind d'
    show a.withContent _ = a.assign .null
    rw [hnew, content_bind, assign, Attribute.store, Content.ofValue_null hb.complex]
  | cons name q ih =>
    obtain ⟨hdescend, next, rest, rfl⟩ := hto
    obtain ⟨child, hchild, hbelow⟩ := Option.bind_eq_some_iff.1 hdescend
    obtain ⟨c, i, hobject, hi, hget⟩ := child?_eq_some hchild
    have hshaped := (h.object hobject).2.2 child (List.mem_of_getElem? hget)
    rw [List.cons_append, h.visit_child hobject hi hget] at hnone ⊢
    rw [Attribute.perform, h.visit_child hobject hi hget,
      ih hshaped hnone ⟨hbelow, next, rest, rfl⟩]
    rfl

end

/-! ## What is wrong with it -/

/-- What is wrong with an attribute, blanks where something is required apart. -/
def faults (a : Attribute) : List (String × Problem) :=
  a.problems.filter fun e => e.2 != .required

section
variable {K : Kept} {a b : Attribute} {c : Composite}

theorem faults_eq (a : Attribute) :
    a.faults = (a.content.problems a.descriptor).filter fun e => e.2 != .required := by
  obtain ⟨d, content, report⟩ := a
  rw [faults, problems, List.filter_append]
  show _ = (content.problems d).filter _
  split <;> simp

theorem faults_object (h : a.content = .object c) :
    a.faults = c.attributes.flatMap faults ++ c.undeclared.map fun key => (key, .undeclared) := by
  obtain ⟨attributes, undeclared⟩ := c
  have hkeys : (undeclared.map fun key => (key, Problem.undeclared)).filter
      (fun e => e.2 != .required) = undeclared.map fun key => (key, .undeclared) := by
    simp [List.filter_eq_self]
  rw [faults_eq, h, Content.problems, Composite.problems, List.filter_append, hkeys, allProblems_eq,
    List.filter_flatMap]
  rfl

/-- Nothing is wrong with a new attribute, but that something may be required. -/
theorem faults_bind (d : Descriptor) : (bind d).faults = [] := by
  induction d using Descriptor.induct with
  | step d ih =>
    cases hc : d.isComplex with
    | false =>
      rw [faults_eq, content_bind, Content.empty_simple hc, descriptor_bind, Content.problems]
      cases hm : d.multiValued <;> simp [Descriptor.valueProblems, hm]
    | true =>
      cases hm : d.multiValued with
      | true =>
        rw [faults_eq, content_bind, Content.empty_items hc hm]
        rfl
      | false =>
        have hobject : (bind d).content = .object (.bind d) := by
          rw [content_bind, Content.empty_object hc hm]
        rw [faults_object hobject, Composite.attributes_bind, List.flatMap_map,
          List.flatMap_eq_nil_iff.2 ih]
        rfl

/-- A value of the wrong shape is found. -/
theorem Misshapen.faults_ne (h : a.Misshapen) (hshaped : a.Shaped .misshapen) : a.faults ≠ [] := by
  obtain ⟨v, hv⟩ := h.whole
  have hrefused : a.descriptor.Refuses v := by
    rw [Attribute.Shaped, hv] at hshaped
    cases hshaped with
    | plain hkept => exact hkept h.complex
  have htype : a.descriptor.datatype = .complex := by simpa [Descriptor.isComplex] using h.complex
  rw [faults_eq, hv, Content.problems]
  cases v with
  | null => exact hrefused.elim
  | map entries =>
    have hseveral : a.descriptor.multiValued = true := hrefused
    rw [h.single] at hseveral
    cases hseveral
  | list items => simp [Descriptor.valueProblems, h.single]
  | _ =>
    simp [Descriptor.valueProblems, Descriptor.scalarProblems, Descriptor.checkScalar,
      Descriptor.checkOther, DataType.isFormatted, htype, h.single]

/-- What is wrong with an attribute at the end of a path is a part of what is wrong, which changes
with what is done there. -/
theorem Shaped.exists_faults (h : a.Shaped K) {q : List String} (hb : a.descend? q = some b) :
    ∃ before after, a.faults = before ++ b.faults ++ after ∧ ∀ operation : Operation,
      (a.perform (q, operation)).faults = before ++ (operation.apply b).faults ++ after := by
  induction q generalizing a with
  | nil =>
    obtain rfl : a = b := Option.some.inj hb
    refine ⟨[], [], by simp, fun operation => ?_⟩
    rw [List.nil_append, List.append_nil]
    rfl
  | cons name q ih =>
    obtain ⟨child, hchild, hbelow⟩ := Option.bind_eq_some_iff.1 hb
    obtain ⟨c, i, hobject, hi, hget⟩ := child?_eq_some hchild
    obtain ⟨hc, hm, hs⟩ := h.object hobject
    obtain ⟨before, after, hfaults, hperform⟩ := ih (hs child (List.mem_of_getElem? hget)) hbelow
    -- what is wrong with the siblings stands on both sides, and the keys after it
    obtain ⟨left, right, hattributes, hmodify⟩ := Composite.exists_modify hget
    refine ⟨left.flatMap faults ++ before, after ++ right.flatMap faults ++
      c.undeclared.map fun key => (key, .undeclared), ?_, fun operation => ?_⟩
    · rw [faults_object hobject, hattributes, List.flatMap_append, List.flatMap_cons, hfaults]
      simp
    · have hafter := hperform operation
      have hobject' : (a.perform (name :: q, operation)).content =
          .object (c.modify i fun _ => child.perform (q, operation)) := by
        rw [Attribute.perform, h.visit_child hobject hi hget]
        rfl
      have hundeclared : (c.modify i fun _ => child.perform (q, operation)).undeclared =
          c.undeclared := rfl
      rw [faults_object hobject', hmodify, List.flatMap_append, List.flatMap_cons, hafter, hundeclared]
      simp

/-- Without the value nothing is wrong there. -/
theorem Misshapen.faults_discarded (h : a.Misshapen) : (a.assign .null).faults = [] := by
  have hnew := faults_bind a.descriptor
  rw [faults_eq, content_bind, descriptor_bind] at hnew
  rw [faults_eq, assign, content_store, descriptor_store, Content.ofValue_null h.complex, hnew]

end

theorem faults_of_check (a : Attribute) (field : String) :
    Problem.ofField field a.faults = (a.check.get field).filter (· != .required) := by
  rw [(groups_check a).get, Problem.ofField, Problem.ofField, List.filter_map, faults,
    List.filter_filter, List.filter_filter]
  simp [Bool.and_comm]

/-- The check finds a value of the wrong shape, and no longer finds it when it is discarded. -/
theorem Misshapen.check_perform_ne {a b : Attribute} {q : List String} (h : b.Misshapen)
    (hshaped : a.Shaped .misshapen) (hb : a.descend? q = some b) :
    (a.perform (q, .assign .null)).check ≠ a.check := by
  intro hcheck
  obtain ⟨before, after, hfaults, hperform⟩ := hshaped.exists_faults hb
  have hdiscarded : (a.perform (q, .assign .null)).faults = before ++ after := by
    rw [hperform (.assign .null)]
    show before ++ (b.assign .null).faults ++ after = _
    rw [h.faults_discarded, List.append_nil]
  -- the check differs where the value is found, whatever else is found in that field
  refine h.faults_ne (hshaped.descend hb) (Problem.eq_nil_of_ofField fun field => ?_)
  have hsame : Problem.ofField field (before ++ after) =
      Problem.ofField field (before ++ b.faults ++ after) := by
    rw [← hdiscarded, ← hfaults, faults_of_check, faults_of_check, hcheck]
  have hlength := congrArg List.length hsame
  simp only [Problem.ofField_append, List.length_append] at hlength
  exact List.eq_nil_of_length_eq_zero (by omega)

/-! ## Main result -/

/-- **What a look-up that fails leaves behind**, in any run of operations and at any depth. The
attribute is as it was if and only if the look-up came to no value of the wrong shape. If it came to
one, that value is discarded as if null were assigned in its place, and nothing else happens; the
check then no longer finds what was wrong with it. -/
theorem visit_failed (d : Descriptor) (steps : List (List String × Operation)) {a : Attribute}
    (ha : a.Within ((bind d).run steps)) {α : Type} (f : Attribute → α × Attribute)
    {path : List String} (hnone : (a.visit f path).1 = none) :
    ((a.visit f path).2 = a ↔ ∀ q b, a.ComesTo path q b → ¬ b.Misshapen) ∧
      ∀ q b, a.ComesTo path q b → b.Misshapen →
        (a.visit f path).2 = a.perform (q, .assign .null) ∧ (a.visit f path).2.check ≠ a.check := by
  have hshaped := ha.shaped
  have discarded : ∀ q b, a.ComesTo path q b → b.Misshapen →
      (a.visit f path).2 = a.perform (q, .assign .null) ∧ (a.visit f path).2.check ≠ a.check := by
    intro q b hto hb
    rw [hshaped.visit_eq_perform hnone hto hb]
    exact ⟨rfl, hb.check_perform_ne hshaped hto.descends⟩
  refine ⟨⟨fun hsame q b hto hb => ?_, hshaped.visit_eq_self hnone⟩, discarded⟩
  exact (discarded q b hto hb).2 (by rw [hsame])

/-- A name that is not declared is looked up in an attribute to which text was assigned instead of
an object. Nothing is found, and the text is lost. -/
theorem not_visit_failed_unchanged :
    ¬ ∀ (d : Descriptor) (steps : List (List String × Operation)) (name : String),
      (((bind d).run steps).visit (fun b => ((), b)) [name]).1 = none →
        (((bind d).run steps).visit (fun b => ((), b)) [name]).2.value =
          ((bind d).run steps).value := by
  intro h
  have hvalue := h ((Descriptor.new "name" .complex).addSub (.new "familyName" .string))
    [([], .assign (.text "Ann Lee"))] "nickName" rfl
  have hlost : Value.null = .text "Ann Lee" := hvalue
  cases hlost

/-- A title is looked up in a name, which was assigned as text, and in a nickname. Neither is found;
the name is discarded, and the look-up in the nickname leaves everything as it was. -/
theorem visit_failed_person :
    let name := (Descriptor.new "name" .complex).addSub (.new "familyName" .string)
    let person := ((Descriptor.new "person" .complex).addSub name).addSub (.new "nickName" .string)
    let a := (bind person).run
      [([], .assign (.map [("name", .text "Ann Lee"), ("nickName", .text "Ann")]))]
    let found : Attribute → Unit × Attribute := fun b => ((), b)
    a.Within a ∧ (a.visit found ["name", "title"]).1 = none ∧
      (a.visit found ["name", "title"]).2 = a.perform (["name"], .assign .null) ∧
      (a.visit found ["nickName", "title"]).1 = none ∧
      (a.visit found ["nickName", "title"]).2 = a := by
  intro name person a found
  have hname : a.descend? ["name"] = some ((bind name).assign (.text "Ann Lee")) := rfl
  have hmisshapen : ((bind name).assign (.text "Ann Lee")).Misshapen :=
    ⟨rfl, rfl, .text "Ann Lee", rfl⟩
  have hfailed : (a.visit found ["name", "title"]).1 = none := rfl
  have hfailed' : (a.visit found ["nickName", "title"]).1 = none := rfl
  refine ⟨.self a, hfailed, ?_, hfailed', ?_⟩
  · exact ((visit_failed person _ (.self a) found hfailed).2 _ _
      ⟨hname, "title", [], rfl⟩ hmisshapen).1
  · refine (visit_failed person _ (.self a) found hfailed').1.2 fun q b hto hb => ?_
    obtain ⟨hdescend, next, rest, hpath⟩ := hto
    rcases q with _ | ⟨first, _ | ⟨second, q⟩⟩
    · obtain rfl : a = b := Option.some.inj hdescend
      obtain ⟨v, hv⟩ := hb.whole
      cases hv
    · obtain rfl : "nickName" = first := (List.cons.inj hpath).1
      obtain rfl : (bind (.new "nickName" .string)).assign (.text "Ann") = b :=
        Option.some.inj hdescend
      cases hb.complex
    · simp at hpath

end Attribute

end Scim
