import Scim.Schema.Descriptor

/-!
# Descriptors that are built

A descriptor is built from a new one by changes (`Descriptor.change`), a sub-attribute by changes of its
own. Two kinds of change give the descriptor another datatype and leave the rest as it is: one adds a
sub-attribute, the other sets reference types. Whatever is changed, a descriptor that has sub-attributes
only is complex, and one that has reference types only is a reference (`Consistent.change`). One that has
both is sound as neither; so `check_change_iff` says which changes lead to a descriptor without a flaw:
those that never do both to one descriptor (`Change.Apart`).
-/

set_option autoImplicit false

namespace Scim

/-! ## Flaws -/

namespace Descriptor

/-- Induction over the tree of a descriptor. -/
@[elab_as_elim]
theorem induct {P : Descriptor → Prop} (d : Descriptor)
    (step : ∀ d, (∀ sub ∈ d.subAttributes, P sub) → P d) : P d := by
  refine @Descriptor.rec P (fun subs => ∀ sub ∈ subs, P sub) ?_ ?_ ?_ d
  · intro _ _ _ _ _ _ _ _ _ _ _ subs ih
    exact step _ ih
  · intro sub h
    cases h
  · intro sub subs ih ihs d h
    rcases List.mem_cons.1 h with rfl | h
    · exact ih
    · exact ihs d h

theorem checkAll_eq_ok_iff {ds : List Descriptor} :
    checkAll ds = .ok () ↔ ∀ d ∈ ds, d.check = .ok () := by
  induction ds with
  | nil => simp [checkAll]
  | cons d ds ih =>
    rw [checkAll]
    cases h : d.check with
    | ok => simp [h, ih]
    | error flaw => simp [h]

/-- A descriptor has no flaw exactly if it has a name, sub-attributes only as a complex one, reference
types only as a reference, and sub-attributes without flaws. -/
theorem check_eq_ok_iff {d : Descriptor} :
    d.check = .ok () ↔ Text.isBlank d.name = false ∧
      (d.subAttributes ≠ [] → d.datatype = .complex) ∧
      (d.referenceTypes ≠ none → d.datatype = .reference) ∧
      ∀ sub ∈ d.subAttributes, sub.check = .ok () := by
  obtain ⟨name, datatype, _, _, _, _, _, _, _, _, types, subs⟩ := d
  rw [check]
  cases hname : Text.isBlank name with
  | true => simp
  | false =>
    by_cases hsubs : subs ≠ [] → datatype = .complex
    · by_cases htypes : types ≠ none → datatype = .reference
      · cases subs <;> cases types <;> simp_all [checkAll_eq_ok_iff]
      · cases subs <;> cases types <;> simp_all
    · cases subs <;> simp_all

end Descriptor

/-! ## Changes -/

/-- What a caller does with a descriptor. -/
inductive Change where
  | multiValued (b : Bool)
  | required (b : Bool)
  | caseExact (b : Bool)
  | description (text : String)
  | canonicalValues (values : List String)
  | mutability (token : String)
  | returned (token : String)
  | uniqueness (token : String)
  | referenceTypes (types : List String)
  /-- A new sub-attribute, which is changed before it is added. -/
  | add (name : String) (datatype : DataType) (changes : List Change)

mutual

/-- A token that is not known changes nothing. -/
def Change.apply (d : Descriptor) : Change → Descriptor
  | .multiValued multiValued => { d with multiValued }
  | .required required => { d with required }
  | .caseExact caseExact => { d with caseExact }
  | .description description => { d with description }
  | .canonicalValues values => { d with canonicalValues := some values }
  | .mutability token => (d.setMutability token).toOption.getD d
  | .returned token => (d.setReturned token).toOption.getD d
  | .uniqueness token => (d.setUniqueness token).toOption.getD d
  | .referenceTypes types => d.setReferenceTypes types
  | .add name datatype changes => d.addSub (Descriptor.change (.new name datatype) changes)

/-- Changes one after the other. -/
def Descriptor.change (d : Descriptor) : List Change → Descriptor
  | [] => d
  | c :: changes => Descriptor.change (c.apply d) changes

end

namespace Change

/-- No name is blank, at any depth. -/
inductive Named : List Change → Prop
  | intro {changes : List Change} :
      (∀ name datatype inner, add name datatype inner ∈ changes → Text.isBlank name = false) →
      (∀ name datatype inner, add name datatype inner ∈ changes → Named inner) → Named changes

/-- No descriptor gets both reference types and sub-attributes, at any depth. -/
inductive Apart : List Change → Prop
  | intro {changes : List Change} :
      (∀ types name datatype inner, referenceTypes types ∈ changes →
        add name datatype inner ∉ changes) →
      (∀ name datatype inner, add name datatype inner ∈ changes → Apart inner) → Apart changes

/-- Induction over changes: those of the sub-attributes come before those that add them. -/
@[elab_as_elim]
theorem induct {P : List Change → Prop} (changes : List Change)
    (step : ∀ changes, (∀ name datatype inner, add name datatype inner ∈ changes → P inner) →
      P changes) : P changes :=
  step changes fun _ _ inner _hmem => induct inner step
termination_by sizeOf changes
decreasing_by
  have := List.sizeOf_lt_of_mem _hmem
  simp only [add.sizeOf_spec] at this
  omega

/-- The sub-attribute that a change adds. -/
def added? : Change → Option Descriptor
  | add name datatype changes => some (Descriptor.change (.new name datatype) changes)
  | _ => none

/-- The reference types that a change sets. -/
def types? : Change → Option (List String)
  | referenceTypes types => some types
  | _ => none

theorem added?_eq_some_iff {c : Change} {sub : Descriptor} : c.added? = some sub ↔
    ∃ name datatype inner, c = add name datatype inner ∧
      sub = (Descriptor.new name datatype).change inner := by
  constructor
  · intro h
    cases c with
    | add name datatype inner => exact ⟨name, datatype, inner, rfl, (Option.some.inj h).symm⟩
    | _ => cases h
  · intro ⟨name, datatype, inner, hc, hsub⟩
    rw [hc, hsub, added?]

theorem types?_eq_some_iff {c : Change} {types : List String} :
    c.types? = some types ↔ c = referenceTypes types := by
  cases c <;> simp [types?]

/-! ### One change -/

variable (c : Change) (d : Descriptor)

/-- What a check looks at changes in two ways only. -/
theorem apply_cases :
    (∃ sub, c.added? = some sub ∧ c.types? = none ∧ c.apply d = d.addSub sub) ∨
      (∃ types, c.added? = none ∧ c.types? = some types ∧
        c.apply d = d.setReferenceTypes types) ∨
      (c.added? = none ∧ c.types? = none ∧ (c.apply d).name = d.name ∧
        (c.apply d).datatype = d.datatype ∧ (c.apply d).referenceTypes = d.referenceTypes ∧
        (c.apply d).subAttributes = d.subAttributes) := by
  cases c with
  | add name datatype changes => exact .inl ⟨_, rfl, rfl, by rw [apply]⟩
  | referenceTypes types => exact .inr (.inl ⟨types, rfl, rfl, by rw [apply]⟩)
  | mutability token =>
    cases h : Mutability.ofToken? token <;>
      simp [apply, Descriptor.setMutability, h, added?, types?, Except.toOption]
  | returned token =>
    cases h : Returned.ofToken? token <;>
      simp [apply, Descriptor.setReturned, h, added?, types?, Except.toOption]
  | uniqueness token =>
    cases h : Uniqueness.ofToken? token <;>
      simp [apply, Descriptor.setUniqueness, h, added?, types?, Except.toOption]
  | _ => simp [apply, added?, types?]

@[simp] theorem name_apply : (c.apply d).name = d.name := by
  rcases c.apply_cases d with ⟨sub, -, -, h⟩ | ⟨types, -, -, h⟩ | ⟨-, -, h, -⟩
  · rw [h, Descriptor.addSub]
  · rw [h, Descriptor.setReferenceTypes]
  · exact h

@[simp] theorem subAttributes_apply :
    (c.apply d).subAttributes = d.subAttributes ++ c.added?.toList := by
  rcases c.apply_cases d with ⟨sub, hadd, -, h⟩ | ⟨types, hadd, -, h⟩ | ⟨hadd, -, -, -, -, h⟩
  · simp [h, hadd, Descriptor.addSub]
  · simp [h, hadd, Descriptor.setReferenceTypes]
  · simp [h, hadd]

@[simp] theorem referenceTypes_apply :
    (c.apply d).referenceTypes = c.types?.or d.referenceTypes := by
  rcases c.apply_cases d with ⟨sub, -, ht, h⟩ | ⟨types, -, ht, h⟩ | ⟨-, ht, -, -, h, -⟩
  · simp [h, ht, Descriptor.addSub]
  · simp [h, ht, Descriptor.setReferenceTypes]
  · simp [h, ht]

end Change

/-! ## Runs of changes -/

namespace Descriptor

/-- Sub-attributes alone stand in a complex descriptor, reference types alone in a reference. -/
structure Consistent (d : Descriptor) : Prop where
  complex : d.subAttributes ≠ [] → d.referenceTypes = none → d.datatype = .complex
  reference : d.referenceTypes ≠ none → d.subAttributes = [] → d.datatype = .reference

theorem Consistent.apply {d : Descriptor} (h : d.Consistent) (c : Change) :
    (c.apply d).Consistent := by
  rcases c.apply_cases d with ⟨sub, -, -, he⟩ | ⟨types, -, -, he⟩ | ⟨-, -, -, hd, ht, hs⟩
  · rw [he]
    exact ⟨fun _ _ => rfl, fun _ hsubs => absurd hsubs (by simp [addSub])⟩
  · rw [he]
    exact ⟨fun _ htypes => absurd htypes (by simp [setReferenceTypes]), fun _ _ => rfl⟩
  · constructor
    · rw [hd, ht, hs]
      exact h.complex
    · rw [hd, ht, hs]
      exact h.reference

theorem Consistent.change {d : Descriptor} (h : d.Consistent) (changes : List Change) :
    (d.change changes).Consistent := by
  induction changes generalizing d with
  | nil => rwa [Descriptor.change]
  | cons c changes ih =>
    rw [Descriptor.change]
    exact ih (h.apply c)

@[simp] theorem name_change (d : Descriptor) (changes : List Change) :
    (d.change changes).name = d.name := by
  induction changes generalizing d with
  | nil => rw [change]
  | cons c changes ih => rw [change, ih, c.name_apply]

theorem subAttributes_change (d : Descriptor) (changes : List Change) :
    (d.change changes).subAttributes = d.subAttributes ++ changes.filterMap Change.added? := by
  induction changes generalizing d with
  | nil => simp [change]
  | cons c changes ih =>
    rw [change, ih, c.subAttributes_apply, List.filterMap_cons]
    cases c.added? <;> simp

theorem referenceTypes_change_eq_none_iff {d : Descriptor} {changes : List Change} :
    (d.change changes).referenceTypes = none ↔
      d.referenceTypes = none ∧ ∀ c ∈ changes, c.types? = none := by
  induction changes generalizing d with
  | nil => simp [change]
  | cons c changes ih => simp [change, ih, and_assoc, and_comm]

/-! ## Main result -/

/-- A descriptor to which nothing has been done, by its datatype or by the token of that. -/
inductive IsNew (name : String) : Descriptor → Prop
  | ofDatatype (datatype : DataType) : IsNew name (new name datatype)
  | ofToken {token : String} {d : Descriptor} : Descriptor.ofToken name token = .ok d → IsNew name d

theorem IsNew.eq_new {name : String} {d : Descriptor} (h : d.IsNew name) :
    ∃ datatype, d = new name datatype := by
  cases h with
  | ofDatatype datatype => exact ⟨datatype, rfl⟩
  | @ofToken token _ h =>
    cases hd : DataType.ofToken? token with
    | none => simp [Descriptor.ofToken, hd] at h
    | some datatype =>
      rw [Descriptor.ofToken, hd, Except.ok.injEq] at h
      exact ⟨datatype, h.symm⟩

/-- The sub-attributes of a descriptor that was new are those that the changes added. -/
theorem mem_subAttributes_change {name : String} {datatype : DataType} {changes : List Change}
    {sub : Descriptor} : sub ∈ ((new name datatype).change changes).subAttributes ↔
      ∃ name datatype inner, .add name datatype inner ∈ changes ∧
        sub = (new name datatype).change inner := by
  have hnew : (new name datatype).subAttributes = [] := rfl
  rw [subAttributes_change, hnew, List.nil_append, List.mem_filterMap]
  constructor
  · intro ⟨c, hc, hsub⟩
    obtain ⟨name, datatype, inner, rfl, h⟩ := Change.added?_eq_some_iff.1 hsub
    exact ⟨name, datatype, inner, hc, h⟩
  · intro ⟨name, datatype, inner, hc, h⟩
    exact ⟨_, hc, Change.added?_eq_some_iff.2 ⟨name, datatype, inner, rfl, h⟩⟩

/-- It has reference types if the changes set any. -/
theorem referenceTypes_change_ne_none_iff {name : String} {datatype : DataType}
    {changes : List Change} : ((new name datatype).change changes).referenceTypes ≠ none ↔
      ∃ types, .referenceTypes types ∈ changes := by
  have hnew : (new name datatype).referenceTypes = none := rfl
  rw [ne_eq, referenceTypes_change_eq_none_iff]
  constructor
  · intro h
    refine Classical.byContradiction fun hnone => h ⟨hnew, fun c hc => ?_⟩
    cases htypes : c.types? with
    | none => rfl
    | some types => exact absurd ⟨types, Change.types?_eq_some_iff.1 htypes ▸ hc⟩ hnone
  · intro ⟨types, hmem⟩ ⟨_, hall⟩
    cases hall _ hmem

/-- **Which changes lead to a sound descriptor**: those that name every sub-attribute and never both
add sub-attributes to a descriptor and set its reference types. -/
theorem check_change_iff {name : String} {d : Descriptor} (hd : d.IsNew name)
    (changes : List Change) : (d.change changes).check = .ok () ↔
      Text.isBlank name = false ∧ Change.Named changes ∧ Change.Apart changes := by
  induction changes using Change.induct generalizing name d with
  | step changes ih =>
    obtain ⟨datatype, rfl⟩ := hd.eq_new
    have hname : ((new name datatype).change changes).name = name := name_change _ _
    have hconsistent : ((new name datatype).change changes).Consistent :=
      Consistent.change ⟨fun h => absurd rfl h, fun h => absurd rfl h⟩ changes
    rw [check_eq_ok_iff, hname]
    constructor
    · intro ⟨hblank, hcomplex, hreference, hsubs⟩
      have hadded : ∀ name datatype inner, .add name datatype inner ∈ changes →
          Text.isBlank name = false ∧ Change.Named inner ∧ Change.Apart inner := by
        intro name datatype inner hmem
        exact (ih name datatype inner hmem (.ofDatatype datatype)).1
          (hsubs _ (mem_subAttributes_change.2 ⟨name, datatype, inner, hmem, rfl⟩))
      refine ⟨hblank, ?_, ?_⟩
      · exact .intro (fun n t i hmem => (hadded n t i hmem).1)
          fun n t i hmem => (hadded n t i hmem).2.1
      · refine .intro (fun types n t i htypes hmem => ?_) fun n t i hmem => (hadded n t i hmem).2.2
        -- one descriptor would be complex and a reference
        have hsub : (new n t).change i ∈ ((new name datatype).change changes).subAttributes :=
          mem_subAttributes_change.2 ⟨n, t, i, hmem, rfl⟩
        have h := hcomplex (List.ne_nil_of_mem hsub)
        rw [hreference (referenceTypes_change_ne_none_iff.2 ⟨types, htypes⟩)] at h
        cases h
    · intro ⟨hblank, hnamed, hapart⟩
      obtain ⟨hnames, hnamed⟩ := hnamed
      obtain ⟨hboth, hapart⟩ := hapart
      have hexclusive : ((new name datatype).change changes).referenceTypes = none ∨
          ((new name datatype).change changes).subAttributes = [] := by
        by_cases htypes : ((new name datatype).change changes).referenceTypes = none
        · exact .inl htypes
        · obtain ⟨types, htypes⟩ := referenceTypes_change_ne_none_iff.1 htypes
          refine .inr (List.eq_nil_iff_forall_not_mem.2 fun sub hsub => ?_)
          obtain ⟨n, t, i, hmem, -⟩ := mem_subAttributes_change.1 hsub
          exact hboth types n t i htypes hmem
      refine ⟨hblank, fun hsubs => ?_, fun htypes => ?_, fun sub hsub => ?_⟩
      · exact hconsistent.complex hsubs (hexclusive.resolve_right hsubs)
      · exact hconsistent.reference htypes (hexclusive.resolve_left htypes)
      · obtain ⟨n, t, i, hmem, rfl⟩ := mem_subAttributes_change.1 hsub
        exact (ih n t i hmem (.ofDatatype t)).2 ⟨hnames n t i hmem, hnamed n t i hmem, hapart n t i hmem⟩

/-- Reference types of a sub-attribute do no harm. Set for the manager itself they leave a reference
that has a sub-attribute. -/
theorem check_change_manager :
    let manager := new "manager" .complex
    let nested : List Change := [.add "value" .string [], .add "ref" .string [.referenceTypes ["User"]]]
    let mixed : List Change := [.add "value" .string [], .referenceTypes ["User"]]
    manager.IsNew "manager" ∧ Change.Apart nested ∧ (manager.change nested).check = .ok () ∧
      Change.Named mixed ∧ (manager.change mixed).check ≠ .ok () := by
  intro manager nested mixed
  have hnew : manager.IsNew "manager" := .ofDatatype .complex
  have hsound : (manager.change nested).check = .ok () := by
    simp only [manager, nested, Descriptor.change, Change.apply]
    rfl
  refine ⟨hnew, ((check_change_iff hnew nested).1 hsound).2.2, hsound, ?_, fun h => ?_⟩
  · have hadded : ∀ name datatype inner, .add name datatype inner ∈ mixed →
        name = "value" ∧ inner = [] := by simp +contextual [mixed]
    refine .intro (fun name datatype inner hmem => ?_) fun name datatype inner hmem => ?_
    · rw [(hadded name datatype inner hmem).1]
      decide
    · rw [(hadded name datatype inner hmem).2]
      exact .intro nofun nofun
  · obtain ⟨-, -, ⟨hboth, -⟩⟩ := (check_change_iff hnew mixed).1 h
    exact hboth ["User"] "value" .string [] (by simp [mixed]) (by simp [mixed])

end Descriptor

end Scim
