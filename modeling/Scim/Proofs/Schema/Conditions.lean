import Scim.Proofs.Schema.Structure
import Scim.Schema.Basic

/-!
# The conditions of a sound schema

What a check asks of a schema, one condition after the other: first of its identifier and of its name,
then of each descriptor in the order of the document, a descriptor before its sub-attributes
(`Schema.conditions`). `Schema.check_first` says that the check fails with the flaw of the first
condition that does not hold, and passes exactly the schemas of which all hold, at every depth
(`Schema.Sound`).
-/

set_option autoImplicit false

namespace Scim

/-- What has to hold, and what is wrong where it does not. -/
structure Condition where
  holds : Bool
  flaw : Flaw

/-- The flaw of the first condition that does not hold. -/
def firstFlaw? (conditions : List Condition) : Option Flaw :=
  (conditions.find? fun c => !c.holds).map Condition.flaw

theorem firstFlaw?_cons (c : Condition) (conditions : List Condition) :
    firstFlaw? (c :: conditions) = if c.holds then firstFlaw? conditions else some c.flaw := by
  rw [firstFlaw?, List.find?_cons]
  cases h : c.holds <;> rfl

theorem firstFlaw?_append (before after : List Condition) :
    firstFlaw? (before ++ after) = (firstFlaw? before).or (firstFlaw? after) := by
  rw [firstFlaw?, List.find?_append, Option.map_or]
  rfl

/-- What a check finds. -/
def verdict (flaw? : Option Flaw) : Except Flaw Unit :=
  flaw?.elim (.ok ()) .error

theorem verdict_eq_error_iff {flaw? : Option Flaw} {flaw : Flaw} :
    verdict flaw? = .error flaw ↔ flaw? = some flaw := by
  cases flaw? <;> simp [verdict]

/-- Some character of the text is no white space. -/
def Text.isNamed (s : String) : Bool :=
  s.toList.any fun c => !Text.isSpace c

theorem Text.isNamed_eq (s : String) : Text.isNamed s = !Text.isBlank s := by
  rw [isNamed, isBlank, List.not_all_eq_any_not]

theorem Text.isBlank_eq_false_iff {s : String} :
    Text.isBlank s = false ↔ ∃ c ∈ s.toList, Text.isSpace c = false := by
  rw [isBlank, List.all_eq_false]
  simp only [Bool.not_eq_true]

/-! ## Descriptors -/

namespace Descriptor

/-- What is asked of a descriptor itself. -/
def conditions (d : Descriptor) : List Condition :=
  [⟨Text.isNamed d.name, .blankName⟩,
    ⟨d.subAttributes.isEmpty || d.datatype == .complex, .subAttributes d.name d.datatype⟩,
    ⟨d.referenceTypes.isNone || d.datatype == .reference, .referenceTypes d.name d.datatype⟩]

mutual

/-- The descriptor and all below it, each before its sub-attributes and these in order. -/
def preorder (d : Descriptor) : List Descriptor :=
  match d with
  | ⟨_, _, _, _, _, _, _, _, _, _, _, subs⟩ => d :: preorderAll subs

def preorderAll : List Descriptor → List Descriptor
  | [] => []
  | d :: rest => preorder d ++ preorderAll rest

end

theorem preorderAll_eq (ds : List Descriptor) : preorderAll ds = ds.flatMap preorder := by
  induction ds with
  | nil => rfl
  | cons d ds ih => rw [preorderAll, ih, List.flatMap_cons]

mutual

/-- The check of a descriptor finds the first flaw in all that it holds. -/
theorem check_eq_verdict : (d : Descriptor) →
    d.check = verdict (firstFlaw? (d.preorder.flatMap conditions))
  | ⟨name, datatype, _, _, _, _, _, _, _, _, types, subs⟩ => by
    have hsubs : (!subs.isEmpty && datatype != .complex) = !(subs.isEmpty || datatype == .complex) :=
      (Bool.not_or _ _).symm
    have htypes : (types.isSome && datatype != .reference) =
        !(types.isNone || datatype == .reference) := by
      rw [Bool.not_or, Option.not_isNone]
      rfl
    rw [check, checkAll_eq_verdict subs, hsubs, htypes, preorder, List.flatMap_cons]
    simp only [conditions, List.cons_append, List.nil_append, firstFlaw?_cons, Text.isNamed_eq]
    cases Text.isBlank name with
    | true => rfl
    | false =>
      cases subs.isEmpty || datatype == .complex with
      | false => rfl
      | true => cases types.isNone || datatype == .reference <;> rfl

theorem checkAll_eq_verdict : (ds : List Descriptor) →
    checkAll ds = verdict (firstFlaw? ((preorderAll ds).flatMap conditions))
  | [] => rfl
  | d :: ds => by
    rw [checkAll, check_eq_verdict d, checkAll_eq_verdict ds, preorderAll, List.flatMap_append,
      firstFlaw?_append]
    cases firstFlaw? (d.preorder.flatMap conditions) <;> rfl

end

/-- It has a name, sub-attributes only as a complex one and reference types only as a reference, and so
have all below it. -/
inductive Sound : Descriptor → Prop
  | intro {d : Descriptor} : (∃ c ∈ d.name.toList, Text.isSpace c = false) →
      (d.subAttributes ≠ [] → d.datatype = .complex) →
      (d.referenceTypes ≠ none → d.datatype = .reference) →
      (∀ sub ∈ d.subAttributes, Sound sub) → Sound d

theorem sound_iff {d : Descriptor} : d.Sound ↔ (∃ c ∈ d.name.toList, Text.isSpace c = false) ∧
    (d.subAttributes ≠ [] → d.datatype = .complex) ∧
    (d.referenceTypes ≠ none → d.datatype = .reference) ∧ ∀ sub ∈ d.subAttributes, sub.Sound :=
  ⟨fun | .intro h₁ h₂ h₃ h₄ => ⟨h₁, h₂, h₃, h₄⟩, fun ⟨h₁, h₂, h₃, h₄⟩ => .intro h₁ h₂ h₃ h₄⟩

theorem check_eq_ok_iff_sound (d : Descriptor) : d.check = .ok () ↔ d.Sound := by
  induction d using induct with
  | step d ih =>
    rw [check_eq_ok_iff, sound_iff, Text.isBlank_eq_false_iff]
    exact and_congr_right' (and_congr_right' (and_congr_right' (forall₂_congr ih)))

end Descriptor

/-! ## Schemas -/

namespace Schema

/-- What is asked of a schema, in the order in which it is looked at. -/
def conditions (s : Schema) : List Condition :=
  [⟨Text.isNamed s.id, .blankId⟩, ⟨Text.isNamed s.name, .blankTitle s.id⟩] ++
    (s.attributes.flatMap Descriptor.preorder).flatMap Descriptor.conditions

theorem check_eq_verdict (s : Schema) : s.check = verdict (firstFlaw? s.conditions) := by
  rw [check, Descriptor.checkAll_eq_verdict, Descriptor.preorderAll_eq]
  simp only [conditions, List.cons_append, List.nil_append, firstFlaw?_cons, Text.isNamed_eq]
  cases Text.isBlank s.id with
  | true => rfl
  | false => cases Text.isBlank s.name <;> rfl

/-- A schema with an identifier, a name and sound descriptors. -/
structure Sound (s : Schema) : Prop where
  id : ∃ c ∈ s.id.toList, Text.isSpace c = false
  name : ∃ c ∈ s.name.toList, Text.isSpace c = false
  attributes : ∀ d ∈ s.attributes, d.Sound

theorem check_eq_ok_iff_sound (s : Schema) : s.check = .ok () ↔ s.Sound := by
  have hattributes : Descriptor.checkAll s.attributes = .ok () ↔ ∀ d ∈ s.attributes, d.Sound :=
    Descriptor.checkAll_eq_ok_iff.trans
      (forall₂_congr fun d _ => Descriptor.check_eq_ok_iff_sound d)
  rw [check]
  constructor
  · intro h
    split at h
    · cases h
    split at h
    · cases h
    rename_i hid hname
    exact ⟨Text.isBlank_eq_false_iff.1 (Bool.not_eq_true _ ▸ hid),
      Text.isBlank_eq_false_iff.1 (Bool.not_eq_true _ ▸ hname), hattributes.1 h⟩
  · intro ⟨hid, hname, h⟩
    rw [Text.isBlank_eq_false_iff.2 hid, Text.isBlank_eq_false_iff.2 hname]
    exact hattributes.2 h

/-- **A check accepts exactly the sound schemas and names the first flaw of the others.** -/
theorem check_first (s : Schema) : (s.check = .ok () ↔ s.Sound) ∧
    ∀ flaw, s.check = .error flaw ↔ firstFlaw? s.conditions = some flaw := by
  refine ⟨check_eq_ok_iff_sound s, fun flaw => ?_⟩
  rw [check_eq_verdict, verdict_eq_error_iff]

/-- What is wrong inside the first attribute is found before the second attribute has no name. -/
example :
    let inner := { Descriptor.new "ref" .string with referenceTypes := some [] }
    let outer := { Descriptor.new "manager" .complex with subAttributes := [inner] }
    ((Schema.new "urn:user" "User" "").add outer |>.add (.new " " .string)).check =
      .error (.referenceTypes "ref" .string) := by
  rfl

end Schema

end Scim
