import Scim.Proofs.Attribute.Canonical
import Scim.Proofs.Schema.Structure
import Scim.Validator

/-!
# Warnings

An occurrence is a descriptor of a schema together with where it stands, as the positions that lead to it
from the outside in. The warnings on a schema go through its occurrences in the order of their places, so
that an attribute comes before its sub-attributes. For each they tell whether it is complex without
sub-attributes, and whether its canonical values are without effect (`Schema.messages_warnings`).
-/

set_option autoImplicit false

namespace Scim

/-! ## Occurrences -/

structure Occurrence where
  /-- The position of each attribute on the way among its siblings. -/
  place : List Nat
  /-- The descriptors in which this one stands, from the outside in. -/
  outer : List Descriptor
  descriptor : Descriptor

namespace Occurrence

/-- The names on the way with dots between them. -/
def path (o : Occurrence) : String :=
  ".".intercalate ((o.outer ++ [o.descriptor]).map Descriptor.name)

/-- An occurrence below a descriptor, seen from the list in which that one is at a position. -/
def within (d : Descriptor) (i : Nat) (o : Occurrence) : Occurrence :=
  ⟨i :: o.place, d :: o.outer, o.descriptor⟩

theorem path_within (d : Descriptor) (i : Nat) (o : Occurrence) :
    (o.within d i).path = d.name ++ "." ++ o.path := by
  obtain ⟨place, outer, descriptor⟩ := o
  cases outer <;> simp [path, within]

end Occurrence

namespace Descriptor

/-- What stands at a place in a list of descriptors or below them. -/
def occurrence? (ds : List Descriptor) : List Nat → Option Occurrence
  | [] => none
  | [i] => ds[i]?.map fun d => ⟨[i], [], d⟩
  | i :: j :: place =>
    ds[i]?.bind fun d => (occurrence? d.subAttributes (j :: place)).map (.within d i)

mutual

/-- A descriptor at a position and all below it, each before its sub-attributes and these in order. -/
def occurrences (i : Nat) (d : Descriptor) : List Occurrence :=
  match d with
  | ⟨_, _, _, _, _, _, _, _, _, _, _, subs⟩ =>
    ⟨[i], [], d⟩ :: (occurrencesFrom 0 subs).map (.within d i)

def occurrencesFrom (i : Nat) : List Descriptor → List Occurrence
  | [] => []
  | d :: rest => occurrences i d ++ occurrencesFrom (i + 1) rest

end

theorem occurrences_eq (i : Nat) (d : Descriptor) :
    d.occurrences i = ⟨[i], [], d⟩ :: (occurrencesFrom 0 d.subAttributes).map (.within d i) := by
  obtain ⟨_, _, _, _, _, _, _, _, _, _, _, subs⟩ := d
  rw [occurrences]

theorem mem_occurrences {i : Nat} {d : Descriptor} {o : Occurrence} :
    o ∈ d.occurrences i ↔
      o = ⟨[i], [], d⟩ ∨ ∃ o' ∈ occurrencesFrom 0 d.subAttributes, o'.within d i = o := by
  rw [occurrences_eq, List.mem_cons, List.mem_map]

theorem mem_occurrencesFrom {i : Nat} {ds : List Descriptor} {o : Occurrence} :
    o ∈ occurrencesFrom i ds ↔
      ∃ (j : Nat) (d : Descriptor), ds[j]? = some d ∧ o ∈ d.occurrences (i + j) := by
  induction ds generalizing i with
  | nil => simp [occurrencesFrom]
  | cons d ds ih =>
    rw [occurrencesFrom, List.mem_append, ih]
    constructor
    · rintro (h | ⟨j, d', hd', h⟩)
      · exact ⟨0, d, rfl, h⟩
      · exact ⟨j + 1, d', hd', by rwa [Nat.add_assoc, Nat.add_comm 1] at h⟩
    · rintro ⟨j, d', hd', h⟩
      cases j with
      | zero => exact .inl (Option.some.inj hd' ▸ h)
      | succ j => exact .inr ⟨j, d', hd', by rwa [Nat.add_assoc, Nat.add_comm 1]⟩

theorem exists_place_of_mem_occurrences {i : Nat} {d : Descriptor} {o : Occurrence}
    (h : o ∈ d.occurrences i) : ∃ place, o.place = i :: place := by
  rcases mem_occurrences.1 h with rfl | ⟨o', -, rfl⟩
  · exact ⟨[], rfl⟩
  · exact ⟨o'.place, rfl⟩

theorem exists_place_of_mem_occurrencesFrom {i : Nat} {ds : List Descriptor} {o : Occurrence}
    (h : o ∈ occurrencesFrom i ds) : ∃ j place, o.place = (i + j) :: place := by
  obtain ⟨j, d, -, ho⟩ := mem_occurrencesFrom.1 h
  exact ⟨j, exists_place_of_mem_occurrences ho⟩

/-- The list has exactly what stands at some place. -/
theorem mem_occurrencesFrom_iff {ds : List Descriptor} {o : Occurrence} :
    o ∈ occurrencesFrom 0 ds ↔ occurrence? ds o.place = some o := by
  obtain ⟨place, outer, d⟩ := o
  -- below the attribute at the first position the rest of the place leads on
  induction place generalizing ds outer with
  | nil =>
    refine ⟨fun h => ?_, nofun⟩
    obtain ⟨_, _, hplace⟩ := exists_place_of_mem_occurrencesFrom h
    cases hplace
  | cons i place ih =>
    rw [mem_occurrencesFrom]
    constructor
    · rintro ⟨j, d', hd', h⟩
      rw [Nat.zero_add] at h
      rcases mem_occurrences.1 h with h | ⟨⟨below, inner, _⟩, hbelow, hwithin⟩
      · cases h
        rw [occurrence?, hd', Option.map_some]
      · cases hwithin
        obtain ⟨_, _, rfl⟩ := exists_place_of_mem_occurrencesFrom hbelow
        rw [occurrence?, hd', Option.bind_some, (ih inner).1 hbelow, Option.map_some]
        rfl
    · intro h
      cases place with
      | nil =>
        obtain ⟨d', hd', h⟩ := Option.map_eq_some_iff.1 h
        cases h
        exact ⟨i, _, hd', mem_occurrences.2 (.inl (by rw [Nat.zero_add]))⟩
      | cons j place =>
        obtain ⟨d', hd', h⟩ := Option.bind_eq_some_iff.1 h
        obtain ⟨⟨below, inner, _⟩, hbelow, hwithin⟩ := Option.map_eq_some_iff.1 h
        cases hwithin
        refine ⟨i, d', hd', mem_occurrences.2 (.inr ⟨_, (ih inner).2 hbelow, ?_⟩)⟩
        rw [Nat.zero_add]
        rfl

theorem pairwise_occurrencesFrom {ds : List Descriptor}
    (h : ∀ d ∈ ds, ∀ i, (d.occurrences i).Pairwise fun o o' => o.place < o'.place) (i : Nat) :
    (occurrencesFrom i ds).Pairwise fun o o' => o.place < o'.place := by
  induction ds generalizing i with
  | nil => exact .nil
  | cons d ds ih =>
    rw [occurrencesFrom, List.pairwise_append]
    refine ⟨h d List.mem_cons_self i, ih (fun d' hd' => h d' (List.mem_cons_of_mem _ hd')) _, ?_⟩
    intro o ho o' ho'
    obtain ⟨place, hplace⟩ := exists_place_of_mem_occurrences ho
    obtain ⟨j, place', hplace'⟩ := exists_place_of_mem_occurrencesFrom ho'
    rw [hplace, hplace', List.cons_lt_cons_iff]
    exact .inl (by omega)

/-- A descriptor comes before its sub-attributes, and these with all below them one after the other. -/
theorem pairwise_occurrences (d : Descriptor) :
    ∀ i, (d.occurrences i).Pairwise fun o o' => o.place < o'.place := by
  induction d using induct with
  | step d ih =>
    intro i
    rw [occurrences_eq, List.pairwise_cons, List.pairwise_map]
    refine ⟨fun o ho => ?_, (pairwise_occurrencesFrom ih 0).imp fun h => ?_⟩
    · obtain ⟨o', ho', rfl⟩ := List.mem_map.1 ho
      obtain ⟨j, place, hplace⟩ := exists_place_of_mem_occurrencesFrom ho'
      simp [Occurrence.within, hplace]
    · exact List.cons_lt_cons_iff.2 (.inr ⟨rfl, h⟩)

end Descriptor

/-! ## What is told about an occurrence -/

namespace Descriptor

theorem warnings_cons (path : String) (d : Descriptor) :
    d.warnings path = d.ownWarnings path ++ subWarnings path d.subAttributes := by
  obtain ⟨_, _, _, _, _, _, _, _, _, _, _, subs⟩ := d
  rw [warnings]

theorem subWarnings_eq (path : String) (ds : List Descriptor) :
    subWarnings path ds = ds.flatMap fun d => d.warnings (path ++ "." ++ d.name) := by
  induction ds with
  | nil => rfl
  | cons d ds ih =>
    rw [subWarnings, ih, List.flatMap_cons]
    rfl

/-- What is told descriptor by descriptor is told occurrence by occurrence. -/
theorem flatMap_occurrencesFrom {α : Type} {told : Descriptor → List α} {f : Occurrence → List α}
    {ds : List Descriptor} (h : ∀ d ∈ ds, ∀ i, told d = (d.occurrences i).flatMap f) (i : Nat) :
    ds.flatMap told = (occurrencesFrom i ds).flatMap f := by
  induction ds generalizing i with
  | nil => rfl
  | cons d ds ih =>
    rw [List.flatMap_cons, occurrencesFrom, List.flatMap_append, h d List.mem_cons_self i,
      ih (fun d' hd' => h d' (List.mem_cons_of_mem _ hd'))]

/-- The warnings on a descriptor and all below it are those on its occurrences. -/
theorem warnings_eq (d : Descriptor) :
    ∀ (outer : String) (i : Nat), d.warnings (outer ++ d.name) =
      (d.occurrences i).flatMap fun o => o.descriptor.ownWarnings (outer ++ o.path) := by
  induction d using induct with
  | step d ih =>
    intro outer i
    have hbelow (o : Occurrence) :
        (o.within d i).descriptor.ownWarnings (outer ++ (o.within d i).path) =
          o.descriptor.ownWarnings (outer ++ d.name ++ "." ++ o.path) := by
      rw [Occurrence.path_within, ← String.append_assoc, ← String.append_assoc]
      rfl
    rw [warnings_cons, subWarnings_eq, flatMap_occurrencesFrom (fun sub h => ih sub h _) 0,
      occurrences_eq, List.flatMap_cons, List.flatMap_map]
    simp only [hbelow]
    rfl

end Descriptor

/-- What is told about a descriptor where it stands. -/
def Occurrence.messages (o : Occurrence) : List String :=
  (if o.descriptor.datatype = .complex ∧ o.descriptor.subAttributes = [] then
    [s!"{o.path}: complex attribute has no sub-attributes"] else []) ++
  (if o.descriptor.Unchecked then
    [s!"{o.path}: canonical values on a {o.descriptor.datatype.token} attribute are not checked"]
  else [])

theorem Occurrence.messages_eq (o : Occurrence) :
    o.messages = (o.descriptor.ownWarnings o.path).map Warning.message := by
  have hbare : (o.descriptor.isComplex && o.descriptor.subAttributes.isEmpty) =
      decide (o.descriptor.datatype = .complex ∧ o.descriptor.subAttributes = []) := by
    rw [Bool.eq_iff_iff]
    simp [Descriptor.isComplex]
  have hunchecked : (o.descriptor.canonicalValues.isSome && o.descriptor.datatype != .string &&
      o.descriptor.datatype != .reference) = decide o.descriptor.Unchecked := by
    rw [Bool.eq_iff_iff, decide_eq_true_iff, Descriptor.unchecked_iff]
    simp [and_assoc]
  simp only [messages, Descriptor.ownWarnings, hbare, hunchecked, decide_eq_true_eq, List.map_append]
  congr 1 <;> split <;> rfl

/-! ## Schemas -/

namespace Schema

/-- The descriptors of a schema at any depth, each before its sub-attributes. -/
def occurrences (s : Schema) : List Occurrence :=
  Descriptor.occurrencesFrom 0 s.attributes

/-- What stands at a place. -/
def occurrence? (s : Schema) (place : List Nat) : Option Occurrence :=
  Descriptor.occurrence? s.attributes place

/-- **Warnings tell what validation does not check.** The messages on a schema go through what stands at
the places in it, all of these in their order and each once: a complex attribute without sub-attributes is
told, and canonical values are told exactly if nothing that is assigned is ever found not to be one of
them. -/
theorem messages_warnings (s : Schema) :
    (s.occurrences.Pairwise fun o o' => o.place < o'.place) ∧
      (∀ o, o ∈ s.occurrences ↔ s.occurrence? o.place = some o) ∧
      s.warnings.map Warning.message =
        (if s.attributes = [] then ["schema declares no attributes"] else []) ++
          s.occurrences.flatMap Occurrence.messages := by
  refine ⟨Descriptor.pairwise_occurrencesFrom (fun d _ => d.pairwise_occurrences) 0,
    fun o => Descriptor.mem_occurrencesFrom_iff, ?_⟩
  have hwarnings (d : Descriptor) (i : Nat) :
      d.warnings d.name = (d.occurrences i).flatMap fun o => o.descriptor.ownWarnings o.path := by
    simpa using d.warnings_eq "" i
  rw [warnings, Descriptor.flatMap_occurrencesFrom (fun d _ => hwarnings d) 0, List.map_append,
    List.map_flatMap]
  simp only [← Occurrence.messages_eq, List.isEmpty_iff]
  congr 1
  split <;> rfl

example :
    let rank : Descriptor := { Descriptor.new "rank" .integer with canonicalValues := some ["1"] }
    let s : Schema := {
      id := "urn:role", name := "Role", description := "", location := ""
      attributes := [(Descriptor.new "roles" .complex).addSub rank, .new "name" .complex] }
    s.warnings.map Warning.message =
      ["roles.rank: canonical values on a integer attribute are not checked",
        "name: complex attribute has no sub-attributes"] := by
  decide

end Schema

end Scim
