import Scim.Proofs.Registry
import Scim.Validator
import Mathlib.Data.List.Basic

/-!
# Validation of directories

The validator and the loader of a registry go through a directory each on their own: one counts the files
that do not load, the other skips them. `Registry.loading` is the loader with an account of what it
skips. A run of the validator on a directory succeeds exactly if nothing is skipped, and then the
identifiers that are registered are those of the schemas that it has told to be valid, in whatever order
the directory is listed (`Validator.run_directory`).
-/

set_option autoImplicit false

namespace Scim

/-! ## What the loader skips -/

namespace Registry

/-- A registry with the files that were skipped, and why. -/
structure Loading where
  registry : Registry
  skipped : List (String × Error)

/-- A file is registered or skipped. -/
def Loading.next (l : Loading) (e : String × Node) : Loading :=
  match e.2.loadSchema with
  | .ok s => { l with registry := l.registry.register s }
  | .error cause => { l with skipped := l.skipped ++ [(e.1, cause)] }

/-- Loads the files of a directory in the order in which it lists them. -/
def loading (entries : List (String × Node)) : Loading :=
  (schemaFiles entries).foldl .next ⟨empty, []⟩

theorem registry_foldl_next (files : List (String × Node)) (l : Loading) :
    (files.foldl .next l).registry =
      (files.filterMap fun e => e.2.loadSchema.toOption).foldl register l.registry := by
  induction files generalizing l with
  | nil => rfl
  | cons e files ih =>
    rw [List.foldl_cons, ih, List.filterMap_cons, Loading.next]
    cases e.2.loadSchema <;> rfl

/-- The account leaves the registry as it is. -/
theorem ofDirectory_loading (entries : List (String × Node)) :
    ofDirectory (.directory entries) = .ok (loading entries).registry := by
  rw [loading, registry_foldl_next]
  exact congrArg Except.ok (ofEntries_eq entries)

theorem skipped_foldl_next (files : List (String × Node)) (l : Loading) :
    (files.foldl .next l).skipped = [] ↔
      l.skipped = [] ∧ ∀ e ∈ files, ∃ s, e.2.loadSchema = .ok s := by
  induction files generalizing l with
  | nil => simp
  | cons e files ih =>
    rw [List.foldl_cons, ih, List.forall_mem_cons, ← and_assoc]
    refine and_congr_left fun _ => ?_
    unfold Loading.next
    cases e.2.loadSchema <;> simp

end Registry

/-- All files of a directory that should hold schemas do. -/
def AllLoad (entries : List (String × Node)) : Prop :=
  ∀ e ∈ entries, isSchemaFile e.1 = true → ∃ s, e.2.loadSchema = .ok s

theorem skipped_loading_eq_nil_iff {entries : List (String × Node)} :
    (Registry.loading entries).skipped = [] ↔ AllLoad entries := by
  rw [Registry.loading, Registry.skipped_foldl_next]
  simp only [true_and, schemaFiles, List.mem_filter, and_imp, AllLoad]

/-! ## What is told -/

namespace Validator

/-- Whether a line of the standard output begins with a text. -/
def Line.begins (start : String) : Line → Bool
  | .out text => start.toList.isPrefixOf text.toList
  | .err _ => false

theorem filter_begins_eq_nil {start : String} {lines : List Line}
    (h : ∀ l ∈ lines, l.begins start = false) : lines.filter (Line.begins start) = [] :=
  List.filter_eq_nil_iff.2 fun l hl => by simp [h l hl]

/-- The line that tells that a schema is valid. -/
def valid (s : Schema) : Line :=
  .out s!"  ✓ Valid - {s.name} ({s.id})"

/-- The line that is told before the registry is loaded. -/
def loadingLine : Line :=
  .out "Testing schema registry loading..."

theorem begins_valid (s : Schema) : (valid s).begins "  ✓ Valid - " = true := by
  simp [valid, Line.begins, toString]

theorem begins_warningLines {s : Schema} {l : Line} (h : l ∈ warningLines "    " s) :
    l.begins "  ✓ Valid - " = false ∧ l.begins "Testing" = false := by
  obtain ⟨w, -, rfl⟩ := List.mem_map.1 h
  simp [Line.begins, toString, List.isPrefixOf]

theorem begins_registry {r : Registry} {l : Line} (h : l ∈ registry r) :
    l.begins "  ✓ Valid - " = false := by
  simp only [registry, List.mem_cons, List.mem_map] at h
  rcases h with rfl | rfl | rfl | rfl | ⟨e, -, rfl⟩ <;>
    simp [Line.begins, toString, List.isPrefixOf]

/-- About a file it is told that its schema is valid exactly if it loads. -/
theorem filter_entry (name : String) (loaded : Except Error Schema) :
    (entry name loaded).filter (Line.begins "  ✓ Valid - ") = loaded.toOption.toList.map valid := by
  have hname : (Line.out s!"Validating: {name}").begins "  ✓ Valid - " = false := by
    simp [Line.begins, toString, List.isPrefixOf]
  unfold entry
  rw [List.filter_cons_of_neg (by decide), List.filter_cons_of_neg (by simp [hname])]
  cases loaded with
  | error cause => rfl
  | ok s =>
    have hwarnings : (warningLines "    " s).filter (Line.begins "  ✓ Valid - ") = [] :=
      filter_begins_eq_nil fun _ hl => (begins_warningLines hl).1
    show List.filter _ (valid s :: warningLines "    " s) = [valid s]
    rw [List.filter_cons_of_pos (begins_valid s), hwarnings]

theorem begins_entry {name : String} {loaded : Except Error Schema} {l : Line}
    (h : l ∈ entry name loaded) : l.begins "Testing" = false := by
  unfold entry at h
  rcases List.mem_cons.1 h with rfl | h
  · rfl
  rcases List.mem_cons.1 h with rfl | h
  · simp [Line.begins, toString, List.isPrefixOf]
  cases loaded with
  | error cause =>
    obtain rfl := List.mem_singleton.1 h
    rfl
  | ok s =>
    rcases List.mem_cons.1 h with rfl | h
    · simp [Line.begins, toString, List.isPrefixOf]
    · exact (begins_warningLines h).2

/-! ## Directories -/

/-- The files that should hold schemas, with what loading them gives. -/
def loads (entries : List (String × Node)) : List (String × Except Error Schema) :=
  (schemaFiles entries).map fun e => (e.1, e.2.loadSchema)

/-- How many files have a schema and how many have none. -/
def counts (entries : List (String × Node)) : List Line :=
  [.out "", .out "Validation Summary:",
    .out s!"  Valid schemas: {((loads entries).filter fun e => e.2.isOk).length}",
    .out s!"  Invalid schemas: {((loads entries).filter fun e => !e.2.isOk).length}"]

/-- What is told about a directory without its registry. -/
def told (path : String) (entries : List (String × Node)) : List Line :=
  .out s!"Validating schemas in directory: {path}" ::
    (loads entries).flatMap (fun e => entry e.1 e.2) ++ counts entries

theorem filter_loads_eq_nil_iff {entries : List (String × Node)} :
    ((loads entries).filter fun e => !e.2.isOk) = [] ↔ AllLoad entries := by
  rw [List.filter_eq_nil_iff, loads, List.forall_mem_map]
  simp only [schemaFiles, List.mem_filter, and_imp, AllLoad]
  refine forall₃_congr fun e _ _ => ?_
  cases e.2.loadSchema <;> simp [Except.isOk, Except.toBool]

theorem directory_of_allLoad (path : String) {entries : List (String × Node)} (h : AllLoad entries) :
    directory path entries = ⟨told path entries ++ registry (.ofEntries entries), 0⟩ :=
  if_pos (List.isEmpty_iff.2 (filter_loads_eq_nil_iff.2 h))

theorem directory_of_not_allLoad (path : String) {entries : List (String × Node)}
    (h : ¬ AllLoad entries) : directory path entries = ⟨told path entries, 1⟩ :=
  if_neg fun hempty => h (filter_loads_eq_nil_iff.1 (List.isEmpty_iff.1 hempty))

theorem begins_counts {entries : List (String × Node)} {l : Line} (h : l ∈ counts entries) :
    l.begins "  ✓ Valid - " = false ∧ l.begins "Testing" = false := by
  simp only [counts, List.mem_cons, List.not_mem_nil, or_false] at h
  rcases h with rfl | rfl | rfl | rfl <;> simp [Line.begins, toString, List.isPrefixOf]

/-- Of the files of a directory exactly those that load are told to be valid, in their order. -/
theorem filter_told (path : String) (entries : List (String × Node)) :
    (told path entries).filter (Line.begins "  ✓ Valid - ") = (loadedSchemas entries).map valid := by
  have hcounts : (counts entries).filter (Line.begins "  ✓ Valid - ") = [] :=
    filter_begins_eq_nil fun _ hl => (begins_counts hl).1
  rw [told, List.filter_append, hcounts, List.append_nil,
    List.filter_cons_of_neg (by simp [Line.begins, toString, List.isPrefixOf]), List.filter_flatMap]
  simp only [filter_entry, loads, List.flatMap_map, loadedSchemas]
  rw [← List.map_flatMap, ← List.filterMap_eq_flatMap_toList]

theorem begins_told {path : String} {entries : List (String × Node)} {l : Line}
    (h : l ∈ told path entries) : l.begins "Testing" = false := by
  rcases List.mem_append.1 h with h | h
  · rcases List.mem_cons.1 h with rfl | h
    · simp [Line.begins, toString, List.isPrefixOf]
    · obtain ⟨e, -, he⟩ := List.mem_flatMap.1 h
      exact begins_entry he
  · exact (begins_counts h).2

end Validator

theorem Registry.mem_ids_ofEntries {entries : List (String × Node)} {id : String} :
    id ∈ (ofEntries entries).ids ↔ ∃ s ∈ loadedSchemas entries, s.id = id := by
  rw [ids, Table.mem_keys_iff, ← get?, Ne, get?_ofEntries_eq_none_iff]
  simp only [not_forall, not_not, exists_prop]

namespace Validator

/-- What a run on a directory and the loader have to do with each other. -/
structure Agrees (outcome : Outcome) (entries : List (String × Node)) : Prop where
  /-- The run succeeds exactly if all files load. -/
  exit : outcome.exit = 0 ↔ AllLoad entries
  /-- It succeeds exactly if the loader skips nothing, in whatever order it meets the files. -/
  skipped : ∀ listed, entries.Perm listed →
    (outcome.exit = 0 ↔ (Registry.loading listed).skipped = [])
  /-- The schemas that load are told to be valid, in their order, and no others are. -/
  reported : outcome.lines.filter (Line.begins "  ✓ Valid - ") = (loadedSchemas entries).map valid
  /-- Success comes with the registry, and the identifiers in it are those of the valid schemas. -/
  registered : outcome.exit = 0 →
    (∃ report, outcome.lines = report ++ registry (.ofEntries entries)) ∧
      ∀ listed, entries.Perm listed →
        Registry.ofDirectory (.directory listed) = .ok (Registry.loading listed).registry ∧
          ∀ id, id ∈ (Registry.loading listed).registry.ids ↔ ∃ s ∈ loadedSchemas entries, s.id = id
  /-- Where a file does not load, the registry is not loaded either. -/
  failed : ¬ AllLoad entries → outcome.exit = 1 ∧ loadingLine ∉ outcome.lines

theorem agrees_directory (path : String) (entries : List (String × Node)) :
    Agrees (directory path entries) entries := by
  have hloading : loadingLine ∉ told path entries := fun h => by
    have hbegins := begins_told h
    revert hbegins
    decide
  have hexit : (directory path entries).exit = 0 ↔ AllLoad entries := by
    by_cases h : AllLoad entries
    · simp [directory_of_allLoad path h, h]
    · simp [directory_of_not_allLoad path h, h]
  refine ⟨hexit, fun listed hlisted => ?_, ?_, fun h => ⟨?_, fun listed hlisted => ?_⟩, fun h => ?_⟩
  · rw [hexit, skipped_loading_eq_nil_iff]
    exact forall_congr' fun e => imp_congr_left hlisted.mem_iff
  · by_cases h : AllLoad entries
    · have hregistry : (registry (.ofEntries entries)).filter (Line.begins "  ✓ Valid - ") = [] :=
        filter_begins_eq_nil fun _ => begins_registry
      rw [directory_of_allLoad path h, List.filter_append, filter_told, hregistry, List.append_nil]
    · rw [directory_of_not_allLoad path h, filter_told]
  · rw [directory_of_allLoad path (hexit.1 h)]
    exact ⟨told path entries, rfl⟩
  · refine ⟨Registry.ofDirectory_loading listed, fun id => ?_⟩
    have hregistry : (Registry.loading listed).registry = .ofEntries listed :=
      (Except.ok.inj (Registry.ofDirectory_loading listed)).symm
    rw [hregistry, Registry.ids_ofEntries_perm hlisted, Registry.mem_ids_ofEntries]
  · rw [directory_of_not_allLoad path h]
    exact ⟨rfl, hloading⟩

/-- **The verdict on a directory is that of the loader.** A run on a directory succeeds exactly if all
files in it that should hold schemas load, which is exactly if the loader skips none of them. Then the
identifiers that the loader registers are those of the schemas that are told to be valid; otherwise the
run fails before the registry is loaded. -/
theorem run_directory {at? : String → Option Node} {path : String} {entries : List (String × Node)}
    (h : at? path = some (.directory entries)) (program : String) (args : List String) :
    Agrees (run program (path :: args) at?) entries := by
  simp only [run, h]
  exact agrees_directory path entries

/-- Two files with one identifier and a file for something else are no failure; a file that leads nowhere
is. -/
theorem run_directory_user :
    let entries := [Registry.schemaFile "user.json" Registry.user,
      Registry.schemaFile "member.json" Registry.member, ("notes.txt", .file (.ok []))]
    let lost := entries ++ [("lost.json", .file (.error .notFound))]
    (run "validator" ["schemas"] fun _ => some (.directory entries)).exit = 0 ∧
      "urn:user" ∈ (Registry.loading entries).registry.ids ∧
      (run "validator" ["schemas"] fun _ => some (.directory lost)).exit = 1 ∧
      loadingLine ∉ (run "validator" ["schemas"] fun _ => some (.directory lost)).lines := by
  intro entries lost
  have hall : AllLoad entries := by
    refine List.forall_mem_cons.2 ⟨fun _ => ⟨_, Registry.loadSchema_schemaFile _ rfl (by decide)⟩,
      List.forall_mem_cons.2 ⟨fun _ => ⟨_, Registry.loadSchema_schemaFile _ rfl (by decide)⟩, ?_⟩⟩
    exact List.forall_mem_singleton.2 fun h => absurd h (by decide)
  have hlost : ¬ AllLoad lost := fun h => by
    obtain ⟨s, hs⟩ := h ("lost.json", .file (.error .notFound)) (by simp [lost]) (by decide)
    cases hs
  have hloaded : Registry.user ∈ loadedSchemas entries := by
    rw [Registry.loadedSchemas_user]
    exact List.mem_cons_self
  have hentries : Agrees (run "validator" ["schemas"] fun _ => some (.directory entries)) entries :=
    run_directory rfl "validator" []
  have hfails : Agrees (run "validator" ["schemas"] fun _ => some (.directory lost)) lost :=
    run_directory rfl "validator" []
  have hexit := hentries.exit.2 hall
  obtain ⟨-, hregistered⟩ := hentries.registered hexit
  obtain ⟨hfailed, hlines⟩ := hfails.failed hlost
  exact ⟨hexit, ((hregistered entries (.refl _)).2 _).2 ⟨_, hloaded, rfl⟩, hfailed, hlines⟩

end Validator

end Scim
