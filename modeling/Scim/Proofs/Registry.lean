import Scim.Proofs.Schema.RoundTrip
import Scim.Proofs.Table
import Scim.Registry.Basic

/-!
# Registries of directories

A directory is read in the order in which the system lists it. Under each identifier stands the last
schema that loads with it (`Registry.get?_ofEntries`). So which identifiers are registered does not
depend on the order, and which schema stands under one does exactly where files load different schemas
with it (`Registry.ofDirectory_order`).
-/

set_option autoImplicit false

namespace Scim

theorem Table.mem_keys_iff {α : Type} {t : Table α} {key : String} :
    key ∈ t.keys ↔ t.get? key ≠ none := by
  rw [Table.keys, Table.get?, Entries.get?, Ne, List.lookup_eq_none_iff]
  simp

/-- Tables that hold something under the same keys have these keys. -/
theorem Table.keys_congr {α : Type} {s t : Table α}
    (h : ∀ key, (s.get? key).isSome = (t.get? key).isSome) : s.keys = t.keys := by
  have bare (t : Table α) : Entries.Ascending (t.entries.map fun e => (e.1, ())) :=
    List.pairwise_map.2 t.ascending
  have hentries : (s.entries.map fun e => (e.1, ())) = t.entries.map fun e => (e.1, ()) := by
    refine Entries.ext (bare s) (bare t) fun key => ?_
    have hkey : (Entries.get? s.entries key).isSome = (Entries.get? t.entries key).isSome := h key
    rw [Entries.get?_map fun _ => (), Entries.get?_map fun _ => ()]
    revert hkey
    cases Entries.get? s.entries key <;> cases Entries.get? t.entries key <;> simp
  have hkeys := congrArg (List.map Prod.fst) hentries
  rwa [List.map_map, List.map_map] at hkeys

/-! ## Files that load -/

/-- The schemas in the files of a directory, without the files that do not load. -/
def loadedSchemas (entries : List (String × Node)) : List Schema :=
  (schemaFiles entries).filterMap fun e => e.2.loadSchema.toOption

theorem exists_split_of_mem_loadedSchemas {entries : List (String × Node)} {s : Schema}
    (h : s ∈ loadedSchemas entries) :
    ∃ before e after, entries = before ++ e :: after ∧ loadedSchemas [e] = [s] := by
  obtain ⟨e, he, hload⟩ := List.mem_filterMap.1 h
  obtain ⟨hmem, hname⟩ := List.mem_filter.1 he
  obtain ⟨before, after, rfl⟩ := List.append_of_mem hmem
  refine ⟨before, e, after, rfl, ?_⟩
  have hfiles : schemaFiles [e] = [e] := List.filter_cons_of_pos hname
  rw [loadedSchemas, hfiles]
  simp only [List.filterMap_cons, List.filterMap_nil, hload]

theorem loadedSchemas_append (before after : List (String × Node)) :
    loadedSchemas (before ++ after) = loadedSchemas before ++ loadedSchemas after := by
  rw [loadedSchemas, schemaFiles, List.filter_append, List.filterMap_append]
  rfl

theorem loadedSchemas_perm {entries listed : List (String × Node)} (h : entries.Perm listed) :
    (loadedSchemas entries).Perm (loadedSchemas listed) :=
  (h.filter _).filterMap _

/-- All files that load with the identifier hold one schema. -/
def Undisputed (entries : List (String × Node)) (id : String) : Prop :=
  ∀ s ∈ loadedSchemas entries, ∀ t ∈ loadedSchemas entries, s.id = id → t.id = id → s = t

/-! ## Registration -/

namespace Registry

theorem get?_register (r : Registry) (s : Schema) (id : String) :
    (r.register s).get? id = if id = s.id then some s else r.get? id :=
  Table.get?_update r.schemas s.id _ id

/-- Of the schemas with one identifier the last stays. -/
theorem get?_foldl_register (schemas : List Schema) (r : Registry) (id : String) :
    (schemas.foldl register r).get? id =
      (schemas.filter fun s => s.id == id).getLast?.or (r.get? id) := by
  induction schemas generalizing r with
  | nil => rfl
  | cons s schemas ih =>
    rw [List.foldl_cons, ih, get?_register, List.filter_cons]
    by_cases h : s.id = id
    · rw [if_pos h.symm, if_pos (beq_iff_eq.2 h), List.getLast?_cons]
      cases (schemas.filter fun s => s.id == id).getLast? <;> rfl
    · rw [if_neg fun he => h he.symm, if_neg fun he => h (beq_iff_eq.1 he)]

/-- The schemas that load are registered one after the other. -/
theorem ofEntries_eq (entries : List (String × Node)) :
    ofEntries entries = (loadedSchemas entries).foldl register empty := by
  rw [ofEntries, loadedSchemas, List.foldl_filterMap]
  congr 1
  funext r e
  cases e.2.loadSchema <;> rfl

theorem get?_ofEntries (entries : List (String × Node)) (id : String) :
    (ofEntries entries).get? id =
      ((loadedSchemas entries).filter fun s => s.id == id).getLast? := by
  rw [ofEntries_eq, get?_foldl_register]
  exact Option.or_none

theorem get?_ofEntries_eq_none_iff {entries : List (String × Node)} {id : String} :
    (ofEntries entries).get? id = none ↔ ∀ s ∈ loadedSchemas entries, s.id ≠ id := by
  rw [get?_ofEntries, List.getLast?_eq_none_iff, List.filter_eq_nil_iff]
  simp only [beq_iff_eq, ne_eq]

theorem mem_of_get?_ofEntries {entries : List (String × Node)} {id : String} {s : Schema}
    (h : (ofEntries entries).get? id = some s) : s ∈ loadedSchemas entries ∧ s.id = id := by
  rw [get?_ofEntries] at h
  obtain ⟨hmem, hid⟩ := List.mem_filter.1 (List.mem_of_getLast? h)
  exact ⟨hmem, beq_iff_eq.1 hid⟩

/-! ## Orders of one directory -/

section
variable {entries listed : List (String × Node)}

theorem get?_ofEntries_none_perm (h : entries.Perm listed) (id : String) :
    (ofEntries listed).get? id = none ↔ (ofEntries entries).get? id = none := by
  rw [get?_ofEntries_eq_none_iff, get?_ofEntries_eq_none_iff]
  exact forall_congr' fun s => imp_congr_left (loadedSchemas_perm h).mem_iff.symm

/-- The identifiers are those of the files that load, in whatever order. -/
theorem ids_ofEntries_perm (h : entries.Perm listed) :
    (ofEntries listed).ids = (ofEntries entries).ids := by
  refine Table.keys_congr fun id => ?_
  rw [Bool.eq_iff_iff, Option.isSome_iff_ne_none, Option.isSome_iff_ne_none]
  exact not_congr (get?_ofEntries_none_perm h id)

/-- Where files agree, the order cannot be seen. -/
theorem get?_ofEntries_perm {id : String} (h : entries.Perm listed) (hid : Undisputed entries id) :
    (ofEntries listed).get? id = (ofEntries entries).get? id := by
  cases hlisted : (ofEntries listed).get? id with
  | none => exact ((get?_ofEntries_none_perm h id).1 hlisted).symm
  | some s =>
    cases hentries : (ofEntries entries).get? id with
    | none => cases hlisted.symm.trans ((get?_ofEntries_none_perm h id).2 hentries)
    | some t =>
      obtain ⟨hs, hsid⟩ := mem_of_get?_ofEntries hlisted
      obtain ⟨ht, htid⟩ := mem_of_get?_ofEntries hentries
      rw [hid s ((loadedSchemas_perm h).mem_iff.2 hs) t ht hsid htid]

/-- A file that is listed last prevails. -/
theorem exists_listed_last {s : Schema} (h : s ∈ loadedSchemas entries) :
    ∃ listed, entries.Perm listed ∧ (ofEntries listed).get? s.id = some s := by
  obtain ⟨before, e, after, rfl, he⟩ := exists_split_of_mem_loadedSchemas h
  refine ⟨before ++ after ++ [e], ?_, ?_⟩
  · rw [List.append_assoc]
    exact (@List.perm_append_comm _ [e] after).append_left before
  · rw [get?_ofEntries, loadedSchemas_append, he, List.filter_append, List.filter_cons_of_pos (by simp)]
    exact List.getLast?_concat

end

/-- **What the order of a directory decides.** In every order a directory gives a registry, with the same
identifiers, and under each the last schema listed with it; under one identifier that is the same in all
orders exactly if all files that load with it hold one schema. -/
theorem ofDirectory_order (entries : List (String × Node)) :
    (∀ listed, entries.Perm listed →
      ofDirectory (.directory listed) = .ok (ofEntries listed) ∧
      (ofEntries listed).ids = (ofEntries entries).ids ∧
      ∀ id, (ofEntries listed).get? id =
        ((loadedSchemas listed).filter fun s => s.id == id).getLast?) ∧
    ∀ id, (∀ listed, entries.Perm listed →
      (ofEntries listed).get? id = (ofEntries entries).get? id) ↔ Undisputed entries id := by
  refine ⟨fun listed h => ⟨rfl, ids_ofEntries_perm h, get?_ofEntries listed⟩, fun id => ⟨?_, ?_⟩⟩
  · intro hsame s hs t ht hsid htid
    have prevails {s : Schema} (hs : s ∈ loadedSchemas entries) (hid : s.id = id) :
        (ofEntries entries).get? id = some s := by
      obtain ⟨listed, hperm, hlast⟩ := exists_listed_last hs
      rw [← hsame listed hperm, ← hid, hlast]
    exact Option.some.inj ((prevails hs hsid).symm.trans (prevails ht htid))
  · exact fun hid listed h => get?_ofEntries_perm h hid

/-! ## Files that disagree -/

/-- A file with the document of a schema. -/
def schemaFile (name : String) (s : Schema) : String × Node :=
  (name, .file s.toJson.compact.toByteArray.data.toList)

theorem read_text (text : String) : (Node.file text.toByteArray.data.toList).read = .ok text := by
  have hbytes : (⟨text.toByteArray.data.toList.toArray⟩ : ByteArray) = text.toByteArray := by
    rw [Array.toArray_toList]
  have htext : String.fromUTF8? text.toByteArray = some text := dif_pos text.isValidUTF8
  rw [Node.read, hbytes, htext]

theorem loadSchema_schemaFile (name : String) {s : Schema} (hcheck : s.check = .ok ())
    (hdepth : s.toJson.depth ≤ Json.maxLevels) : (schemaFile name s).2.loadSchema = .ok s := by
  rw [schemaFile, Node.loadSchema, read_text]
  exact Schema.load_eq_ok.2 ⟨(Schema.decoder_reads hdepth).decode_compact, hcheck⟩

theorem loadedSchemas_cons (name : String) (s : Schema) (rest : List (String × Node))
    (hname : isSchemaFile name = true) (hcheck : s.check = .ok ())
    (hdepth : s.toJson.depth ≤ Json.maxLevels) :
    loadedSchemas (schemaFile name s :: rest) = s :: loadedSchemas rest := by
  have hload : (schemaFile name s).2.loadSchema = .ok s := loadSchema_schemaFile name hcheck hdepth
  have hfiles : schemaFiles (schemaFile name s :: rest) = schemaFile name s :: schemaFiles rest :=
    List.filter_cons_of_pos hname
  rw [loadedSchemas, hfiles, List.filterMap_cons, hload]
  rfl

def user : Schema := .new "urn:user" "User" ""

/-- Another schema with the identifier of a user. -/
def member : Schema := .new "urn:user" "Member" ""

def group : Schema := .new "urn:group" "Group" ""

theorem loadedSchemas_user (rest : List (String × Node)) :
    loadedSchemas (schemaFile "user.json" user :: rest) = user :: loadedSchemas rest :=
  loadedSchemas_cons _ _ rest (by decide) rfl (by decide)

theorem loadedSchemas_member (rest : List (String × Node)) :
    loadedSchemas (schemaFile "member.json" member :: rest) = member :: loadedSchemas rest :=
  loadedSchemas_cons _ _ rest (by decide) rfl (by decide)

theorem loadedSchemas_group (rest : List (String × Node)) :
    loadedSchemas (schemaFile "group.json" group :: rest) = group :: loadedSchemas rest :=
  loadedSchemas_cons _ _ rest (by decide) rfl (by decide)

theorem user_ne_member : user ≠ member := by
  simp [user, member, Schema.new]

/-- Two files load different schemas with one identifier, and the one that is listed last stands under
it. -/
theorem ofDirectory_disputed :
    let entries := [schemaFile "user.json" user, schemaFile "member.json" member]
    let listed := [schemaFile "member.json" member, schemaFile "user.json" user]
    entries.Perm listed ∧ ∃ r r', ofDirectory (.directory entries) = .ok r ∧
      ofDirectory (.directory listed) = .ok r' ∧ r.get? "urn:user" = some member ∧
      r'.get? "urn:user" = some user ∧ r ≠ r' := by
  intro entries listed
  have hentries : (ofEntries entries).get? "urn:user" = some member := by
    rw [get?_ofEntries, loadedSchemas_user, loadedSchemas_member]
    rfl
  have hlisted : (ofEntries listed).get? "urn:user" = some user := by
    rw [get?_ofEntries, loadedSchemas_member, loadedSchemas_user]
    rfl
  refine ⟨.swap _ _ _, _, _, rfl, rfl, hentries, hlisted, fun he => ?_⟩
  rw [he, hlisted] at hentries
  exact user_ne_member (Option.some.inj hentries)

/-- A third file agrees with itself: what stands under its identifier is the same in all orders. -/
theorem ofDirectory_order_group :
    let entries := [schemaFile "user.json" user, schemaFile "member.json" member,
      schemaFile "group.json" group]
    let listed := [schemaFile "member.json" member, schemaFile "user.json" user,
      schemaFile "group.json" group]
    entries.Perm listed ∧ (ofEntries listed).ids = (ofEntries entries).ids ∧
      Undisputed entries "urn:group" ∧
      (ofEntries listed).get? "urn:group" = (ofEntries entries).get? "urn:group" ∧
      ¬ ∀ listed, entries.Perm listed →
        (ofEntries listed).get? "urn:user" = (ofEntries entries).get? "urn:user" := by
  intro entries listed
  have hloaded : loadedSchemas entries = [user, member, group] := by
    rw [loadedSchemas_user, loadedSchemas_member, loadedSchemas_group]
    rfl
  have hperm : entries.Perm listed := .swap _ _ _
  have only {s : Schema} (hs : s ∈ loadedSchemas entries) (hid : s.id = "urn:group") : s = group := by
    rw [hloaded] at hs
    rcases List.mem_cons.1 hs with rfl | hs
    · exact absurd hid (by decide)
    rcases List.mem_cons.1 hs with rfl | hs
    · exact absurd hid (by decide)
    · exact List.mem_singleton.1 hs
  have hgroup : Undisputed entries "urn:group" :=
    fun s hs t ht hsid htid => (only hs hsid).trans (only ht htid).symm
  have hsame := (ofDirectory_order entries).2 "urn:group"
  have huser := (ofDirectory_order entries).2 "urn:user"
  refine ⟨hperm, ((ofDirectory_order entries).1 listed hperm).2.1, hgroup, hsame.2 hgroup listed hperm,
    fun h => user_ne_member ?_⟩
  exact huser.1 h user (by simp [hloaded]) member (by simp [hloaded]) rfl rfl

end Registry

end Scim
