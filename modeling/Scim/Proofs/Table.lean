import Scim.Table

/-!
# Entries of lists

What `Entries.ofList` keeps of a list: nothing that is not in it (`mem_of_mem_ofList`), of entries with
one key the last (`get?_ofList_last`), and so all of it if no key stands twice (`get?_ofList`).
-/

set_option autoImplicit false

namespace Scim.Entries

variable {α : Type}

theorem mem_of_mem_ofList {entries : List (String × α)} {e : String × α} (h : e ∈ ofList entries) :
    e ∈ entries := by
  have kept : ∀ (entries t : List (String × α)),
      e ∈ entries.foldl (fun t e => insert e.1 e.2 t) t → e ∈ t ∨ e ∈ entries := by
    intro entries
    induction entries with
    | nil => exact fun t h => .inl h
    | cons a entries ih =>
      intro t h
      rcases ih _ h with h | h
      · rcases mem_update h with ⟨hk, _, hv⟩ | h
        · exact .inr (List.mem_cons.2 (.inl (Prod.ext hk hv)))
        · exact .inl h
      · exact .inr (List.mem_cons_of_mem _ h)
  exact (kept entries [] h).resolve_left List.not_mem_nil

theorem get?_eq_none {t : List (String × α)} {key : String} (h : key ∉ t.map Prod.fst) :
    get? t key = none := by
  rw [get?, List.lookup_eq_none_iff]
  intro e he
  rw [bne_iff_ne]
  rintro rfl
  exact h (List.mem_map_of_mem he)

theorem get?_map {β : Type} (f : α → β) (t : List (String × α)) (key : String) :
    get? (t.map fun e => (e.1, f e.2)) key = (get? t key).map f := by
  induction t with
  | nil => rfl
  | cons e t ih =>
    show get? ((e.1, f e.2) :: t.map fun e => (e.1, f e.2)) key = (get? ((e.1, e.2) :: t) key).map f
    rw [get?_cons, get?_cons, ih]
    split <;> rfl

theorem get?_append (s t : List (String × α)) (key : String) :
    get? (s ++ t) key = (get? s key).or (get? t key) :=
  List.lookup_append

theorem get?_insert {t : List (String × α)} (h : Ascending t) (key : String) (value : α)
    (k : String) : get? (insert key value t) k = if k = key then some value else get? t k :=
  get?_update h key _ k

/-- Entries whose keys differ come over what a list held before them. -/
theorem get?_foldl_insert {entries t : List (String × α)} (ht : Ascending t)
    (h : (entries.map Prod.fst).Nodup) (key : String) :
    get? (entries.foldl (fun t e => insert e.1 e.2 t) t) key =
      (get? entries key).or (get? t key) := by
  induction entries generalizing t with
  | nil => rfl
  | cons e entries ih =>
    rw [List.map_cons, List.nodup_cons] at h
    rw [List.foldl_cons, ih (ascending_insert ht) h.2, get?_insert ht, get?_cons]
    by_cases hk : key = e.1
    · rw [if_pos hk, if_pos hk, hk, get?_eq_none h.1]
      rfl
    · rw [if_neg hk, if_neg hk]

/-- A key that entries do not have keeps what it holds. -/
theorem get?_foldl_insert_of_notMem {entries t : List (String × α)} (ht : Ascending t) {key : String}
    (h : key ∉ entries.map Prod.fst) :
    get? (entries.foldl (fun t e => insert e.1 e.2 t) t) key = get? t key := by
  induction entries generalizing t with
  | nil => rfl
  | cons e entries ih =>
    rw [List.map_cons, List.mem_cons, not_or] at h
    rw [List.foldl_cons, ih (ascending_insert ht) h.2, get?_insert ht, if_neg h.1]

/-- Of the entries with one key the last stays. -/
theorem get?_ofList_last (s : List (String × α)) {e : String × α} {t : List (String × α)}
    (h : e.1 ∉ t.map Prod.fst) : get? (ofList (s ++ e :: t)) e.1 = some e.2 := by
  have hlast : ofList (s ++ e :: t) =
      t.foldl (fun t e => insert e.1 e.2 t) (insert e.1 e.2 (ofList s)) := by
    rw [ofList, List.foldl_append, List.foldl_cons]
    rfl
  rw [hlast, get?_foldl_insert_of_notMem (ascending_insert (ascending_ofList s)) h,
    get?_insert (ascending_ofList s), if_pos rfl]

/-- Where no key stands twice, nothing is replaced. -/
theorem get?_ofList {entries : List (String × α)} (h : (entries.map Prod.fst).Nodup)
    (key : String) : get? (ofList entries) key = get? entries key := by
  rw [ofList, get?_foldl_insert List.Pairwise.nil h]
  exact Option.or_none

/-- Of two lists in which no key stands twice, the second replaces what it has in common with the
first. -/
theorem get?_ofList_append {s t : List (String × α)} (hs : (s.map Prod.fst).Nodup)
    (ht : (t.map Prod.fst).Nodup) (key : String) :
    get? (ofList (s ++ t)) key = (get? t key).or (get? s key) := by
  have happend : ofList (s ++ t) = t.foldl (fun t e => insert e.1 e.2 t) (ofList s) := by
    rw [ofList, List.foldl_append]
    rfl
  rw [happend, get?_foldl_insert (ascending_ofList s) ht, get?_ofList hs]

/-- Where no key stands twice, what is found under a key is the entry with it. -/
theorem get?_eq_some_iff {t : List (String × α)} (h : (t.map Prod.fst).Nodup) {e : String × α} :
    get? t e.1 = some e.2 ↔ e ∈ t := by
  constructor
  · intro hget
    obtain ⟨l₁, l₂, hl, -⟩ := List.lookup_eq_some_iff.1 hget
    simp [hl]
  · intro he
    obtain ⟨l₁, l₂, rfl⟩ := List.append_of_mem he
    rw [List.map_append, List.map_cons, List.nodup_append] at h
    have hnone : get? l₁ e.1 = none :=
      get?_eq_none fun hk => h.2.2 _ hk _ List.mem_cons_self rfl
    rw [get?_append, hnone, Option.none_or]
    show get? ((e.1, e.2) :: l₂) e.1 = _
    rw [get?_cons, if_pos rfl]

theorem Ascending.nodup {t : List (String × α)} (h : Ascending t) : (t.map Prod.fst).Nodup := by
  rw [List.Nodup, List.pairwise_map]
  refine h.imp fun {a b} hlt he => ?_
  rw [he] at hlt
  exact String.lt_irrefl _ hlt

theorem Ascending.eq_of_mem {t : List (String × α)} (h : Ascending t) {key : String} {v w : α}
    (hv : (key, v) ∈ t) (hw : (key, w) ∈ t) : v = w := by
  have hget {x : α} (hx : (key, x) ∈ t) : get? t key = some x :=
    (get?_eq_some_iff h.nodup (e := (key, x))).2 hx
  exact Option.some.inj ((hget hv).symm.trans (hget hw))

/-- Entries whose keys ascend are determined by which they are. -/
theorem Ascending.eq_of_mem_iff {s t : List (String × α)} (hs : Ascending s) (ht : Ascending t)
    (h : ∀ e, e ∈ s ↔ e ∈ t) : s = t := by
  refine Entries.ext hs ht fun key => Option.ext fun v => ?_
  have hget {u : List (String × α)} (hu : Ascending u) : get? u key = some v ↔ (key, v) ∈ u :=
    get?_eq_some_iff hu.nodup (e := (key, v))
  rw [hget hs, hget ht, h]

/-- Entries whose keys differ give the list of them in ascending order. -/
theorem ofList_eq_of_perm {entries t : List (String × α)} (h : entries.Perm t) (ht : Ascending t) :
    ofList entries = t := by
  have hkeys : (entries.map Prod.fst).Nodup := (h.map Prod.fst).nodup_iff.2 ht.nodup
  refine ext (ascending_ofList entries) ht fun key => Option.ext fun v => ?_
  rw [get?_ofList hkeys]
  exact (get?_eq_some_iff hkeys (e := (key, v))).trans
    (h.mem_iff.trans (get?_eq_some_iff ht.nodup (e := (key, v))).symm)

end Scim.Entries
