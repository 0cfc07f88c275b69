/-! # Tables

Entries are keys with values, in a list. `Entries.update` keeps the keys of a list ascending in the
order of their characters. A table is a list of entries whose keys ascend, so it is determined by what
it holds under each key (`Table.ext`), and a change is seen under its own key only
(`Table.get?_update`).
-/

set_option autoImplicit false

namespace Scim

namespace Entries

variable {α : Type}

/-- The keys ascend, so that none stands twice. -/
def Ascending (t : List (String × α)) : Prop :=
  t.Pairwise fun a b => a.1 < b.1

/-- Puts under `key` what `f` makes of the value that stands there. -/
def update (key : String) (f : Option α → α) : List (String × α) → List (String × α)
  | [] => [(key, f none)]
  | (k, v) :: rest =>
    if key < k then (key, f none) :: (k, v) :: rest
    else if key = k then (k, f (some v)) :: rest
    else (k, v) :: update key f rest

/-- A value that stands under the key already is replaced. -/
def insert (key : String) (value : α) (t : List (String × α)) : List (String × α) :=
  update key (fun _ => value) t

/-- The entries of a list; of those with one key the last stays. -/
def ofList (entries : List (String × α)) : List (String × α) :=
  entries.foldl (fun t e => insert e.1 e.2 t) []

def get? (t : List (String × α)) (key : String) : Option α :=
  t.lookup key

/-! ## Order -/

theorem mem_update {key : String} {f : Option α → α} {t : List (String × α)} {e : String × α}
    (h : e ∈ update key f t) : (e.1 = key ∧ ∃ old, e.2 = f old) ∨ e ∈ t := by
  induction t with
  | nil =>
    simp only [update, List.mem_singleton] at h
    exact .inl ⟨by rw [h], none, by rw [h]⟩
  | cons a t ih =>
    obtain ⟨k, v⟩ := a
    simp only [update] at h
    split at h
    · rcases List.mem_cons.1 h with rfl | h
      · exact .inl ⟨rfl, none, rfl⟩
      · exact .inr h
    · split at h
      · rename_i hk
        rcases List.mem_cons.1 h with rfl | h
        · exact .inl ⟨hk.symm, some v, rfl⟩
        · exact .inr (List.mem_cons_of_mem _ h)
      · rcases List.mem_cons.1 h with rfl | h
        · exact .inr List.mem_cons_self
        · exact (ih h).imp_right (List.mem_cons_of_mem _)

theorem lt_of_mem {k : String} {v : α} {t : List (String × α)} (h : Ascending ((k, v) :: t)) :
    ∀ e ∈ t, k < e.1 :=
  (List.pairwise_cons.1 h).1

theorem Ascending.tail {a : String × α} {t : List (String × α)} (h : Ascending (a :: t)) :
    Ascending t :=
  (List.pairwise_cons.1 h).2

theorem ascending_update {key : String} {f : Option α → α} {t : List (String × α)}
    (h : Ascending t) : Ascending (update key f t) := by
  induction t with
  | nil => simp [update, Ascending]
  | cons a t ih =>
    obtain ⟨k, v⟩ := a
    simp only [update]
    split
    · rename_i hlt
      refine List.pairwise_cons.2 ⟨fun e he => ?_, h⟩
      rcases List.mem_cons.1 he with rfl | he
      · exact hlt
      · exact String.lt_trans hlt (lt_of_mem h e he)
    · split
      · exact List.pairwise_cons.2 ⟨lt_of_mem h, h.tail⟩
      · rename_i hlt hne
        refine List.pairwise_cons.2 ⟨fun e he => ?_, ih h.tail⟩
        rcases mem_update he with he | he
        · rw [he.1]
          exact Std.lt_of_le_of_ne (String.not_lt.1 hlt) (fun h => hne h.symm)
        · exact lt_of_mem h e he

theorem ascending_insert {key : String} {value : α} {t : List (String × α)} (h : Ascending t) :
    Ascending (insert key value t) :=
  ascending_update h

theorem ascending_ofList (entries : List (String × α)) : Ascending (ofList entries) := by
  unfold ofList
  suffices ∀ t : List (String × α), Ascending t →
      Ascending (entries.foldl (fun t e => insert e.1 e.2 t) t) from
    this [] List.Pairwise.nil
  induction entries with
  | nil => exact fun _ h => h
  | cons e entries ih => exact fun t h => ih _ (ascending_insert h)

/-! ## Values under keys -/

theorem get?_cons (k : String) (v : α) (t : List (String × α)) (key : String) :
    get? ((k, v) :: t) key = if key = k then some v else get? t key := by
  rw [get?, List.lookup_cons]
  by_cases h : key = k
  · simp [h]
  · rw [if_neg h, beq_false_of_ne h]
    rfl

theorem get?_eq_none_of_lt {t : List (String × α)} {key : String} (h : ∀ e ∈ t, key < e.1) :
    get? t key = none := by
  induction t with
  | nil => rfl
  | cons a t ih =>
    obtain ⟨k, v⟩ := a
    have hk : key ≠ k := fun he => String.lt_irrefl k (he ▸ h _ List.mem_cons_self)
    rw [get?_cons, if_neg hk]
    exact ih fun e he => h e (List.mem_cons_of_mem _ he)

theorem get?_update {t : List (String × α)} (h : Ascending t) (key : String) (f : Option α → α)
    (k : String) : get? (update key f t) k = if k = key then some (f (get? t key)) else get? t k := by
  induction t with
  | nil => simp only [update, get?_cons]; rfl
  | cons a t ih =>
    obtain ⟨j, v⟩ := a
    simp only [update]
    split
    · rename_i hlt
      have none : get? ((j, v) :: t) key = none := get?_eq_none_of_lt fun e he => by
        rcases List.mem_cons.1 he with rfl | he
        · exact hlt
        · exact String.lt_trans hlt (lt_of_mem h e he)
      rw [none, get?_cons]
    · split
      · rename_i hk
        subst hk
        simp only [get?_cons, if_true]
        split <;> rfl
      · rename_i hne
        simp only [get?_cons, ih h.tail, if_neg hne]
        by_cases hk : k = j
        · rw [if_pos hk, if_pos hk, if_neg fun he : k = key => hne (he.symm.trans hk)]
        · rw [if_neg hk, if_neg hk]

theorem ext {s t : List (String × α)} (hs : Ascending s) (ht : Ascending t)
    (h : ∀ key, get? s key = get? t key) : s = t := by
  induction s generalizing t with
  | nil =>
    cases t with
    | nil => rfl
    | cons b t =>
      have := h b.1
      rw [get?_cons, if_pos rfl] at this
      cases this
  | cons a s ih =>
    obtain ⟨k, v⟩ := a
    cases t with
    | nil =>
      have := h k
      rw [get?_cons, if_pos rfl] at this
      cases this
    | cons b t =>
      obtain ⟨j, w⟩ := b
      have hk : k = j := by
        rcases Std.lt_trichotomy k j with hlt | he | hlt
        · have := h k
          rw [get?_cons, if_pos rfl, get?_eq_none_of_lt (t := (j, w) :: t) fun e he => ?_] at this
          · simp at this
          · rcases List.mem_cons.1 he with rfl | he
            · exact hlt
            · exact String.lt_trans hlt (lt_of_mem ht e he)
        · exact he
        · have := h j
          rw [get?_cons j w, if_pos rfl, get?_eq_none_of_lt (t := (k, v) :: s) fun e he => ?_] at this
          · simp at this
          · rcases List.mem_cons.1 he with rfl | he
            · exact hlt
            · exact String.lt_trans hlt (lt_of_mem hs e he)
      subst hk
      have hv := h k
      simp only [get?_cons, if_true, Option.some.injEq] at hv
      subst hv
      have : s = t := ih hs.tail ht.tail fun key => by
        by_cases hkey : key = k
        · subst hkey
          rw [get?_eq_none_of_lt (lt_of_mem hs), get?_eq_none_of_lt (lt_of_mem ht)]
        · simpa [get?_cons, hkey] using h key
      rw [this]

end Entries

structure Table (α : Type) where
  entries : List (String × α)
  ascending : Entries.Ascending entries
deriving DecidableEq

namespace Table

variable {α : Type}

def empty : Table α := ⟨[], List.Pairwise.nil⟩

instance : Inhabited (Table α) := ⟨empty⟩

/-- Puts under `key` what `f` makes of the value that stands there. -/
def update (key : String) (f : Option α → α) (t : Table α) : Table α :=
  ⟨Entries.update key f t.entries, Entries.ascending_update t.ascending⟩

def get? (t : Table α) (key : String) : Option α :=
  Entries.get? t.entries key

def keys (t : Table α) : List String :=
  t.entries.map Prod.fst

def size (t : Table α) : Nat :=
  t.entries.length

def isEmpty (t : Table α) : Bool :=
  t.entries.isEmpty

@[simp]
theorem get?_empty (key : String) : (empty : Table α).get? key = none := rfl

@[simp]
theorem get?_update (t : Table α) (key : String) (f : Option α → α) (k : String) :
    (t.update key f).get? k = if k = key then some (f (t.get? key)) else t.get? k :=
  Entries.get?_update t.ascending key f k

@[ext]
theorem ext {s t : Table α} (h : ∀ key, s.get? key = t.get? key) : s = t := by
  obtain ⟨s, hs⟩ := s
  obtain ⟨t, ht⟩ := t
  obtain rfl : s = t := Entries.ext hs ht h
  rfl

end Table

end Scim
