import Scim.Json.Record

/-!
# What readers yield

A property of what a reader takes from a text is carried from its parts to the whole: from the items to
the list, and from one member to the next. For a record, a property that the defaults have and that every
field keeps is one of every record that is read (`Record.decoder_induct`).
-/

set_option autoImplicit false

namespace Scim

namespace Json

/-! ## Steps of a reader -/

theorem bind_ok {α β : Type} {x : Except Fault α} {f : α → Except Fault β} {b : β}
    (h : x >>= f = .ok b) : ∃ a, x = .ok a ∧ f a = .ok b := by
  cases x with
  | error fault => cases h
  | ok a => exact ⟨a, rfl, h⟩

section
variable {α : Type} {P : α → Prop} {item : Reader α}

theorem forall_readItems (hitem : ∀ s a rest, item s = .ok (a, rest) → P a) {bound : Nat}
    {s rest : List Char} {items : List α}
    (h : Decoder.readItems item bound s = .ok (items, rest)) : ∀ a ∈ items, P a := by
  induction bound generalizing s rest items with
  | zero => cases h
  | succ bound ih =>
    unfold Decoder.readItems at h
    split at h
    · cases h
    split at h
    · cases h
      exact nofun
    split at h
    · split at h
      · cases h
      · cases h
      · obtain ⟨⟨a, s⟩, ha, h⟩ := bind_ok h
        obtain ⟨⟨more, s⟩, hmore, h⟩ := bind_ok h
        cases h
        exact List.forall_mem_cons.2 ⟨hitem _ _ _ ha, ih hmore⟩
    · cases h

theorem forall_readArray (hitem : ∀ s a rest, item s = .ok (a, rest) → P a) {s rest : List Char}
    {items : List α} (h : Decoder.readArray item s = .ok (items, rest)) : ∀ a ∈ items, P a := by
  unfold Decoder.readArray at h
  split at h
  · cases h
  · cases h
    exact nofun
  · obtain ⟨⟨a, s⟩, ha, h⟩ := bind_ok h
    obtain ⟨⟨more, s⟩, hmore, h⟩ := bind_ok h
    cases h
    exact List.forall_mem_cons.2 ⟨hitem _ _ _ ha, forall_readItems hitem hmore⟩

variable {member : String → α → Reader α}

theorem readMembers_induct
    (hmember : ∀ name a, P a → ∀ s b rest, member name a s = .ok (b, rest) → P b) {bound : Nat}
    {s rest : List Char} {a b : α} (ha : P a)
    (h : Decoder.readMembers member bound a s = .ok (b, rest)) : P b := by
  induction bound generalizing s a with
  | zero => cases h
  | succ bound ih =>
    unfold Decoder.readMembers at h
    split at h
    · cases h
    split at h
    · cases h
      exact ha
    split at h
    · obtain ⟨s, -, h⟩ := bind_ok h
      obtain ⟨⟨name, s⟩, -, h⟩ := bind_ok h
      obtain ⟨⟨next, s⟩, hnext, h⟩ := bind_ok h
      exact ih (hmember _ a ha _ next s hnext) h
    · cases h

theorem readObject_induct
    (hmember : ∀ name a, P a → ∀ s b rest, member name a s = .ok (b, rest) → P b)
    {s rest : List Char} {a b : α} (ha : P a)
    (h : Decoder.readObject member a s = .ok (b, rest)) : P b := by
  unfold Decoder.readObject at h
  split at h
  · cases h
    exact ha
  · obtain ⟨s, -, h⟩ := bind_ok h
    obtain ⟨⟨name, s⟩, -, h⟩ := bind_ok h
    obtain ⟨⟨next, s⟩, hnext, h⟩ := bind_ok h
    exact readMembers_induct hmember (hmember _ a ha _ next s hnext) h

end

/-- A value is never taken where it is refused. -/
theorem refuse_ne_ok {α : Type} {expected : String} {s : List Char} {x : α × List Char} :
    refuse expected s ≠ .ok x := by
  intro h
  unfold refuse at h
  split at h
  · cases h
  split at h
  · obtain ⟨_, -, h⟩ := bind_ok h
    cases h
  split at h
  · obtain ⟨_, -, h⟩ := bind_ok h
    cases h
  split at h
  · obtain ⟨_, -, h⟩ := bind_ok h
    cases h
  split at h
  · obtain ⟨_, -, h⟩ := bind_ok h
    cases h
  split at h
  · obtain ⟨_, -, h⟩ := bind_ok h
    cases h
  split at h
  · cases h
  split at h
  · cases h
  · cases h

end Json

open Json

/-! ## Decoders -/

namespace Decoder

variable {α : Type} {d : Decoder α} {s rest : List Char}

theorem of_list {P : α → Prop} {levels : Nat} {as : List α}
    (hitem : ∀ s a rest, d.fromText s = .ok (a, rest) → P a)
    (h : (list levels d).fromText s = .ok (as, rest)) : 0 < levels ∧ ∀ a ∈ as, P a := by
  dsimp only [list] at h
  split at h
  · split at h
    · cases h
    · exact ⟨Nat.succ_pos _, forall_readArray hitem h⟩
  · exact absurd h refuse_ne_ok

theorem of_optional {a : α} (h : (optional d).fromText s = .ok (some a, rest)) :
    ∃ s, d.fromText s = .ok (a, rest) := by
  dsimp only [optional] at h
  split at h
  · obtain ⟨_, -, h⟩ := bind_ok h
    cases h
  · obtain ⟨⟨a, s⟩, ha, h⟩ := bind_ok h
    cases h
    exact ⟨_, ha⟩

/-- Nothing but blanks stands behind the value of a whole text. -/
theorem of_decode {a : α} {text : String} (h : d.decode text = .ok a) :
    ∃ rest, d.fromText text.toList = .ok (a, rest) := by
  obtain ⟨⟨a, rest⟩, ha, h⟩ := bind_ok h
  dsimp only at h
  split at h
  · cases h
    exact ⟨rest, ha⟩
  · cases h

end Decoder

/-! ## Records -/

section
variable {ρ : Type} {P : ρ → Prop}

/-- The property stays when a value of the field is read. -/
def Field.Keeps (f : Field ρ) (P : ρ → Prop) : Prop :=
  ∀ v s w rest, P v → f.fromText v s = .ok (w, rest) → P w

theorem Field.of_keeps {α : Type} {Q : α → Prop} {d : Decoder α} {put : ρ → α → ρ} (key : String)
    (required : Bool) (hread : ∀ s a rest, d.fromText s = .ok (a, rest) → Q a)
    (hput : ∀ v a, P v → Q a → P (put v a)) : (Field.of key required d put).Keeps P := by
  intro v s w rest hv h
  obtain ⟨⟨a, s⟩, ha, h⟩ := bind_ok h
  cases h
  exact hput v a hv (hread _ _ _ ha)

/-- Where the property stays whatever is put into the field. -/
theorem Field.of_keeps_any {α : Type} {key : String} {required : Bool} {d : Decoder α}
    {put : ρ → α → ρ} (hput : ∀ v a, P v → P (put v a)) :
    (Field.of key required d put).Keeps P :=
  Field.of_keeps (Q := fun _ => True) key required (fun _ _ _ _ => trivial)
    fun v a hv _ => hput v a hv

namespace Record

variable {r : Record ρ} {s rest : List Char} {v w : ρ}

theorem readPositions_induct {fields : List (Field ρ)} (hfields : ∀ f ∈ fields, f.Keeps P)
    {position : Nat} (hv : P v) (h : r.readPositions fields position v s = .ok (w, rest)) : P w := by
  induction fields generalizing position v s with
  | nil =>
    unfold readPositions at h
    split at h
    · cases h
    split at h
    · cases h
      exact hv
    · cases h
  | cons f fields ih =>
    obtain ⟨hf, hfields⟩ := List.forall_mem_cons.1 hfields
    unfold readPositions at h
    split at h
    · cases h
    · split at h
      · cases h
      · exact ih hfields hv h
    split at h
    · obtain ⟨⟨next, s⟩, hnext, h⟩ := bind_ok h
      exact ih hfields (hf _ _ _ _ hv hnext) h
    split at h
    · split at h
      · cases h
      · cases h
      · obtain ⟨⟨next, s⟩, hnext, h⟩ := bind_ok h
        exact ih hfields (hf _ _ _ _ hv hnext) h
    · cases h

theorem readMember_induct (hfields : ∀ f ∈ r.fields, f.Keeps P) {key : String} {p q : Partial ρ}
    (hp : P p.value) (h : r.readMember key p s = .ok (q, rest)) : P q.value := by
  unfold readMember at h
  split at h
  · obtain ⟨_, -, h⟩ := bind_ok h
    obtain ⟨_, -, h⟩ := bind_ok h
    cases h
    exact hp
  · rename_i f hfield
    split at h
    · cases h
    obtain ⟨_, -, h⟩ := bind_ok h
    obtain ⟨⟨next, s⟩, hnext, h⟩ := bind_ok h
    cases h
    exact hfields f (List.mem_of_find?_eq_some hfield) _ _ _ _ hp hnext

/-- **What the defaults have and every field keeps is a property of every record that is read.** -/
theorem decoder_induct (hdefaults : P r.defaults) (hfields : ∀ f ∈ r.fields, f.Keeps P)
    {levels : Nat} (h : (r.decoder levels).fromText s = .ok (v, rest)) : 0 < levels ∧ P v := by
  dsimp only [decoder] at h
  split at h
  · split at h
    · cases h
    obtain ⟨⟨p, s⟩, hp, h⟩ := bind_ok h
    obtain ⟨value, hvalue, h⟩ := bind_ok h
    cases h
    have hread : P p.value := readObject_induct (P := fun p : Partial ρ => P p.value)
      (fun key p hp s q rest h => readMember_induct hfields hp h) hdefaults hp
    unfold finish at hvalue
    split at hvalue
    · cases hvalue
    · cases hvalue
      exact ⟨Nat.succ_pos _, hread⟩
  · split at h
    · cases h
    · exact ⟨Nat.succ_pos _, readPositions_induct hfields hdefaults h⟩
  · exact absurd h refuse_ne_ok

end Record

end

end Scim
