import Scim.Json.Reading
import Scim.Proofs.Json.Reader
import Scim.Proofs.Table

/-!
# Integers of documents

Every integer of a document is a word of 64 bits (`Json.Words`) if the document was read from a text
(`Json.words_of_ofText`): digits are gathered in one word, and an integer that does not fit is read as a
decimal.
-/

set_option autoImplicit false

namespace Scim.Json

/-- Every integer of the document is a word of 64 bits, signed or unsigned. -/
inductive Words : Json → Prop
  | null : Words .null
  | bool (b : Bool) : Words (.bool b)
  | integer {n : Int} : -0x8000000000000000 ≤ n → n < 0x10000000000000000 → Words (.integer n)
  | decimal (x : FiniteBinary64) : Words (.decimal x)
  | string (s : String) : Words (.string s)
  | array {items : List Json} : (∀ j ∈ items, Words j) → Words (.array items)
  | object {members : List (String × Json)} : (∀ m ∈ members, Words m.2) → Words (.object members)

/-! ## Numbers -/

/-- What is gathered stays a word. -/
theorem gathered_lt (digits : List Char) {g : Gathered}
    (h : g.significand < 0x10000000000000000) :
    (digits.foldl Gathered.addWhole g).significand < 0x10000000000000000 := by
  induction digits generalizing g with
  | nil => exact h
  | cons c digits ih =>
    refine ih ?_
    unfold Gathered.addWhole
    simp only
    split
    · rename_i hfits
      simp only [Gathered.fits, Bool.and_eq_true, decide_eq_true_eq] at hfits
      exact hfits.2
    · exact h

theorem words_of_finite {x : Binary64} {j : Json}
    (h : (if h : x.isFinite = true then Except.ok (decimal ⟨x, h⟩) else .error Fault.malformed) =
      .ok j) : j.Words := by
  by_cases hx : x.isFinite = true
  · rw [dif_pos hx] at h
    cases h
    exact .decimal _
  · rw [dif_neg hx] at h
    cases h

theorem words_of_readNumber {s rest : List Char} {j : Json} (h : readNumber s = .ok (j, rest)) :
    j.Words := by
  obtain ⟨⟨n, s⟩, -, h⟩ := bind_ok h
  obtain ⟨j, hj, h⟩ := bind_ok h
  cases h
  have hlt := @gathered_lt n.whole ⟨0, 0, false⟩ (by decide)
  unfold NumberText.value at hj
  simp only at hj
  split at hj
  · rename_i hinteger
    simp only [Bool.and_eq_true, Bool.or_eq_true, decide_eq_true_eq] at hinteger
    cases hj
    obtain ⟨-, hsign⟩ := hinteger
    split
    · rename_i hneg
      rw [hneg] at hsign
      simp only [Bool.not_true, Bool.false_eq_true, false_or] at hsign
      exact .integer (by omega) (by omega)
    · exact .integer (by omega) (by omega)
  · exact words_of_finite hj

/-! ## Values -/

/-- One level of a value, given those below it. -/
theorem words_of_readValue_step {levels : Nat}
    (hbelow : ∀ below, levels = below + 1 → ∀ s j rest, readValue below s = .ok (j, rest) → j.Words)
    {s rest : List Char} {j : Json} (h : readValue levels s = .ok (j, rest)) : j.Words := by
  unfold readValue at h
  split at h
  · cases h
  split at h
  · obtain ⟨s, -, h⟩ := bind_ok h
    cases h
    exact .null
  split at h
  · obtain ⟨s, -, h⟩ := bind_ok h
    cases h
    exact .bool true
  split at h
  · obtain ⟨s, -, h⟩ := bind_ok h
    cases h
    exact .bool false
  split at h
  · exact words_of_readNumber h
  split at h
  · obtain ⟨⟨cs, s⟩, -, h⟩ := bind_ok h
    cases h
    exact .string _
  split at h
  · cases h
  rename_i below
  have hbelow := hbelow below rfl
  split at h
  · obtain ⟨⟨items, s⟩, hitems, h⟩ := bind_ok h
    cases h
    exact .array (forall_readArray hbelow hitems)
  split at h
  · obtain ⟨⟨members, s⟩, hmembers, h⟩ := bind_ok h
    cases h
    refine .object (readObject_induct (P := fun members : List (String × Json) =>
      ∀ m ∈ members, Words m.2) (fun name members hwords s members' rest hread => ?_)
      (fun m hm => absurd hm List.not_mem_nil) hmembers)
    obtain ⟨s, -, hread⟩ := bind_ok hread
    obtain ⟨⟨j, s⟩, hj, hread⟩ := bind_ok hread
    cases hread
    intro m hm
    rcases Entries.mem_update hm with ⟨-, -, hvalue⟩ | hm
    · rw [hvalue]
      exact hbelow _ _ _ hj
    · exact hwords m hm
  · cases h

theorem words_of_readValue {levels : Nat} {s rest : List Char} {j : Json}
    (h : readValue levels s = .ok (j, rest)) : j.Words := by
  induction levels generalizing s rest j with
  | zero => exact words_of_readValue_step (fun _ hlevels => absurd hlevels (by omega)) h
  | succ levels ih =>
    refine words_of_readValue_step (fun below hlevels s j rest hread => ?_) h
    obtain rfl : levels = below := Nat.succ.inj hlevels
    exact ih hread

/-- **A document that is read from a text has words for its integers.** -/
theorem words_of_ofText {text : String} {j : Json} (h : ofText text = .ok j) : j.Words := by
  obtain ⟨⟨j', rest⟩, hread, h⟩ := bind_ok h
  simp only at h
  by_cases hend : (skipBlanks rest).isEmpty = true
  · rw [if_pos hend] at h
    cases h
    exact words_of_readValue hread
  · rw [if_neg hend] at h
    cases h

end Scim.Json
