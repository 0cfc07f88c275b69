import Mathlib.Algebra.Order.Field.Power
import Mathlib.Data.Rat.Floor
import Mathlib.Tactic.Linarith
import Scim.Binary64.Basic

/-!
# Numbers as rationals

A finite pattern denotes a rational number (`Binary64.value`), which lies between those of the format
(`Binary64.size_le`, `Binary64.le_size`) and has an integer part (`Binary64.truncate_eq`).
-/

set_option autoImplicit false

namespace Scim

/-! ## Signs -/

/-- A number from its sign and its size. -/
def signed (negative : Bool) (q : ℚ) : ℚ :=
  if negative then -q else q

theorem abs_signed (negative : Bool) (q : ℚ) : |signed negative q| = |q| := by
  cases negative
  · rfl
  · exact abs_neg q

theorem abs_sub_signed (negative : Bool) (p q : ℚ) :
    |p - signed negative q| = |signed negative p - q| := by
  cases negative
  · rfl
  · rw [← abs_neg]
    congr 1
    simp only [signed, if_true]
    ring

theorem signed_signed (negative : Bool) (q : ℚ) : signed negative (signed negative q) = q := by
  cases negative
  · rfl
  · exact neg_neg q

/-! ## Integer parts -/

/-- The integer part, toward zero. -/
def integerPart (q : ℚ) : ℤ :=
  if q < 0 then ⌈q⌉ else ⌊q⌋

/-- The integer part, where a signed word of 64 bits holds it. -/
def word? (q : ℚ) : Option Int64 :=
  if -0x8000000000000000 ≤ integerPart q ∧ integerPart q < 0x8000000000000000 then
    some (Int64.ofInt (integerPart q))
  else none

theorem integerPart_intCast (n : ℤ) : integerPart n = n := by
  unfold integerPart
  split
  · exact Int.ceil_intCast n
  · exact Int.floor_intCast n

theorem integerPart_neg (q : ℚ) : integerPart (-q) = -integerPart q := by
  unfold integerPart
  rcases lt_trichotomy q 0 with h | rfl | h
  · rw [if_neg (by linarith), if_pos h, Int.floor_neg]
  · norm_num
  · rw [if_pos (by linarith), if_neg (by linarith), Int.ceil_neg]

theorem integerPart_natCast_div (num den : ℕ) : integerPart (num / den) = (num / den : ℕ) := by
  have h : (0 : ℚ) ≤ num / den := by positivity
  rw [integerPart, if_neg (by linarith), Rat.floor_natCast_div_natCast, Int.natCast_ediv]

theorem le_integerPart {q : ℚ} :
    -0x8000000000000000 ≤ integerPart q ↔ -0x8000000000000001 < q := by
  unfold integerPart
  split
  · rw [← Int.sub_one_lt_iff, Int.lt_ceil]
    norm_num
  · have hfloor : 0 ≤ ⌊q⌋ := Int.floor_nonneg.2 (by linarith)
    exact ⟨fun _ => by linarith, fun _ => by omega⟩

theorem integerPart_lt {q : ℚ} :
    integerPart q < 0x8000000000000000 ↔ q < 0x8000000000000000 := by
  unfold integerPart
  split
  · have hceil : ⌈q⌉ ≤ 0 := Int.ceil_le.2 (by push_cast; linarith)
    exact ⟨fun _ => by linarith, fun _ => by omega⟩
  · rw [Int.floor_lt]
    norm_num

theorem word?_eq_none_iff {q : ℚ} :
    word? q = none ↔ q ≤ -0x8000000000000001 ∨ 0x8000000000000000 ≤ q := by
  rw [word?, ite_eq_right_iff, le_integerPart, integerPart_lt, ← not_lt, ← not_lt, ← not_and_or]
  simp only [reduceCtorEq, imp_false]

namespace Binary64

/-! ## The number that a pattern denotes -/

/-- The size of the number that a finite pattern denotes. -/
def size (x : Binary64) : ℚ :=
  x.significand * 2 ^ x.exponent

/-- The number that a finite pattern denotes. -/
def value (x : Binary64) : ℚ :=
  signed x.isNegative x.size

/-! ## Bounds -/

/-- The greatest number of the format. -/
def greatest : ℚ :=
  (2 ^ 53 - 1) * 2 ^ (971 : ℤ)

theorem significand_lt (x : Binary64) : x.significand < 2 ^ 53 := by
  simp only [significand, Nat.one_shiftLeft]
  split <;> omega

theorem le_significand (x : Binary64) : x.exponent = -1074 ∨ 2 ^ 52 ≤ x.significand := by
  simp only [significand, exponent, Nat.one_shiftLeft]
  split <;> omega

theorem le_exponent (x : Binary64) : -1074 ≤ x.exponent := by
  simp only [exponent, Nat.one_shiftLeft, Nat.shiftRight_eq_div_pow]
  split <;> omega

theorem exponent_le {x : Binary64} (h : x.isFinite = true) : x.exponent ≤ 971 := by
  have h : x.magnitude < 2047 * 2 ^ 52 := of_decide_eq_true h
  simp only [exponent, Nat.one_shiftLeft, Nat.shiftRight_eq_div_pow]
  split <;> omega

theorem size_nonneg (x : Binary64) : 0 ≤ x.size := by
  unfold size
  positivity

theorem abs_value (x : Binary64) : |x.value| = x.size := by
  rw [value, abs_signed, abs_of_nonneg x.size_nonneg]

theorem size_le {x : Binary64} (h : x.isFinite = true) : x.size ≤ greatest := by
  have hsignificand : (x.significand : ℚ) ≤ 2 ^ 53 - 1 := by
    have hlt : (x.significand : ℚ) + 1 ≤ 2 ^ 53 := by exact_mod_cast x.significand_lt
    linarith
  unfold size greatest
  gcongr
  · exact one_le_two
  · exact exponent_le h

theorem le_size {x : Binary64} (h : x.size ≠ 0) : 2 ^ (-1074 : ℤ) ≤ x.size := by
  have hsignificand : (1 : ℚ) ≤ x.significand := by
    refine Nat.one_le_cast.2 (Nat.pos_of_ne_zero fun hzero => h ?_)
    simp [size, hzero]
  calc (2 : ℚ) ^ (-1074 : ℤ) ≤ 2 ^ x.exponent := zpow_le_zpow_right₀ one_le_two x.le_exponent
    _ ≤ x.size := le_mul_of_one_le_left (by positivity) hsignificand

/-! ## The integer part of a number -/

theorem size_eq_ratio (x : Binary64) : x.size = x.ratio.1 / x.ratio.2 := by
  unfold size ratio
  split
  · rename_i h
    obtain ⟨n, hn⟩ := Int.eq_ofNat_of_zero_le h
    rw [hn, Int.toNat_natCast, Nat.shiftLeft_eq, zpow_natCast]
    push_cast
    rw [div_one]
  · rename_i h
    obtain ⟨n, hn⟩ : ∃ n : ℕ, x.exponent = -n := ⟨(-x.exponent).toNat, by omega⟩
    rw [hn, neg_neg, Int.toNat_natCast, Nat.shiftLeft_eq, zpow_neg, zpow_natCast]
    push_cast
    rw [one_mul, div_eq_mul_inv]

theorem truncate_eq (x : Binary64) : x.truncate = integerPart x.value := by
  unfold truncate value
  rw [size_eq_ratio]
  cases x.isNegative with
  | true => rw [if_pos rfl, signed, if_pos rfl, integerPart_neg, integerPart_natCast_div]
  | false => rw [if_neg (by simp), signed, if_neg (by simp), integerPart_natCast_div]

end Binary64

end Scim
