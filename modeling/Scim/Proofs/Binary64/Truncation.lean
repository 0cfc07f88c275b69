import Scim.Proofs.Binary64
import Scim.Proofs.Binary64.Rational

/-!
# Cutting off

Comparing two patterns compares the numbers that they denote (`Binary64.rank_le_iff`), and clearing the
bits of a fraction leaves the integer part (`Binary64.value_wholePart`). So a number is cut off exactly:
to its integer part where a word of 64 bits holds that, and to nothing otherwise (`Binary64.toInt64?_eq`).
-/

set_option autoImplicit false

namespace Scim.Binary64

/-! ## Magnitudes -/

theorem value_ofMagnitude (negative : Bool) {m : ℕ} (h : m < 2 ^ 63) :
    (ofMagnitude negative m).value = signed negative (ofMagnitude negative m).size := by
  rw [value, isNegative_ofMagnitude (by simpa using h)]

/-- A significand that is rounded up past its last bit carries into the exponent. -/
theorem significand_ofMagnitude (negative : Bool) {k r : ℕ} (hr : r ≤ 2 ^ 53)
    (hk : k = 0 ∨ 2 ^ 52 ≤ r) (h : k * 2 ^ 52 + r < 2 ^ 63) :
    let x := ofMagnitude negative (k * 2 ^ 52 + r)
    (x.significand = r ∧ x.exponent = (k : ℤ) - 1074) ∨
      (r = 2 ^ 53 ∧ x.significand = 2 ^ 52 ∧ x.exponent = (k : ℤ) - 1074 + 1) := by
  intro x
  have hm : x.magnitude = k * 2 ^ 52 + r := magnitude_ofMagnitude (by simpa using h)
  simp only [significand, exponent, hm, Nat.one_shiftLeft, Nat.shiftRight_eq_div_pow]
  split <;> omega

theorem size_ofMagnitude (negative : Bool) {k r : ℕ} (hr : r ≤ 2 ^ 53)
    (hk : k = 0 ∨ 2 ^ 52 ≤ r) (h : k * 2 ^ 52 + r < 2 ^ 63) :
    (ofMagnitude negative (k * 2 ^ 52 + r)).size = r * 2 ^ ((k : ℤ) - 1074) ∧
      (ofMagnitude negative (k * 2 ^ 52 + r)).significand % 2 = r % 2 := by
  unfold size
  rcases significand_ofMagnitude negative hr hk h with ⟨hs, he⟩ | ⟨hr, hs, he⟩
  · rw [hs, he]
    exact ⟨rfl, rfl⟩
  · rw [hs, he, hr, zpow_add_one₀ (by norm_num)]
    exact ⟨by push_cast; ring, by norm_num⟩

/-! ## Order -/

section
variable {x y : Binary64}

/-- The greater pattern has the greater exponent, or with the same one the greater significand. -/
theorem exponent_lt_or (h : x.magnitude < y.magnitude) :
    (x.exponent < y.exponent ∧ 2 ^ 52 ≤ y.significand) ∨
      (x.exponent = y.exponent ∧ x.significand < y.significand) := by
  simp only [exponent, significand, Nat.one_shiftLeft, Nat.shiftRight_eq_div_pow]
  split <;> split <;> omega

theorem size_lt (h : x.magnitude < y.magnitude) : x.size < y.size := by
  have hlt : (x.significand : ℚ) < 2 ^ 53 := by exact_mod_cast x.significand_lt
  unfold size
  rcases exponent_lt_or h with ⟨hexponent, hnormal⟩ | ⟨hexponent, hsignificand⟩
  · have hnormal : (2 : ℚ) ^ 52 ≤ y.significand := by exact_mod_cast hnormal
    calc (x.significand : ℚ) * 2 ^ x.exponent < 2 ^ 53 * 2 ^ x.exponent := by gcongr
      _ = 2 ^ 52 * 2 ^ (x.exponent + 1) := by
        rw [zpow_add_one₀ two_ne_zero]
        ring
      _ ≤ y.significand * 2 ^ y.exponent := by
        gcongr
        · exact one_le_two
        · omega
  · rw [hexponent]
    gcongr

theorem size_le_iff : x.size ≤ y.size ↔ x.magnitude ≤ y.magnitude := by
  constructor
  · intro h
    by_contra hlt
    exact absurd (size_lt (not_le.1 hlt)) (not_lt.2 h)
  · intro h
    rcases h.lt_or_eq with hlt | heq
    · exact (size_lt hlt).le
    · simp only [size, significand, exponent, heq, le_refl]

theorem size_eq_zero_iff : x.size = 0 ↔ x.magnitude = 0 := by
  rw [size, mul_eq_zero_iff_right (by positivity), Nat.cast_eq_zero, significand, Nat.one_shiftLeft]
  split <;> omega

theorem rank_le_iff : x.rank ≤ y.rank ↔ x.value ≤ y.value := by
  have hx := x.size_nonneg
  have hy := y.size_nonneg
  unfold rank value
  cases x.isNegative <;> cases y.isNegative <;>
    simp only [signed, if_true, if_false, Bool.false_eq_true]
  · rw [size_le_iff]
    omega
  · -- only zero is below a zero with the sign
    have hmagnitude : (x.magnitude : ℤ) ≤ -y.magnitude ↔ x.magnitude = 0 ∧ y.magnitude = 0 := by omega
    have hsize : x.size ≤ -y.size ↔ x.size = 0 ∧ y.size = 0 :=
      ⟨fun h => ⟨by linarith, by linarith⟩, fun h => by rw [h.1, h.2, neg_zero]⟩
    rw [hmagnitude, hsize, size_eq_zero_iff, size_eq_zero_iff]
  · exact iff_of_true (by omega) (by linarith)
  · rw [neg_le_neg_iff, neg_le_neg_iff, size_le_iff]
    omega

theorem isNaN_of_isFinite (h : x.isFinite = true) : x.isNaN = false := by
  have h : x.magnitude < infinity := of_decide_eq_true h
  exact decide_eq_false (by omega)

theorem numLe_iff (hx : x.isFinite = true) (hy : y.isFinite = true) :
    x.numLe y = true ↔ x.value ≤ y.value := by
  simp [numLe, isNaN_of_isFinite hx, isNaN_of_isFinite hy, rank_le_iff]

theorem numLt_iff (hx : x.isFinite = true) (hy : y.isFinite = true) :
    x.numLt y = true ↔ x.value < y.value := by
  rw [← not_le, ← rank_le_iff]
  simp [numLt, isNaN_of_isFinite hx, isNaN_of_isFinite hy]

end

/-! ## Whole parts -/

theorem integerPart_signed (negative : Bool) (q : ℚ) :
    (integerPart (signed negative q) : ℚ) = signed negative (integerPart q) := by
  cases negative
  · rfl
  · simp [signed, integerPart_neg]

/-- The last digits of a significand are cleared in the pattern. -/
theorem clear_eq (k r : ℕ) {s : ℕ} (hs : s ≤ 52) :
    ((k * 2 ^ 52 + r) >>> s) <<< s = k * 2 ^ 52 + r / 2 ^ s * 2 ^ s := by
  have hsplit : k * 2 ^ 52 = k * 2 ^ (52 - s) * 2 ^ s := by
    rw [mul_assoc, ← pow_add, Nat.sub_add_cancel hs]
  rw [Nat.shiftRight_eq_div_pow, Nat.shiftLeft_eq, hsplit, add_comm,
    Nat.add_mul_div_right _ _ (Nat.two_pow_pos s), add_mul, add_comm]

/-- The parts of a pattern that has bits of the exponent set. -/
theorem magnitude_normal {x : Binary64} {k : ℕ} (h : x.magnitude >>> 52 = k + 1) :
    x.magnitude = k * 2 ^ 52 + x.significand ∧ 2 ^ 52 ≤ x.significand ∧ x.exponent = k - 1074 := by
  simp only [significand, exponent, Nat.one_shiftLeft, Nat.shiftRight_eq_div_pow] at h ⊢
  split <;> omega

theorem size_lt_one {x : Binary64} (h : x.magnitude >>> 52 < 1023) : x.size < 1 := by
  have hone : (ofMagnitude false (1022 * 2 ^ 52 + 2 ^ 52)).size = 1 := by
    rw [(size_ofMagnitude false (by norm_num) (.inr le_rfl) (by norm_num)).1]
    norm_num
  rw [← hone]
  apply size_lt
  rw [magnitude_ofMagnitude (by decide)]
  rw [Nat.shiftRight_eq_div_pow] at h
  omega

theorem clear_le (m s : ℕ) : (m >>> s) <<< s ≤ m := by
  rw [Nat.shiftRight_eq_div_pow, Nat.shiftLeft_eq]
  exact Nat.div_mul_le_self m (2 ^ s)

theorem isNegative_wholePart (x : Binary64) : x.wholePart.isNegative = x.isNegative := by
  have hlt : x.magnitude < 1 <<< 63 := Nat.mod_lt _ (by decide)
  unfold wholePart
  dsimp only
  split
  · exact isNegative_ofMagnitude (by decide)
  split
  · exact isNegative_ofMagnitude (lt_of_le_of_lt (clear_le _ _) hlt)
  · rfl

/-- What is not finite has the greatest exponent, and no fraction is cleared. -/
theorem isFinite_wholePart (x : Binary64) : x.wholePart.isFinite = x.isFinite := by
  have hinfinity : infinity = 2047 * 2 ^ 52 := by decide
  have hfinite (h : x.magnitude >>> 52 < 1075) : x.magnitude < infinity := by
    rw [Nat.shiftRight_eq_div_pow] at h
    omega
  unfold wholePart
  dsimp only
  split
  · rename_i h
    exact (isFinite_ofMagnitude (by decide)).trans (decide_eq_true (hfinite (by omega))).symm
  split
  · rename_i h
    exact (isFinite_ofMagnitude (lt_of_le_of_lt (clear_le _ _) (hfinite h))).trans
      (decide_eq_true (hfinite h)).symm
  · rfl

/-- Clearing the bits below the point divides the significand by their power, without the remainder. -/
theorem size_cleared (negative : Bool) {x : Binary64} {k s : ℕ} (hm : x.magnitude = k * 2 ^ 52 + x.significand)
    (hr : 2 ^ 52 ≤ x.significand) (he : x.exponent = -s) (hk : k + s = 1074) (hs : s ≤ 52) :
    (ofMagnitude negative ((x.magnitude >>> s) <<< s)).size = integerPart x.size := by
  have hlt := x.significand_lt
  have hle : x.significand / 2 ^ s * 2 ^ s ≤ x.significand := Nat.div_mul_le_self _ _
  -- the first bit of the significand stands above the cleared ones
  have hnormal : 2 ^ 52 ≤ x.significand / 2 ^ s * 2 ^ s := by
    have hsplit : 2 ^ 52 = 2 ^ (52 - s) * 2 ^ s := by rw [← pow_add, Nat.sub_add_cancel hs]
    rw [hsplit] at hr ⊢
    exact Nat.mul_le_mul_right _ ((Nat.le_div_iff_mul_le (Nat.two_pow_pos s)).2 hr)
  have hquotient : x.size = x.significand / (2 ^ s : ℕ) := by
    rw [size, he, zpow_neg, zpow_natCast, div_eq_mul_inv]
    push_cast
    rfl
  have hexponent : (k : ℤ) - 1074 = -s := by omega
  rw [hm, clear_eq _ _ hs, (size_ofMagnitude _ (by omega) (.inr hnormal) (by omega)).1, hexponent,
    zpow_neg, zpow_natCast, hquotient, integerPart_natCast_div, Int.cast_natCast]
  push_cast
  rw [mul_inv_cancel_right₀ (by positivity)]

/-- Without bits below the point a number is its integer part. -/
theorem size_integer {x : Binary64} (h : 0 ≤ x.exponent) : x.size = integerPart x.size := by
  obtain ⟨n, hn⟩ := Int.eq_ofNat_of_zero_le h
  have hinteger : x.size = (x.significand * 2 ^ n : ℕ) := by
    rw [size, hn, zpow_natCast]
    push_cast
    rfl
  rw [hinteger, ← Int.cast_natCast, integerPart_intCast]

/-- **Clearing the fraction leaves the integer part.** -/
theorem size_wholePart (x : Binary64) : x.wholePart.size = integerPart x.size := by
  unfold wholePart
  dsimp only
  split
  · rename_i he
    have hfloor : ⌊x.size⌋ = 0 := Int.floor_eq_zero_iff.2 ⟨x.size_nonneg, size_lt_one he⟩
    rw [integerPart, if_neg (not_lt.2 x.size_nonneg), hfloor, Int.cast_zero, size_eq_zero_iff,
      magnitude_ofMagnitude (by decide)]
  obtain ⟨k, hk⟩ : ∃ k, x.magnitude >>> 52 = k + 1 := ⟨x.magnitude >>> 52 - 1, by omega⟩
  obtain ⟨hm, hr, he⟩ := magnitude_normal hk
  split
  · exact size_cleared _ hm hr (by omega) (by omega) (by omega)
  · exact size_integer (by omega)

theorem value_wholePart (x : Binary64) : x.wholePart.value = integerPart x.value := by
  rw [value, isNegative_wholePart, size_wholePart, value, integerPart_signed]

/-! ## Words -/

theorem value_wordLimit : wordLimit.value = 0x8000000000000000 := by
  have hpattern : wordLimit = ofMagnitude false (1085 * 2 ^ 52 + 2 ^ 52) := by decide
  rw [hpattern, value_ofMagnitude _ (by norm_num),
    (size_ofMagnitude _ (by norm_num) (.inr le_rfl) (by norm_num)).1]
  norm_num [signed]

theorem value_neg (x : Binary64) : x.neg.value = -x.value := by
  have hlt : x.magnitude < 2 ^ 63 := Nat.mod_lt _ (by decide)
  have hsize : (ofMagnitude (!x.isNegative) x.magnitude).size = x.size := by
    simp only [size, significand, exponent, magnitude_ofMagnitude hlt]
  rw [neg, value_ofMagnitude _ hlt, hsize, value]
  cases x.isNegative <;> simp [signed]

/-- A word is cut off to itself. -/
theorem toInt64_of_value {x : Binary64} (hfinite : x.isFinite = true) {n : ℤ} (hvalue : x.value = n)
    (hlow : -0x8000000000000000 ≤ n) (hhigh : n < 0x8000000000000000) :
    x.toInt64 = Int64.ofInt n := by
  have htruncate : x.truncate = n := by rw [truncate_eq, hvalue, integerPart_intCast]
  rw [toInt64, isNaN_of_isFinite hfinite, htruncate, min_eq_left (by omega), max_eq_right hlow]
  rfl

/-- **Cutting off is exact.** -/
theorem toInt64?_eq (x : Binary64) :
    x.toInt64? = if x.isFinite = true then word? x.value else none := by
  have hwhole := isFinite_wholePart x
  cases hfinite : x.isFinite with
  | false => simp [toInt64?, hwhole, hfinite]
  | true =>
    rw [hfinite] at hwhole
    have hlow : wordLimit.neg.numLe x.wholePart = true ↔ -0x8000000000000000 ≤ integerPart x.value := by
      rw [numLe_iff (by decide) hwhole, value_neg, value_wordLimit, value_wholePart]
      norm_cast
    have hhigh : x.wholePart.numLt wordLimit = true ↔ integerPart x.value < 0x8000000000000000 := by
      rw [numLt_iff hwhole (by decide), value_wordLimit, value_wholePart]
      norm_cast
    simp only [toInt64?, word?, hwhole, Bool.true_and, Bool.and_eq_true, hlow, hhigh, if_true]
    split
    · rename_i h
      rw [toInt64_of_value hwhole (value_wholePart x) h.1 h.2]
    · rfl

/-- A finite number whose integer part a signed word of 64 bits holds. -/
structure HasWord (x : Binary64) : Prop where
  finite : x.isFinite = true
  low : -0x8000000000000000 ≤ integerPart x.value
  high : integerPart x.value < 0x8000000000000000

theorem toInt64?_eq_some_iff {x : Binary64} {n : Int64} :
    x.toInt64? = some n ↔ x.HasWord ∧ n.toInt = integerPart x.value := by
  rw [toInt64?_eq, word?]
  constructor
  · intro h
    split at h
    · rename_i hfinite
      split at h
      · rename_i hrange
        obtain rfl := Option.some.inj h
        exact ⟨⟨hfinite, hrange.1, hrange.2⟩, Int64.toInt_ofInt_of_le hrange.1 hrange.2⟩
      · cases h
    · cases h
  · rintro ⟨hword, hn⟩
    rw [if_pos hword.finite, if_pos ⟨hword.low, hword.high⟩, ← hn, Int64.ofInt_toInt]

theorem exists_toInt64?_iff {x : Binary64} : (∃ n, x.toInt64? = some n) ↔ x.HasWord := by
  constructor
  · rintro ⟨n, hn⟩
    exact (toInt64?_eq_some_iff.1 hn).1
  · intro h
    exact ⟨_, toInt64?_eq_some_iff.2 ⟨h, Int64.toInt_ofInt_of_le h.low h.high⟩⟩

end Scim.Binary64
