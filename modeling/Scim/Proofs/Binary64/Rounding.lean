import Mathlib.Algebra.Order.Ring.Abs
import Mathlib.Tactic.Ring
import Scim.Proofs.Binary64
import Scim.Proofs.Binary64.Truncation

/-!
# Rounding

A quotient is rounded to the number of the format that is nearest to it (`Binary64.rounds_ofRatio`).
`Binary64.Nearest` says what that is without the computation: no finite number is nearer, and on a tie
the significand is even. That leaves one number (`Binary64.Nearest.value_eq`). Beyond the greatest number
the result is infinite, while the nearest number is the greatest one; neither is cut off to a word
(`Binary64.Rounds.toInt64?_eq`).

The computation scales the quotient to the unit of its last place and rounds it to whole units (`Units`);
a number of the format that is no whole number of these is too small to be nearer.
-/

set_option autoImplicit false

namespace Scim.Binary64

/-! ## The nearest integer -/

/-- The distance is at most one half, and on a tie the integer is even; both times the denominator. -/
theorem roundHalfEven_mul (num den : ℕ) (hden : 0 < den) :
    2 * |(roundHalfEven num den : ℤ) * den - num| ≤ den ∧
      (2 * |(roundHalfEven num den : ℤ) * den - num| = den → roundHalfEven num den % 2 = 0) := by
  have hdiv : (num : ℤ) = (num / den : ℕ) * den + (num % den : ℕ) := by
    exact_mod_cast (Nat.div_add_mod' num den).symm
  have hmod : num % den < den := Nat.mod_lt num hden
  unfold roundHalfEven
  simp only
  split
  · rename_i h
    simp only [Bool.or_eq_true, Bool.and_eq_true, decide_eq_true_eq, beq_iff_eq] at h
    have hdist : ((num / den : ℕ) : ℤ) * den - num = -(num % den : ℕ) := by omega
    rw [hdist, abs_neg, abs_of_nonneg (by omega)]
    omega
  · rename_i h
    simp only [Bool.or_eq_true, Bool.and_eq_true, decide_eq_true_eq, beq_iff_eq] at h
    have hdist : ((num / den + 1 : ℕ) : ℤ) * den - num = den - (num % den : ℕ) := by
      rw [Nat.cast_add_one, add_one_mul]
      omega
    rw [hdist, abs_of_nonneg (by omega)]
    omega

theorem abs_roundHalfEven_sub (num den : ℕ) (hden : 0 < den) :
    |(roundHalfEven num den : ℚ) - num / den| ≤ 1 / 2 ∧
      (|(roundHalfEven num den : ℚ) - num / den| = 1 / 2 → roundHalfEven num den % 2 = 0) := by
  have hden' : (0 : ℚ) < den := by exact_mod_cast hden
  have hdist : |(roundHalfEven num den : ℚ) - num / den| =
      |(roundHalfEven num den : ℤ) * den - num| / (den : ℚ) := by
    have hscale : (roundHalfEven num den : ℚ) - num / den =
        (roundHalfEven num den * den - num) / den := by
      rw [sub_div, mul_div_cancel_right₀ _ hden'.ne']
    rw [hscale, abs_div, abs_of_pos hden']
    push_cast
    rfl
  obtain ⟨hle, htie⟩ := roundHalfEven_mul num den hden
  rw [hdist, div_le_div_iff₀ hden' two_pos, div_eq_div_iff hden'.ne' two_ne_zero]
  constructor
  · rw [mul_comm, one_mul]
    exact_mod_cast hle
  · intro h
    rw [mul_comm, one_mul] at h
    exact htie (by exact_mod_cast h)

/-! ## The unit in the last place -/

theorem scaled_pos {num den : ℕ} (hden : 0 < den) (e : ℤ) : 0 < (scaled num den e).2 := by
  unfold scaled
  split
  · rw [Nat.shiftLeft_eq]
    positivity
  · exact hden

theorem scaled_div (num den : ℕ) (e : ℤ) :
    ((scaled num den e).1 : ℚ) / (scaled num den e).2 = num / den / 2 ^ e := by
  unfold scaled
  split
  · rename_i h
    obtain ⟨n, rfl⟩ := Int.eq_ofNat_of_zero_le h
    simp only [Int.toNat_natCast, Nat.shiftLeft_eq, zpow_natCast]
    push_cast
    rw [div_div]
  · rename_i h
    obtain ⟨n, hn⟩ := Int.eq_ofNat_of_zero_le (by omega : 0 ≤ -e)
    obtain rfl : e = -n := by omega
    simp only [neg_neg, Int.toNat_natCast, Nat.shiftLeft_eq, zpow_neg, zpow_natCast, div_inv_eq_mul]
    push_cast
    ring

theorem log2_bounds {n : ℕ} (hn : n ≠ 0) :
    (2 : ℚ) ^ (n.log2 : ℤ) ≤ n ∧ (n : ℚ) < 2 ^ ((n.log2 : ℤ) + 1) := by
  rw [zpow_add_one₀ two_ne_zero, zpow_natCast, ← pow_succ]
  exact ⟨by exact_mod_cast Nat.log2_self_le hn, by exact_mod_cast Nat.lt_log2_self⟩

/-- The logarithms of its parts leave two powers of two for a quotient. -/
theorem quotient_bounds {num den : ℕ} (hnum : num ≠ 0) (hden : den ≠ 0) {e : ℤ}
    (he : (num.log2 : ℤ) - den.log2 = e) :
    (2 : ℚ) ^ (e - 1) ≤ num / den ∧ (num / den : ℚ) < 2 ^ (e + 1) := by
  have hpos : (0 : ℚ) < den := by exact_mod_cast Nat.pos_of_ne_zero hden
  obtain ⟨hnumLow, hnumHigh⟩ := log2_bounds hnum
  obtain ⟨hdenLow, hdenHigh⟩ := log2_bounds hden
  rw [le_div_iff₀ hpos, div_lt_iff₀ hpos]
  constructor
  · calc (2 : ℚ) ^ (e - 1) * den ≤ 2 ^ (e - 1) * 2 ^ ((den.log2 : ℤ) + 1) := by gcongr
      _ = 2 ^ (num.log2 : ℤ) := by
        rw [← zpow_add₀ two_ne_zero]
        congr 1
        omega
      _ ≤ num := hnumLow
  · calc (num : ℚ) < 2 ^ ((num.log2 : ℤ) + 1) := hnumHigh
      _ = 2 ^ (e + 1) * 2 ^ (den.log2 : ℤ) := by
        rw [← zpow_add₀ two_ne_zero]
        congr 1
        omega
      _ ≤ 2 ^ (e + 1) * den := by gcongr

/-- The binary logarithm of a quotient, rounded down. -/
def floorLog (num den : ℕ) : ℤ :=
  let e : ℤ := (num.log2 : ℤ) - den.log2
  let s := scaled num den e
  if s.2 ≤ s.1 then e else e - 1

theorem unitExponent_eq (num den : ℕ) :
    unitExponent num den = max (floorLog num den - 52) (-1074) := rfl

theorem floorLog_spec {num den : ℕ} (hnum : num ≠ 0) (hden : den ≠ 0) :
    (2 : ℚ) ^ floorLog num den ≤ num / den ∧ (num / den : ℚ) < 2 ^ (floorLog num den + 1) := by
  obtain ⟨e, he⟩ : ∃ e : ℤ, (num.log2 : ℤ) - den.log2 = e := ⟨_, rfl⟩
  obtain ⟨hlow, hhigh⟩ := quotient_bounds hnum hden he
  have hreach : (scaled num den e).2 ≤ (scaled num den e).1 ↔ (2 : ℚ) ^ e ≤ num / den := by
    have hpos : (0 : ℚ) < (scaled num den e).2 := by
      exact_mod_cast scaled_pos (Nat.pos_of_ne_zero hden) e
    rw [← Nat.cast_le (α := ℚ), ← one_le_div hpos, scaled_div, one_le_div (by positivity)]
  unfold floorLog
  simp only [he]
  split
  · rename_i h
    exact ⟨hreach.1 h, hhigh⟩
  · rename_i h
    rw [sub_add_cancel]
    exact ⟨hlow, lt_of_not_ge fun hle => h (hreach.2 hle)⟩

/-- A quotient has fewer than `2 ^ 53` units, and no fewer than `2 ^ 52` but of the least unit. -/
theorem unitExponent_spec {num den : ℕ} (hnum : num ≠ 0) (hden : den ≠ 0) {e : ℤ}
    (he : unitExponent num den = e) :
    -1074 ≤ e ∧ (num / den / 2 ^ e : ℚ) < 2 ^ 53 ∧
      (e = -1074 ∨ (2 : ℚ) ^ 52 ≤ num / den / 2 ^ e) := by
  obtain ⟨hlow, hhigh⟩ := floorLog_spec hnum hden
  rw [unitExponent_eq] at he
  generalize floorLog num den = f at *
  refine ⟨by omega, ?_, ?_⟩
  · rw [div_lt_iff₀ (by positivity)]
    calc (num / den : ℚ) < 2 ^ (f + 1) := hhigh
      _ ≤ 2 ^ ((53 : ℕ) + e) := zpow_le_zpow_right₀ one_le_two (by omega)
      _ = 2 ^ 53 * 2 ^ e := by rw [zpow_add₀ two_ne_zero, zpow_natCast]
  · refine (eq_or_ne e (-1074)).imp_right fun hne => ?_
    rw [le_div_iff₀ (by positivity)]
    calc (2 : ℚ) ^ 52 * 2 ^ e = 2 ^ ((52 : ℕ) + e) := by rw [zpow_add₀ two_ne_zero, zpow_natCast]
      _ = 2 ^ f := by
        congr 1
        omega
      _ ≤ num / den := hlow

/-! ## Whole units

A quotient is `t` units of `2 ^ (k - 1074)`, and rounds to `r` of them. -/

/-- `r` is nearest to `t`, and even on a tie; `t` has the digits of a significand. -/
structure Units (t : ℚ) (r k : ℕ) : Prop where
  near : |r - t| ≤ 1 / 2
  even : |r - t| = 1 / 2 → r % 2 = 0
  lt : t < 2 ^ 53
  normal : k = 0 ∨ 2 ^ 52 ≤ t

theorem exists_units (negative : Bool) {num den : ℕ} (hnum : num ≠ 0) (hden : den ≠ 0) :
    ∃ (t : ℚ) (r k : ℕ), Units t r k ∧ (num / den : ℚ) = t * 2 ^ ((k : ℤ) - 1074) ∧
      ofRatio negative num den = ofMagnitude negative (min infinity (k * 2 ^ 52 + r)) := by
  obtain ⟨e, he⟩ : ∃ e, unitExponent num den = e := ⟨_, rfl⟩
  obtain ⟨hlow, hlt, hnormal⟩ := unitExponent_spec hnum hden he
  obtain ⟨hnear, heven⟩ := abs_roundHalfEven_sub (scaled num den e).1 (scaled num den e).2
    (scaled_pos (Nat.pos_of_ne_zero hden) e)
  rw [scaled_div] at hnear heven
  obtain ⟨k, rfl⟩ : ∃ k : ℕ, e = k - 1074 := ⟨(e + 1074).toNat, by omega⟩
  refine ⟨_, _, k, ⟨hnear, heven, hlt, hnormal.imp_left (by omega)⟩, ?_, ?_⟩
  · rw [div_mul_cancel₀ _ (by positivity)]
  · rw [ofRatio, if_neg hnum]
    simp only [he, sub_add_cancel, Int.toNat_natCast, Nat.shiftLeft_eq]

namespace Units

variable {t : ℚ} {r k : ℕ}

theorem le (h : Units t r k) : r ≤ 2 ^ 53 := by
  have hlt : (r : ℚ) < 2 ^ 53 + 1 := by linarith [h.lt, (abs_le.1 h.near).2]
  exact Nat.lt_succ_iff.1 (by exact_mod_cast hlt)

theorem two_pow_le (h : Units t r k) : k = 0 ∨ 2 ^ 52 ≤ r := by
  refine h.normal.imp_right fun hle => ?_
  have hlt : (2 : ℚ) ^ 52 < r + 1 := by linarith [(abs_le.1 h.near).1]
  exact Nat.lt_succ_iff.1 (by exact_mod_cast hlt)

theorem nearest (h : Units t r k) (n : ℤ) :
    |r - t| ≤ |n - t| ∧ (|n - t| = |r - t| → n = r ∨ r % 2 = 0) := by
  by_cases hn : n = r
  · subst hn
    exact ⟨le_of_eq (by norm_cast), fun _ => .inl rfl⟩
  · have hapart : (1 : ℚ) ≤ |(n : ℚ) - r| := by
      exact_mod_cast Int.one_le_abs (sub_ne_zero.2 hn)
    have htriangle : |(n : ℚ) - r| ≤ |n - t| + |r - t| := by
      simpa [abs_sub_comm t] using abs_sub_le (n : ℚ) t r
    have hnear := h.near
    exact ⟨by linarith, fun heq => .inr (h.even (by linarith))⟩

/-- What is nearest on the grid of its unit is nearest of all: finer numbers are too small. -/
theorem nearest_of_all (h : Units t r k) {e : ℤ} (he : e = k - 1074) {s f : ℤ} (hs : s < 2 ^ 53)
    (hf : -1074 ≤ f) :
    |r * 2 ^ e - t * 2 ^ e| ≤ |s * 2 ^ f - t * 2 ^ e| ∧
      (|s * 2 ^ f - t * 2 ^ e| = |r * 2 ^ e - t * 2 ^ e| →
        (s * 2 ^ f : ℚ) = r * 2 ^ e ∨ r % 2 = 0) := by
  have hunit : (0 : ℚ) < 2 ^ e := by positivity
  have hdist (q : ℚ) : |q * 2 ^ e - t * 2 ^ e| = |q - t| * 2 ^ e := by
    rw [← sub_mul, abs_mul, abs_of_pos hunit]
  by_cases hle : e ≤ f
  · have hn : (s * 2 ^ f : ℚ) = (s * 2 ^ (f - e).toNat : ℤ) * 2 ^ e := by
      push_cast
      rw [mul_assoc, ← zpow_natCast, ← zpow_add₀ two_ne_zero]
      congr 2
      omega
    obtain ⟨hnear, htie⟩ := h.nearest (s * 2 ^ (f - e).toNat)
    rw [hn, hdist, hdist]
    refine ⟨by gcongr, fun heq => (htie (mul_right_cancel₀ hunit.ne' heq)).imp_left fun heq => ?_⟩
    rw [heq]
    norm_cast
  · -- the unit is not the least one, so all finer numbers lie below `2 ^ 52` of it
    have ht : (2 : ℚ) ^ 52 ≤ t := h.normal.resolve_left (by omega)
    have hs : (s : ℚ) < 2 ^ 53 := by exact_mod_cast hs
    have hfiner : (s * 2 ^ f : ℚ) < 2 ^ 52 * 2 ^ e :=
      calc (s * 2 ^ f : ℚ) < 2 ^ 53 * 2 ^ f := by gcongr
        _ = 2 ^ 52 * 2 ^ (f + 1) := by
          rw [zpow_add_one₀ two_ne_zero]
          ring
        _ ≤ 2 ^ 52 * 2 ^ e := by
          gcongr
          · exact one_le_two
          · omega
    have hsmallest : |(r : ℚ) - t| ≤ |2 ^ 52 - t| := by
      have hnear := (h.nearest (2 ^ 52)).1
      rwa [Int.cast_pow, Int.cast_ofNat] at hnear
    have hlt : |r * 2 ^ e - t * 2 ^ e| < |s * 2 ^ f - t * 2 ^ e| :=
      calc |r * 2 ^ e - t * 2 ^ e| = |(r : ℚ) - t| * 2 ^ e := hdist r
        _ ≤ |2 ^ 52 - t| * 2 ^ e := by gcongr
        _ = (t - 2 ^ 52) * 2 ^ e := by rw [abs_sub_comm, abs_of_nonneg (by linarith)]
        _ < t * 2 ^ e - s * 2 ^ f := by linarith
        _ ≤ |s * 2 ^ f - t * 2 ^ e| := by
          rw [abs_sub_comm]
          exact le_abs_self _
    exact ⟨hlt.le, fun heq => absurd heq hlt.ne'⟩

/-- Beyond the last magnitude lies no number. -/
theorem greatest_le (h : Units t r k) (hinfinite : infinity ≤ k * 2 ^ 52 + r) :
    greatest ≤ t * 2 ^ ((k : ℤ) - 1074) := by
  have hinfinite : 2047 * 2 ^ 52 ≤ k * 2 ^ 52 + r := hinfinite
  have hle := h.le
  unfold greatest
  rcases (by omega : 2046 ≤ k ∨ (k = 2045 ∧ r = 2 ^ 53)) with hk | ⟨rfl, rfl⟩
  · have ht : (2 : ℚ) ^ 52 ≤ t := h.normal.resolve_left (by omega)
    calc (2 ^ 53 - 1 : ℚ) * 2 ^ (971 : ℤ) ≤ 2 ^ 53 * 2 ^ (971 : ℤ) := by
          gcongr
          linarith
      _ = 2 ^ 52 * 2 ^ (972 : ℤ) := by
        rw [show (972 : ℤ) = 971 + 1 by rfl, zpow_add_one₀ two_ne_zero]
        ring
      _ ≤ t * 2 ^ ((k : ℤ) - 1074) :=
        mul_le_mul ht (zpow_le_zpow_right₀ one_le_two (by omega)) (by positivity)
          (by linarith)
  · have hnear := (abs_le.1 h.near).2
    push_cast at hnear
    have hexp : ((2045 : ℕ) : ℤ) - 1074 = 971 := by norm_num
    rw [hexp]
    gcongr
    linarith

end Units

/-! ## The nearest number -/

/-- No finite number is nearer, and where another one is as near the significand is even. -/
structure Nearest (q : ℚ) (x : Binary64) : Prop where
  finite : x.isFinite = true
  le : ∀ y : Binary64, y.isFinite = true → |x.value - q| ≤ |y.value - q|
  even : ∀ y : Binary64, y.isFinite = true → |y.value - q| = |x.value - q| →
    y.value = x.value ∨ x.significand % 2 = 0

/-- Every number is a number of units, of either sign. -/
theorem exists_signed_value (negative : Bool) (x : Binary64) :
    ∃ s : ℤ, s.natAbs = x.significand ∧ signed negative x.value = s * 2 ^ x.exponent := by
  have hsize : x.size = (x.significand : ℤ) * 2 ^ x.exponent := by
    rw [size]
    norm_cast
  cases hneg : (negative != x.isNegative) with
  | true =>
    refine ⟨-x.significand, by omega, ?_⟩
    rw [value, hsize]
    cases negative <;> simp_all [signed]
  | false =>
    refine ⟨x.significand, by omega, ?_⟩
    rw [value, hsize]
    cases negative <;> simp_all [signed]

theorem Nearest.of_units {negative : Bool} {t : ℚ} {r k : ℕ} (h : Units t r k)
    (hfinite : k * 2 ^ 52 + r < infinity) :
    (ofMagnitude negative (k * 2 ^ 52 + r)).Nearest
      (signed negative (t * 2 ^ ((k : ℤ) - 1074))) := by
  have hlt : k * 2 ^ 52 + r < 2 ^ 63 := Nat.lt_trans hfinite (by decide)
  obtain ⟨hsize, hparity⟩ := size_ofMagnitude negative h.le h.two_pow_le hlt
  have hvalue := value_ofMagnitude negative hlt
  rw [hsize] at hvalue
  obtain ⟨e, he⟩ : ∃ e : ℤ, e = k - 1074 := ⟨_, rfl⟩
  rw [← he] at hvalue ⊢
  have hcompare (y : Binary64) :
      |r * 2 ^ e - t * 2 ^ e| ≤ |signed negative y.value - t * 2 ^ e| ∧
        (|signed negative y.value - t * 2 ^ e| = |r * 2 ^ e - t * 2 ^ e| →
          signed negative y.value = r * 2 ^ e ∨ r % 2 = 0) := by
    obtain ⟨s, hs, hy⟩ := exists_signed_value negative y
    have hlt := y.significand_lt
    rw [hy]
    exact h.nearest_of_all he (by omega) y.le_exponent
  refine ⟨isFinite_ofMagnitude hfinite, fun y _ => ?_, fun y _ heq => ?_⟩
  · rw [abs_sub_signed, abs_sub_signed, hvalue, signed_signed]
    exact (hcompare y).1
  · rw [abs_sub_signed, abs_sub_signed, hvalue, signed_signed] at heq
    rw [hparity, hvalue]
    refine ((hcompare y).2 heq).imp_left fun hy => ?_
    rw [← hy, signed_signed]

theorem Nearest.zero {negative : Bool} {q : ℚ} (h : 2 * |q| ≤ 2 ^ (-1074 : ℤ)) :
    (ofMagnitude negative 0).Nearest q := by
  have hsignificand : (ofMagnitude negative 0).significand = 0 := by cases negative <;> rfl
  have hzero : (ofMagnitude negative 0).value = 0 := by
    rw [← abs_eq_zero, abs_value, size, hsignificand, Nat.cast_zero, zero_mul]
  refine ⟨isFinite_ofMagnitude (by decide), fun y _ => ?_, fun _ _ _ => .inr (by rw [hsignificand])⟩
  rw [hzero, zero_sub, abs_neg]
  by_cases hy : y.size = 0
  · rw [abs_eq_zero.1 ((abs_value y).trans hy), zero_sub, abs_neg]
  · have hle := le_size hy
    have htriangle := abs_sub_abs_le_abs_sub y.value q
    rw [abs_value] at htriangle
    linarith

theorem exists_greatest (negative : Bool) :
    ∃ x : Binary64, x.isFinite = true ∧ x.value = signed negative greatest := by
  have hpattern : infinity - 1 = 2045 * 2 ^ 52 + (2 ^ 53 - 1) := by decide
  refine ⟨ofMagnitude negative (infinity - 1), isFinite_ofMagnitude (by decide), ?_⟩
  rw [value_ofMagnitude _ (by decide), hpattern,
    (size_ofMagnitude _ (by norm_num) (by norm_num) (by norm_num)).1]
  norm_num [greatest]

/-- Beyond the greatest number it is the nearest. -/
theorem Nearest.greatest {q : ℚ} (h : greatest ≤ |q|) :
    ∃ x : Binary64, x.Nearest q ∧ |x.value| = Binary64.greatest := by
  obtain ⟨negative, hq⟩ : ∃ negative, signed negative q = |q| := by
    rcases le_or_gt 0 q with hle | hlt
    · exact ⟨false, (abs_of_nonneg hle).symm⟩
    · exact ⟨true, (abs_of_neg hlt).symm⟩
  obtain ⟨x, hfinite, hvalue⟩ := exists_greatest negative
  have hreflect (p : ℚ) : |p - q| = |signed negative p - abs q| := by
    rw [← hq, abs_sub_signed, signed_signed]
  -- on this side of zero no number is beyond the greatest one
  have hdist (p : ℚ) (hp : signed negative p ≤ Binary64.greatest) :
      |p - q| = |q| - signed negative p := by
    rw [hreflect, abs_sub_comm, abs_of_nonneg (by linarith)]
  have hbound (y : Binary64) (hy : y.isFinite = true) :
      signed negative y.value ≤ Binary64.greatest := by
    refine (le_abs_self _).trans ?_
    rw [abs_signed, abs_value]
    exact size_le hy
  have hx : signed negative x.value = Binary64.greatest := by rw [hvalue, signed_signed]
  refine ⟨x, ⟨hfinite, fun y hy => ?_, fun y hy heq => .inl ?_⟩, ?_⟩
  · rw [hdist _ hx.le, hdist _ (hbound y hy), hx]
    linarith [hbound y hy]
  · rw [hdist _ hx.le, hdist _ (hbound y hy), sub_right_inj] at heq
    rw [← signed_signed negative y.value, heq, signed_signed]
  · rw [hvalue, abs_signed, abs_of_nonneg (by norm_num [Binary64.greatest])]

/-! ## One result -/

theorem signed_decide (s : ℤ) (q : ℚ) : signed (decide (s < 0)) (s.natAbs * q) = s * q := by
  unfold signed
  rcases le_or_gt 0 s with h | h
  · rw [if_neg (by simpa using h), Nat.cast_natAbs, abs_of_nonneg h]
  · rw [if_pos (by simpa using h), Nat.cast_natAbs, abs_of_neg h]
    push_cast
    ring

/-- A number of units that has the digits of a significand, or one less, is in the format. -/
theorem exists_value {s : ℤ} {k : ℕ} (hs : s.natAbs < 2 ^ 53)
    (hnormal : k = 0 ∨ 2 ^ 52 ≤ s.natAbs + 1) (hk : k ≤ 2045) :
    ∃ z : Binary64, z.isFinite = true ∧ z.value = s * 2 ^ ((k : ℤ) - 1074) := by
  have hfinite {m : ℕ} (h : m < 2047 * 2 ^ 52) : (ofMagnitude (decide (s < 0)) m).isFinite = true :=
    isFinite_ofMagnitude h
  by_cases hdigits : k = 0 ∨ 2 ^ 52 ≤ s.natAbs
  · refine ⟨ofMagnitude (decide (s < 0)) (k * 2 ^ 52 + s.natAbs), hfinite (by omega), ?_⟩
    rw [value_ofMagnitude _ (by omega), (size_ofMagnitude _ hs.le hdigits (by omega)).1, signed_decide]
  · obtain ⟨j, rfl⟩ : ∃ j, k = j + 1 := ⟨k - 1, by omega⟩
    refine ⟨ofMagnitude (decide (s < 0)) (j * 2 ^ 52 + 2 * s.natAbs), hfinite (by omega), ?_⟩
    have hexponent : ((j + 1 : ℕ) : ℤ) - 1074 = (j : ℤ) - 1074 + 1 := by omega
    rw [value_ofMagnitude _ (by omega),
      (size_ofMagnitude _ (by omega) (.inr (by omega)) (by omega)).1, hexponent,
      zpow_add_one₀ two_ne_zero, ← signed_decide s]
    congr 1
    push_cast
    ring

/-- Between two numbers with even significands lies another one. -/
theorem exists_between {x y : Binary64} (hx : x.isFinite = true) (hxeven : x.significand % 2 = 0)
    (hyeven : y.significand % 2 = 0) (hexponent : x.exponent ≤ y.exponent)
    (hne : x.value ≠ y.value) :
    ∃ z : Binary64, z.isFinite = true ∧
      ((x.value < z.value ∧ z.value < y.value) ∨ (y.value < z.value ∧ z.value < x.value)) := by
  obtain ⟨s, hs, hxvalue⟩ := exists_signed_value false x
  obtain ⟨s', hs', hyvalue⟩ := exists_signed_value false y
  -- both are even numbers of the unit of the finer one
  obtain ⟨n, hn, hyvalue⟩ : ∃ n : ℤ, n % 2 = 0 ∧ y.value = n * 2 ^ x.exponent := by
    refine ⟨s' * 2 ^ (y.exponent - x.exponent).toNat, ?_, ?_⟩
    · rw [Int.mul_emod, (by omega : s' % 2 = 0), zero_mul, Int.zero_emod]
    · push_cast
      rw [mul_assoc, ← zpow_natCast, ← zpow_add₀ two_ne_zero, Int.toNat_of_nonneg (by omega),
        sub_add_cancel]
      exact hyvalue
  have hunit : (0 : ℚ) < 2 ^ x.exponent := by positivity
  have hxvalue : x.value = s * 2 ^ x.exponent := hxvalue
  have hsn : s ≠ n := fun h => hne (by rw [hxvalue, hyvalue, h])
  have hlt := x.significand_lt
  have hlow := x.le_exponent
  have hhigh := exponent_le hx
  have hnormal := x.le_significand
  obtain ⟨z, hz, hzvalue⟩ := exists_value (s := if s < n then s + 1 else s - 1)
    (k := (x.exponent + 1074).toNat) (by split <;> omega) (by split <;> omega) (by omega)
  rw [Int.toNat_of_nonneg (by omega), add_sub_cancel_right] at hzvalue
  refine ⟨z, hz, ?_⟩
  rw [hxvalue, hyvalue, hzvalue, mul_lt_mul_iff_left₀ hunit, mul_lt_mul_iff_left₀ hunit,
    mul_lt_mul_iff_left₀ hunit, mul_lt_mul_iff_left₀ hunit]
  norm_cast
  split <;> omega

/-- **Rounding has one result**: on a tie the other number has an odd significand. -/
theorem Nearest.value_eq {q : ℚ} {x y : Binary64} (hx : x.Nearest q) (hy : y.Nearest q) :
    x.value = y.value := by
  have hdist : |x.value - q| = |y.value - q| := le_antisymm (hx.le y hy.finite) (hy.le x hx.finite)
  by_contra hne
  have hxeven := (hx.even y hy.finite hdist.symm).resolve_left fun h => hne h.symm
  have hyeven := (hy.even x hx.finite hdist).resolve_left hne
  obtain ⟨z, hz, hbetween⟩ : ∃ z : Binary64, z.isFinite = true ∧
      ((x.value < z.value ∧ z.value < y.value) ∨ (y.value < z.value ∧ z.value < x.value)) := by
    rcases le_total x.exponent y.exponent with hle | hle
    · exact exists_between hx.finite hxeven hyeven hle hne
    · obtain ⟨z, hz, hbetween⟩ := exists_between hy.finite hyeven hxeven hle (Ne.symm hne)
      exact ⟨z, hz, hbetween.symm⟩
  have hmiddle : x.value - q = -(y.value - q) :=
    (abs_eq_abs.1 hdist).resolve_left fun h => hne (sub_left_inj.1 h)
  have hcloser : |z.value - q| < |x.value - q| := by
    rw [abs_lt, lt_abs, neg_lt, lt_abs]
    rcases hbetween with ⟨hxz, hzy⟩ | ⟨hyz, hzx⟩
    · exact ⟨.inr (by linarith), .inr (by linarith)⟩
    · exact ⟨.inl (by linarith), .inl (by linarith)⟩
  exact absurd (hx.le z hz) (not_le.2 hcloser)

/-! ## Quotients -/

/-- The nearest number, or an infinity where there is no number beyond. -/
def Rounds (q : ℚ) (x : Binary64) : Prop :=
  x.Nearest q ∨ x.isFinite = false ∧ greatest ≤ |q|

/-- **A quotient is rounded to the nearest number.** -/
theorem rounds_ofRatio (negative : Bool) (num : ℕ) {den : ℕ} (hden : den ≠ 0) :
    (ofRatio negative num den).Rounds (signed negative (num / den)) := by
  by_cases hnum : num = 0
  · rw [ofRatio, if_pos hnum]
    refine .inl (.zero ?_)
    rw [abs_signed, hnum, Nat.cast_zero, zero_div, abs_zero, mul_zero]
    positivity
  obtain ⟨t, r, k, hunits, hq, hx⟩ := exists_units negative hnum hden
  rw [hx, hq]
  rcases lt_or_ge (k * 2 ^ 52 + r) infinity with hfinite | hinfinite
  · rw [min_eq_right hfinite.le]
    exact .inl (.of_units hunits hfinite)
  · rw [min_eq_left hinfinite]
    refine .inr ⟨by cases negative <;> decide, ?_⟩
    rw [abs_signed]
    exact (hunits.greatest_le hinfinite).trans (le_abs_self _)

theorem Rounds.exists_nearest {q : ℚ} {x : Binary64} (h : x.Rounds q) :
    ∃ y : Binary64, y.Nearest q := by
  rcases h with h | ⟨-, h⟩
  · exact ⟨x, h⟩
  · obtain ⟨y, hy, -⟩ := Nearest.greatest h
    exact ⟨y, hy⟩

/-- What is rounded to an infinity is too large for a word. -/
theorem Rounds.toInt64?_eq {q : ℚ} {x y : Binary64} (h : x.Rounds q) (hy : y.Nearest q) :
    x.toInt64? = word? y.value := by
  rw [Binary64.toInt64?_eq]
  rcases h with h | ⟨hinfinite, hlarge⟩
  · rw [if_pos h.finite, h.value_eq hy]
  · obtain ⟨z, hz, hvalue⟩ := Nearest.greatest hlarge
    rw [hz.value_eq hy] at hvalue
    have hword : (0x8000000000000001 : ℚ) ≤ |y.value| := by
      rw [hvalue, Binary64.greatest]
      calc (0x8000000000000001 : ℚ) ≤ (2 ^ 53 - 1) * 2 ^ (11 : ℤ) := by norm_num
        _ ≤ (2 ^ 53 - 1) * 2 ^ (971 : ℤ) := by
          gcongr
          · exact one_le_two
          · norm_num
    rw [if_neg (by simp [hinfinite]), eq_comm, word?_eq_none_iff]
    rcases le_abs'.1 hword with hlow | hhigh
    · exact .inl hlow
    · exact .inr (by linarith)

end Scim.Binary64
