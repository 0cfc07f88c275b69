import Scim.Binary64.Basic

/-!
# Finite numbers

An integer that a word of 64 bits holds is never so large that its nearest binary floating point number
is infinite (`isFinite_ofInt`): the number of `n` has the unit `n.log2 - 52` in the last place, and of
these units it has fewer than `2 ^ 53` (`scaled_lt`).
-/

set_option autoImplicit false

namespace Scim.Binary64

theorem magnitude_ofMagnitude {negative : Bool} {m : Nat} (h : m < 1 <<< 63) :
    (ofMagnitude negative m).magnitude = m := by
  rw [Nat.one_shiftLeft] at h
  simp only [magnitude, ofMagnitude, UInt64.toNat_ofNat', Nat.one_shiftLeft]
  split <;> omega

theorem isNegative_ofMagnitude {negative : Bool} {m : Nat} (h : m < 1 <<< 63) :
    (ofMagnitude negative m).isNegative = negative := by
  rw [Nat.one_shiftLeft] at h
  simp only [isNegative, ofMagnitude, UInt64.toNat_ofNat', Nat.one_shiftLeft]
  cases negative <;> simp <;> omega

theorem isFinite_ofMagnitude {negative : Bool} {m : Nat} (h : m < infinity) :
    (ofMagnitude negative m).isFinite = true := by
  rw [isFinite, magnitude_ofMagnitude (Nat.lt_trans h (by decide))]
  exact decide_eq_true h

theorem roundHalfEven_le (num den : Nat) : roundHalfEven num den ≤ num / den + 1 := by
  unfold roundHalfEven
  simp only
  split <;> omega

theorem unitExponent_one {n : Nat} (hn : n ≠ 0) :
    unitExponent n 1 = max ((n.log2 : Int) - 52) (-1074) := by
  have hle := Nat.log2_self_le hn
  have hlog : Nat.log2 1 = 0 := by decide
  have hreach : (scaled n 1 (n.log2 : Int)).2 ≤ (scaled n 1 (n.log2 : Int)).1 := by
    simp only [scaled]
    rw [if_pos (by omega)]
    simpa [Nat.one_shiftLeft] using hle
  unfold unitExponent
  simp only [hlog, Int.ofNat_zero, Int.sub_zero, hreach, if_true]

/-- An integer has fewer than `2 ^ 53` units of its last place. -/
theorem scaled_lt (n : Nat) :
    (scaled n 1 ((n.log2 : Int) - 52)).1 / (scaled n 1 ((n.log2 : Int) - 52)).2 < 1 <<< 53 := by
  have hlt : n < 2 ^ (n.log2 + 1) := Nat.lt_log2_self
  unfold scaled
  rw [Nat.one_shiftLeft]
  by_cases h : 52 ≤ n.log2
  · rw [if_pos (by omega)]
    have hexp : ((n.log2 : Int) - 52).toNat = n.log2 - 52 := by omega
    simp only [hexp, Nat.one_shiftLeft]
    rw [Nat.div_lt_iff_lt_mul (Nat.two_pow_pos _), ← Nat.pow_add]
    have : 53 + (n.log2 - 52) = n.log2 + 1 := by omega
    rwa [this]
  · rw [if_neg (by omega)]
    have hexp : (-((n.log2 : Int) - 52)).toNat = 52 - n.log2 := by omega
    simp only [hexp, Nat.div_one, Nat.shiftLeft_eq]
    calc n * 2 ^ (52 - n.log2) < 2 ^ (n.log2 + 1) * 2 ^ (52 - n.log2) :=
          Nat.mul_lt_mul_of_pos_right hlt (Nat.two_pow_pos _)
      _ = 2 ^ 53 := by
        rw [← Nat.pow_add]
        congr 1
        omega

theorem isFinite_ofRatio {negative : Bool} {n : Nat} (h : n < 0x10000000000000000) :
    (ofRatio negative n 1).isFinite = true := by
  unfold ofRatio
  split
  · exact isFinite_ofMagnitude (by decide)
  · rename_i hn
    have hlog : n.log2 < 64 := (Nat.log2_lt hn).2 h
    have hunit : unitExponent n 1 = (n.log2 : Int) - 52 := by
      rw [unitExponent_one hn]
      omega
    have hround := roundHalfEven_le (scaled n 1 ((n.log2 : Int) - 52)).1
      (scaled n 1 ((n.log2 : Int) - 52)).2
    have hscaled := scaled_lt n
    have hexp : ((n.log2 : Int) - 52 + 1074).toNat ≤ 1085 := by omega
    have hmul := Nat.mul_le_mul_right (2 ^ 52) hexp
    simp only [hunit]
    apply isFinite_ofMagnitude
    apply Nat.lt_of_le_of_lt (Nat.min_le_right _ _)
    unfold infinity
    omega

/-- **Every integer of 64 bits, signed or unsigned, has a finite number nearest to it.** -/
theorem isFinite_ofInt {n : Int} (hlow : -0x8000000000000000 ≤ n) (hhigh : n < 0x10000000000000000) :
    (ofInt n).isFinite = true :=
  isFinite_ofRatio (by omega)

end Scim.Binary64
