import Scim.Text.Case

/-!
# Forms of names

A declared path is its names in lower case with dots between them; its snake-case form has underscores
there and before some capitals, and is in lower case too (`lower_snake`). The two never meet:
`snake_append_ne_path` finds them apart at the first underscore that was put in, or at the first dot.
-/

set_option autoImplicit false

namespace Scim.Text

theorem lower_append (a b : String) : lower (a ++ b) = lower a ++ lower b := by
  simp [lower, String.ofList_append]

theorem toLower_toLower (c : Char) : c.toLower.toLower = c.toLower := by
  unfold Char.toLower
  grind

theorem lower_lower (s : String) : lower (lower s) = lower s := by
  have hmap : Char.toLower ∘ Char.toLower = Char.toLower := funext toLower_toLower
  simp [lower, hmap]

theorem lower_snakeFrom (before : Char) (s : List Char) :
    (snakeFrom before s).map Char.toLower = snakeFrom before s := by
  induction s generalizing before with
  | nil => rfl
  | cons c s ih =>
    unfold snakeFrom
    split
    · simp only [List.map_cons, toLower_toLower, ih]
      rfl
    · simp only [List.map_cons, toLower_toLower, ih]

theorem lower_snake (s : String) : lower (snake s) = snake s := by
  simp [lower, snake, lower_snakeFrom]

@[simp] theorem length_lower (s : String) : (lower s).length = s.length := by
  rw [← String.length_toList, ← String.length_toList, lower, String.toList_ofList, List.length_map]

theorem toLower_ne_underscore {c : Char} (h : c.isUpper = true) : c.toLower ≠ '_' := by
  unfold Char.isUpper at h
  simp only [Bool.decide_and, Bool.and_eq_true, decide_eq_true_eq] at h
  intro he
  have hval : c.toLower.val = 95 := congrArg Char.val he
  unfold Char.toLower at hval
  rw [dif_pos h] at hval
  have low : 65 ≤ c.val.toNat := UInt32.le_iff_toNat_le.1 h.1
  have high : c.val.toNat ≤ 90 := UInt32.le_iff_toNat_le.1 h.2
  have sum : (c.val + 32).toNat = 95 := congrArg UInt32.toNat hval
  rw [UInt32.toNat_add] at sum
  simp only [UInt32.reduceToNat] at sum
  omega

theorem length_le_snakeFrom (before : Char) (s : List Char) :
    s.length ≤ (snakeFrom before s).length := by
  induction s generalizing before with
  | nil => exact Nat.le_refl _
  | cons c s ih =>
    have := ih c
    unfold snakeFrom
    split <;> simp only [List.length_cons] <;> omega

theorem length_le_snake (s : String) : s.length ≤ (snake s).length := by
  rw [← String.length_toList, ← String.length_toList, snake, String.toList_ofList]
  exact length_le_snakeFrom ' ' s.toList

/-- Where a snake-case form starts like the lower case of a name with a dot behind it, nothing was put
into it. -/
theorem eq_of_snakeFrom_append {before : Char} {s rest path : List Char}
    (h : snakeFrom before s ++ rest = s.map Char.toLower ++ '.' :: path) : rest = '.' :: path := by
  induction s generalizing before with
  | nil => exact h
  | cons c s ih =>
    unfold snakeFrom at h
    split at h
    · rename_i hc
      simp only [Bool.and_eq_true] at hc
      exact absurd (List.cons.inj h).1.symm (toLower_ne_underscore hc.1)
    · exact ih (List.cons.inj h).2

theorem snake_ne_path (name path : String) : snake name ≠ lower name ++ "." ++ path := by
  intro h
  have h := congrArg String.toList h
  simp only [snake, lower, String.toList_append, String.toList_ofList, List.append_assoc] at h
  have := @eq_of_snakeFrom_append ' ' name.toList [] path.toList ((List.append_nil _).trans h)
  cases this

theorem snake_append_ne_path (name rest path : String) :
    snake name ++ "_" ++ rest ≠ lower name ++ "." ++ path := by
  intro h
  have h := congrArg String.toList h
  simp only [snake, lower, String.toList_append, String.toList_ofList, List.append_assoc] at h
  have := eq_of_snakeFrom_append h
  cases this

end Scim.Text
