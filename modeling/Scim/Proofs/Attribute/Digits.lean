import Scim.Proofs.Attribute.Readback
import Scim.Proofs.Numeral

/-!
# Integers for text

What an attribute for text holds after an integer of a document was assigned to it. An integer that a
signed word of 64 bits holds keeps its digits; a larger one is held as the decimal nearest to it, and its
text is that of the decimal, which has a point, so that it is never taken for an integer
(`Attribute.value_assign_integer`).
-/

set_option autoImplicit false

namespace Scim

/-! ## Texts of integers -/

namespace Json

theorem ofList_integerText (n : Int) : String.ofList (integerText n) = toString n := by
  cases n with
  | ofNat n => rfl
  | negSucc n =>
    rw [integerText, if_pos (Int.negSucc_lt_zero n), ← String.toList_inj, String.toList_ofList]
    show _ = ("-" ++ String.ofList (Nat.toDigits 10 (n + 1))).toList
    rw [String.toList_append, String.toList_ofList, String.toList_ofList]
    rfl

/-- The sign of an integer as it is written. -/
def sign (n : Int) : Sign :=
  if n < 0 then .minus else .bare

theorem integerText_eq (n : Int) : integerText n = (sign n).text ++ Nat.toDigits 10 n.natAbs := by
  unfold integerText sign
  split
  · rfl
  · rw [show n.toNat = n.natAbs by omega]
    rfl

theorem isDigit_of_mem_toDigits {n : Nat} {c : Char} (h : c ∈ Nat.toDigits 10 n) : c.isDigit = true :=
  Nat.isDigit_of_mem_toDigits (by decide) (by decide) h

/-- The digits of an integer denote it. -/
theorem integer?_integerText (n : Int) : Text.integer? (integerText n) = some n := by
  have hvalue : Text.digitsValue (Nat.toDigits 10 n.natAbs) = n.natAbs := Nat.ofDigitChars_ten_toDigits
  rw [integerText_eq, Numeral.integer?_text _ (fun c => isDigit_of_mem_toDigits) Nat.toDigits_ne_nil,
    hvalue, Sign.integer, sign]
  split <;> simp only [Sign.isMinus, Bool.false_eq_true, if_true, if_false, Option.some.injEq] <;> omega

theorem point_notMem_integerText (n : Int) : '.' ∉ integerText n := by
  intro h
  rw [integerText_eq, List.mem_append] at h
  rcases h with h | h
  · unfold sign at h
    split at h <;> simp [Sign.text] at h
  · exact Time.ne_of_isDigit (isDigit_of_mem_toDigits h) rfl rfl

end Json

/-! ## Texts of decimals -/

namespace Binary64

/-- A point stands in the text of every finite number. -/
theorem point_mem_text {x : Binary64} (h : x.isFinite = true) : '.' ∈ x.text := by
  have hpositional (d : Decimal) : '.' ∈ d.positional := by
    unfold Decimal.positional
    dsimp only
    split <;> simp
  rw [text, if_pos h, numeral]
  dsimp only [NumeralStyle.isPositional, NumeralStyle.plain]
  split <;> simp [hpositional]

theorem nearest_ofInt {n : Int} (hlow : -0x8000000000000000 ≤ n) (hhigh : n < 0x10000000000000000) :
    (ofInt n).Nearest n := by
  have hrounds := rounds_ofRatio (decide (n < 0)) n.natAbs (one_ne_zero : (1 : ℕ) ≠ 0)
  have hvalue := signed_decide n 1
  rw [mul_one, mul_one] at hvalue
  rw [Nat.cast_one, div_one, hvalue] at hrounds
  refine hrounds.resolve_right fun ⟨hinfinite, _⟩ => ?_
  have hfinite : (ofInt n).isFinite = true := isFinite_ofInt hlow hhigh
  rw [ofInt, hinfinite] at hfinite
  cases hfinite

end Binary64

/-! ## Attributes for text -/

namespace Attribute

variable {a : Attribute}

/-- A value is turned into text. -/
theorem value_assign_toText (hd : a.descriptor.datatype = .string)
    (hm : a.descriptor.multiValued = false) (v : Value) : (a.assign v).value = v.toText := by
  rw [assign_single (by simp [Descriptor.isComplex, hd]) hm, hd, value_eq, DataType.coerce]
  rfl

theorem value_assign_word (hd : a.descriptor.datatype = .string)
    (hm : a.descriptor.multiValued = false) {n : Int} (hlow : -0x8000000000000000 ≤ n)
    (hhigh : n < 0x8000000000000000) :
    (a.assign (.ofJson (.integer n))).value = .text (toString n) := by
  rw [value_assign_toText hd hm, Value.ofJson, if_pos (by simp [hlow, hhigh]), Value.toText,
    Int64.toInt_ofInt_of_le hlow hhigh, Value.ofChars, Json.ofList_integerText]

theorem value_assign_large (hd : a.descriptor.datatype = .string)
    (hm : a.descriptor.multiValued = false) {n : Int} (hhigh : 0x8000000000000000 ≤ n) :
    (a.assign (.ofJson (.integer n))).value = .text (String.ofList (Binary64.ofInt n).text) := by
  rw [value_assign_toText hd hm, Value.ofJson, if_neg (by simp; omega)]
  rfl

/-- **An integer of a word keeps its digits.** Of the integers of a document exactly those that a signed
word holds are stored as their digits, so that the text of one of them is the text of no other integer. A
larger one is stored as the text of the decimal nearest to it, in which a point stands. -/
theorem value_assign_integer (hd : a.descriptor.datatype = .string)
    (hm : a.descriptor.multiValued = false) {n : Int} (hlow : -0x8000000000000000 ≤ n)
    (hhigh : n < 0x10000000000000000) :
    ((a.assign (.ofJson (.integer n))).value = .text (toString n) ↔ n < 0x8000000000000000) ∧
      (∀ m : Int, -0x8000000000000000 ≤ m → m < 0x8000000000000000 →
        (a.assign (.ofJson (.integer m))).value = (a.assign (.ofJson (.integer n))).value → m = n) ∧
      (0x8000000000000000 ≤ n → ∃ x : Binary64, x.Nearest n ∧ '.' ∈ x.text ∧
        (a.assign (.ofJson (.integer n))).value = .text (String.ofList x.text)) := by
  have hpoint : '.' ∈ (Binary64.ofInt n).text :=
    Binary64.point_mem_text (Binary64.isFinite_ofInt hlow hhigh)
  -- the text of a large integer is that of no integer at all
  have hdigits (hlarge : 0x8000000000000000 ≤ n) (m : Int) :
      (a.assign (.ofJson (.integer n))).value ≠ .text (toString m) := by
    intro h
    rw [value_assign_large hd hm hlarge, ← Json.ofList_integerText, Value.text.injEq,
      String.ofList_inj] at h
    exact Json.point_notMem_integerText m (h ▸ hpoint)
  refine ⟨⟨fun h => ?_, value_assign_word hd hm hlow⟩, fun m hm' hm'' h => ?_, fun hlarge => ?_⟩
  · by_contra hlarge
    exact hdigits (by omega) n h
  · rw [value_assign_word hd hm hm' hm''] at h
    by_cases hword : n < 0x8000000000000000
    · rw [value_assign_word hd hm hlow hword, Value.text.injEq, ← Json.ofList_integerText,
        ← Json.ofList_integerText, String.ofList_inj] at h
      exact Option.some.inj (by rw [← Json.integer?_integerText m, h, Json.integer?_integerText])
    · exact absurd h.symm (hdigits (by omega) m)
  · exact ⟨.ofInt n, Binary64.nearest_ofInt hlow hhigh, hpoint, value_assign_large hd hm hlarge⟩

/-- A number of an employee beyond the words, and the greatest one within them. -/
theorem value_assign_integer_employeeNumber :
    let a := bind (.new "employeeNumber" .string)
    a.descriptor.datatype = .string ∧ a.descriptor.multiValued = false ∧
      (a.assign (.ofJson (.integer 9223372036854775807))).value = .text "9223372036854775807" ∧
      (a.assign (.ofJson (.integer 9223372036854775808))).value ≠ .text "9223372036854775808" ∧
      (a.assign (.ofJson (.integer 9223372036854775807))).value ≠
        (a.assign (.ofJson (.integer 9223372036854775808))).value := by
  intro a
  obtain ⟨hword, -, -⟩ := value_assign_integer (a := a) rfl rfl (n := 9223372036854775807)
    (by decide) (by decide)
  obtain ⟨hlarge, hother, -⟩ := value_assign_integer (a := a) rfl rfl (n := 9223372036854775808)
    (by decide) (by decide)
  refine ⟨rfl, rfl, hword.2 (by decide), fun h => absurd (hlarge.1 h) (by decide), fun h => ?_⟩
  exact absurd (hother _ (by decide) (by decide) h) (by decide)

/-- The two greatest integers that a document holds are stored as one text, which is the digits of
neither. -/
theorem value_assign_integer_greatest :
    let a := bind (.new "employeeNumber" .string)
    (a.assign (.ofJson (.integer 18446744073709551615))).value = .text "18446744073709552000.0" ∧
      (a.assign (.ofJson (.integer 18446744073709551614))).value = .text "18446744073709552000.0" ∧
      ¬ (a.assign (.ofJson (.integer 18446744073709551615))).value =
        .text (toString (18446744073709551615 : Int)) := by
  refine ⟨rfl, rfl, fun h => ?_⟩
  have htext : "18446744073709552000.0" = "18446744073709551615" := Value.text.inj h
  exact absurd htext (by decide)

end Attribute

end Scim
