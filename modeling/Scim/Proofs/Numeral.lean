import Scim.Proofs.Binary64.Rounding
import Scim.Proofs.Time.Reading
import Scim.Text.Numeral

/-!
# Numerals in text

`Numeral.Written` is a numeral part by part, with the number that it denotes (`Numeral.Written.value`).
Its text is read as that number (`Numeral.Written.ofText?_text`, `Numeral.Written.value_numeral`), and the
nearest number of the format is found (`Numeral.rounds_nearest`). As an integer of a word a text is read
exactly if it has neither fraction nor exponent and the word holds it (`Numeral.Written.int64?_text`).
-/

set_option autoImplicit false

namespace Scim

/-! ## The grammar -/

/-- What stands in front of digits. -/
inductive Sign where
  | bare
  | plus
  | minus
deriving DecidableEq

namespace Sign

def text : Sign → List Char
  | bare => []
  | plus => ['+']
  | minus => ['-']

def isMinus : Sign → Bool
  | minus => true
  | _ => false

/-- The integer that digits after the sign denote. -/
def integer (sign : Sign) (n : ℕ) : ℤ :=
  if sign.isMinus then -n else n

theorem integer_cast (sign : Sign) (n : ℕ) : (sign.integer n : ℚ) = signed sign.isMinus n := by
  unfold integer signed
  split <;> norm_cast

end Sign

namespace Numeral

/-- A mark and digits with an optional sign. -/
structure Exponent where
  mark : Char
  sign : Sign
  digits : List Char
  mark_eq : mark = 'e' ∨ mark = 'E'
  isDigit_digits : ∀ c ∈ digits, c.isDigit = true
  digits_ne_nil : digits ≠ []

/-- A numeral as it is written: an optional sign, digits with an optional fraction, and an optional
exponent. -/
structure Written where
  sign : Sign
  whole : List Char
  fraction : Option (List Char)
  exponent : Option Exponent
  isDigit_whole : ∀ c ∈ whole, c.isDigit = true
  isDigit_fraction : ∀ c ∈ fraction.getD [], c.isDigit = true
  digits_ne_nil : whole ++ fraction.getD [] ≠ []

def Exponent.text (e : Exponent) : List Char :=
  e.mark :: (e.sign.text ++ e.digits)

def Exponent.value (e : Exponent) : ℤ :=
  e.sign.integer (Text.digitsValue e.digits)

namespace Written

variable (w : Written)

def fractionText : List Char :=
  w.fraction.elim [] fun ds => '.' :: ds

def exponentText : List Char :=
  w.exponent.elim [] Exponent.text

def text : List Char :=
  w.sign.text ++ (w.whole ++ (w.fractionText ++ w.exponentText))

/-- Digits alone, without fraction and exponent. -/
def isPlain : Bool :=
  w.fraction.isNone && w.exponent.isNone

/-- The number that a numeral denotes. -/
def value : ℚ :=
  signed w.sign.isMinus
    ((Text.digitsValue w.whole +
        Text.digitsValue (w.fraction.getD []) / 10 ^ (w.fraction.getD []).length) *
      10 ^ w.exponent.elim 0 Exponent.value)

end Written

/-! ## Reading -/

theorem takeSign_text (sign : Sign) {s : List Char} (h : ∀ c ∈ s.head?, c ≠ '-' ∧ c ≠ '+') :
    Text.takeSign (sign.text ++ s) = (sign.isMinus, s) := by
  cases sign with
  | minus => rfl
  | plus => rfl
  | bare =>
    cases s with
    | nil => rfl
    | cons c s =>
      obtain ⟨hminus, hplus⟩ := h c rfl
      show Text.takeSign (c :: s) = (false, c :: s)
      unfold Text.takeSign
      split
      · exact absurd (List.cons.inj ‹_›).1 hminus
      · exact absurd (List.cons.inj ‹_›).1 hplus
      · rfl

theorem integer?_text (sign : Sign) {digits : List Char} (hdigits : ∀ c ∈ digits, c.isDigit = true)
    (hne : digits ≠ []) :
    Text.integer? (sign.text ++ digits) = some (sign.integer (Text.digitsValue digits)) := by
  have hhead : ∀ c ∈ digits.head?, c ≠ '-' ∧ c ≠ '+' := fun c hc =>
    have hc := hdigits c (List.mem_of_head? hc)
    ⟨Time.ne_of_isDigit hc rfl, Time.ne_of_isDigit hc rfl⟩
  rw [Text.integer?, takeSign_text sign hhead]
  simp only
  rw [if_neg (by simpa [hne] using hdigits), Sign.integer]

theorem Exponent.isDigit_mark (e : Exponent) : e.mark.isDigit = false := by
  rcases e.mark_eq with h | h <;> rw [h] <;> rfl

theorem exponent?_text (e : Exponent) : exponent? e.text = some e.value := by
  rw [Exponent.text, exponent?, if_pos (by simpa using e.mark_eq)]
  exact integer?_text e.sign e.isDigit_digits e.digits_ne_nil

/-- Digits are split off up to the first character that is none. -/
theorem span_digits {digits rest : List Char} (h : ∀ c ∈ digits, c.isDigit = true)
    (hrest : Time.NoDigit rest) :
    (digits ++ rest).takeWhile Char.isDigit = digits ∧
      (digits ++ rest).dropWhile Char.isDigit = rest := by
  rw [List.takeWhile_append_of_pos h, List.dropWhile_append_of_pos h, hrest.takeWhile,
    hrest.dropWhile, List.append_nil]
  exact ⟨rfl, rfl⟩

namespace Written

variable (w : Written)

theorem noDigit_exponentText : Time.NoDigit w.exponentText := by
  cases h : w.exponent with
  | none =>
    rw [exponentText, h]
    exact fun _ hc => nomatch hc
  | some e =>
    rw [exponentText, h]
    exact .cons e.isDigit_mark _

theorem exponentText_ne_point (s : List Char) : w.exponentText ≠ '.' :: s := by
  cases h : w.exponent with
  | none =>
    rw [exponentText, h]
    exact List.cons_ne_nil '.' s |>.symm
  | some e =>
    rw [exponentText, h]
    intro heq
    have hmark : e.mark = '.' := (List.cons.inj heq).1
    rcases e.mark_eq with he | he <;> rw [he] at hmark <;> exact absurd hmark (by decide)

theorem noDigit_fractionText : Time.NoDigit (w.fractionText ++ w.exponentText) := by
  cases h : w.fraction with
  | none =>
    rw [fractionText, h]
    exact w.noDigit_exponentText
  | some ds =>
    rw [fractionText, h]
    exact .cons rfl _

theorem takeSign_text : Text.takeSign w.text =
    (w.sign.isMinus, w.whole ++ (w.fractionText ++ w.exponentText)) := by
  refine Numeral.takeSign_text w.sign fun c hc => ?_
  cases hwhole : w.whole with
  | cons d ds =>
    rw [hwhole] at hc
    obtain rfl : d = c := Option.some.inj hc
    have hd : d.isDigit = true := w.isDigit_whole d (by simp [hwhole])
    exact ⟨Time.ne_of_isDigit hd rfl, Time.ne_of_isDigit hd rfl⟩
  | nil =>
    cases hfraction : w.fraction with
    | none => exact absurd (by simp [hwhole, hfraction]) w.digits_ne_nil
    | some ds =>
      rw [hwhole, fractionText, hfraction] at hc
      obtain rfl : '.' = c := Option.some.inj hc
      exact ⟨by decide, by decide⟩

/-- What is read from a numeral. -/
def numeral : Numeral :=
  ⟨w.sign.isMinus, Text.digitsValue (w.whole ++ w.fraction.getD []),
    w.exponent.elim 0 Exponent.value - (w.fraction.getD []).length⟩

theorem exponent?_text : exponent? w.exponentText = some (w.exponent.elim 0 Exponent.value) := by
  cases h : w.exponent with
  | none =>
    rw [exponentText, h]
    rfl
  | some e =>
    rw [exponentText, h]
    exact Numeral.exponent?_text e

theorem ofText?_text : ofText? w.text = some w.numeral := by
  have hwhole := span_digits w.isDigit_whole w.noDigit_fractionText
  have hne : (w.whole.isEmpty && (w.fraction.getD []).isEmpty) = false := by
    simpa [← Bool.not_eq_true] using w.digits_ne_nil
  unfold ofText?
  rw [w.takeSign_text]
  simp only [hwhole]
  cases hfraction : w.fraction with
  | some ds =>
    rw [hfraction] at hne
    have hdigits := span_digits (fun c hc => w.isDigit_fraction c (by simpa [hfraction] using hc))
      w.noDigit_exponentText
    simp only [fractionText, hfraction, Option.elim_some, List.cons_append, hdigits]
    rw [if_neg (by simpa using hne), w.exponent?_text]
    simp [numeral, hfraction]
  | none =>
    rw [hfraction] at hne
    simp only [fractionText, hfraction, Option.elim_none, List.nil_append]
    split
    · exact absurd ‹_› (w.exponentText_ne_point _)
    · rw [if_neg (by simpa using hne), w.exponent?_text]
      simp [numeral, hfraction]

/-- Neither a point nor an exponent stands in an integer. -/
theorem exists_not_isDigit (h : w.isPlain = false) :
    ∃ c ∈ w.fractionText ++ w.exponentText, c.isDigit = false := by
  cases hfraction : w.fraction with
  | some ds => exact ⟨'.', by simp [fractionText, hfraction], rfl⟩
  | none =>
    cases hexponent : w.exponent with
    | none => simp [isPlain, hfraction, hexponent] at h
    | some e =>
      exact ⟨e.mark, by simp [exponentText, hexponent, Exponent.text], e.isDigit_mark⟩

theorem value_of_isPlain (h : w.isPlain = true) :
    w.text = w.sign.text ++ w.whole ∧ w.value = w.sign.integer (Text.digitsValue w.whole) := by
  obtain ⟨hfraction, hexponent⟩ : w.fraction = none ∧ w.exponent = none := by
    simpa [isPlain] using h
  constructor
  · simp [text, fractionText, exponentText, hfraction, hexponent]
  · rw [Sign.integer_cast, value, hfraction, hexponent]
    simp [Text.digitsValue]

/-- A text is read as an integer exactly if it is written as one and a word holds it. -/
theorem int64?_text : Text.int64? w.text = if w.isPlain = true then word? w.value else none := by
  cases h : w.isPlain with
  | true =>
    obtain ⟨htext, hvalue⟩ := w.value_of_isPlain h
    have hne : w.whole ≠ [] := by
      have hfraction : w.fraction = none := by
        simp only [isPlain, Bool.and_eq_true, Option.isNone_iff_eq_none] at h
        exact h.1
      simpa [hfraction] using w.digits_ne_nil
    rw [Text.int64?, htext, integer?_text _ w.isDigit_whole hne, hvalue, word?, integerPart_intCast]
    simp
  | false =>
    have hall : (w.whole ++ (w.fractionText ++ w.exponentText)).all Char.isDigit = false := by
      obtain ⟨c, hc, hdigit⟩ := w.exists_not_isDigit h
      exact List.all_eq_false.2 ⟨c, List.mem_append_right _ hc, by simp [hdigit]⟩
    rw [Text.int64?, Text.integer?, w.takeSign_text]
    simp [hall]

end Written

/-! ## The number that a numeral denotes -/

/-- The number that is rounded. -/
def value (n : Numeral) : ℚ :=
  signed n.negative (n.digits * 10 ^ n.exponent)

theorem digitsValue_append (s t : List Char) :
    Text.digitsValue (s ++ t) = Text.digitsValue s * 10 ^ t.length + Text.digitsValue t := by
  show Nat.ofDigitChars 10 (s ++ t) 0 =
    Nat.ofDigitChars 10 s 0 * 10 ^ t.length + Nat.ofDigitChars 10 t 0
  rw [Nat.ofDigitChars_append, Nat.ofDigitChars_eq_ofDigitChars_zero, mul_comm]

theorem Written.value_numeral (w : Written) : w.numeral.value = w.value := by
  unfold Numeral.value Written.value numeral
  simp only [digitsValue_append]
  rw [zpow_sub₀ (by norm_num), zpow_natCast]
  push_cast
  congr 1
  field_simp

/-- The number of digits tells the size up to a factor of ten. -/
theorem digits_bounds {n : ℕ} (hn : n ≠ 0) :
    (10 : ℚ) ^ (((Nat.toDigits 10 n).length : ℤ) - 1) ≤ n ∧
      (n : ℚ) < 10 ^ ((Nat.toDigits 10 n).length : ℤ) := by
  have hpos : 0 < (Nat.toDigits 10 n).length := List.length_pos_of_ne_nil Nat.toDigits_ne_nil
  constructor
  · rcases Nat.eq_or_lt_of_le (Nat.one_le_iff_ne_zero.2 hpos.ne') with hone | hmore
    · rw [← hone, Nat.cast_one, sub_self, zpow_zero]
      exact_mod_cast Nat.one_le_iff_ne_zero.2 hn
    · have hle : 10 ^ ((Nat.toDigits 10 n).length - 1) ≤ n :=
        not_lt.1 fun hlt => by
          have := (Nat.length_toDigits_le_iff (by decide) (Nat.sub_pos_of_lt hmore)).2 hlt
          omega
      rw [← Nat.cast_one, ← Nat.cast_sub hmore.le, zpow_natCast]
      exact_mod_cast hle
  · rw [zpow_natCast]
    exact_mod_cast (Nat.length_toDigits_le_iff (by decide) hpos).1 le_rfl

theorem two_pow_le_ten_pow : (2 : ℚ) ^ (1197 : ℤ) ≤ 10 ^ (399 : ℤ) :=
  calc (2 : ℚ) ^ (1197 : ℤ) = (2 ^ 9) ^ 133 := by rw [← pow_mul]; rfl
    _ ≤ (10 ^ 3) ^ 133 := by gcongr; norm_num
    _ = 10 ^ (399 : ℤ) := by rw [← pow_mul]; rfl

theorem abs_value (n : Numeral) : |n.value| = n.digits * 10 ^ n.exponent := by
  rw [value, abs_signed, abs_of_nonneg (by positivity)]

/-- The power of ten above the first digit. -/
def size (n : Numeral) : ℤ :=
  (Nat.toDigits 10 n.digits).length + n.exponent

/-- So small a number is nearer to zero than to any other one of the format. -/
theorem abs_value_le_of_size {n : Numeral} (hdigits : n.digits ≠ 0) (h : n.size < -400) :
    2 * |n.value| ≤ 2 ^ (-1074 : ℤ) :=
  calc 2 * |n.value| = 2 * (n.digits * 10 ^ n.exponent) := by rw [abs_value]
    _ ≤ 2 * (10 ^ ((Nat.toDigits 10 n.digits).length : ℤ) * 10 ^ n.exponent) := by
      gcongr
      exact (digits_bounds hdigits).2.le
    _ = 2 * 10 ^ n.size := by rw [← zpow_add₀ (by norm_num), size]
    _ ≤ 2 * 10 ^ (-399 : ℤ) := by
      gcongr
      · norm_num
      · omega
    _ ≤ 2 * 2 ^ (-1197 : ℤ) := by
      rw [zpow_neg, zpow_neg]
      gcongr
      exact two_pow_le_ten_pow
    _ = 2 ^ (-1196 : ℤ) := (zpow_one_add₀ two_ne_zero (-1197)).symm
    _ ≤ 2 ^ (-1074 : ℤ) := zpow_le_zpow_right₀ one_le_two (by norm_num)

theorem greatest_le_of_size {n : Numeral} (hdigits : n.digits ≠ 0) (h : 400 < n.size) :
    Binary64.greatest ≤ |n.value| :=
  calc Binary64.greatest ≤ 2 ^ (53 : ℕ) * 2 ^ (971 : ℤ) := by
        unfold Binary64.greatest
        gcongr
        linarith
    _ = 2 ^ (1024 : ℤ) := by rw [← zpow_natCast, ← zpow_add₀ two_ne_zero]; rfl
    _ ≤ 2 ^ (1197 : ℤ) := zpow_le_zpow_right₀ one_le_two (by norm_num)
    _ ≤ 10 ^ (399 : ℤ) := two_pow_le_ten_pow
    _ ≤ 10 ^ (n.size - 1) := zpow_le_zpow_right₀ (by norm_num) (by omega)
    _ = 10 ^ (((Nat.toDigits 10 n.digits).length : ℤ) - 1) * 10 ^ n.exponent := by
      rw [← zpow_add₀ (by norm_num), size]
      congr 1
      omega
    _ ≤ n.digits * 10 ^ n.exponent := by
      gcongr
      exact (digits_bounds hdigits).1
    _ = |n.value| := n.abs_value.symm

/-- **The number nearest to a numeral is found**, also where its power of ten is not computed. -/
theorem rounds_nearest (n : Numeral) : n.nearest.Rounds n.value := by
  have hsize : (Nat.toDigits 10 n.digits).length + n.exponent = n.size := rfl
  unfold nearest
  simp only [hsize]
  by_cases hdigits : n.digits = 0
  · rw [if_pos (by simp [hdigits])]
    refine .inl (.zero ?_)
    rw [abs_value, hdigits, Nat.cast_zero, zero_mul, mul_zero]
    positivity
  by_cases hsmall : n.size < -400
  · rw [if_pos (by simp [hsmall])]
    exact .inl (.zero (abs_value_le_of_size hdigits hsmall))
  rw [if_neg (by simp [hdigits, hsmall])]
  by_cases hlarge : 400 < n.size
  · rw [if_pos hlarge]
    exact .inr ⟨by cases n.negative <;> decide, greatest_le_of_size hdigits hlarge⟩
  rw [if_neg hlarge]
  by_cases hexponent : 0 ≤ n.exponent
  · obtain ⟨k, hk⟩ := Int.eq_ofNat_of_zero_le hexponent
    have hrounds := Binary64.rounds_ofRatio n.negative (n.digits * Nat.pow 10 k) one_ne_zero
    rw [if_pos hexponent, value, hk, Int.toNat_natCast, zpow_natCast]
    simpa using hrounds
  · obtain ⟨k, hk⟩ : ∃ k : ℕ, n.exponent = -k := ⟨(-n.exponent).toNat, by omega⟩
    have hpow : Nat.pow 10 k ≠ 0 := (Nat.pow_pos (by decide)).ne'
    have hrounds := Binary64.rounds_ofRatio n.negative n.digits hpow
    rw [if_neg hexponent, value, hk, neg_neg, Int.toNat_natCast, zpow_neg, zpow_natCast,
      ← div_eq_mul_inv]
    simpa using hrounds

end Numeral

end Scim
