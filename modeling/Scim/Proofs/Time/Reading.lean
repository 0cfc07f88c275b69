import Scim.Time.Grammar

/-!
# Reading what is written

The parts of a date-time text are read back: numbers with zeros before them (`readNumber_padded`),
years with their sign (`readYear_text`), fractions (`readFraction_digits`) and offsets
(`Shift.readSignedOffset_text`). `readNumber_run` says what a run of digits is read as, whatever
follows it.
-/

set_option autoImplicit false

namespace Scim.Time

/-! ## Digits -/

theorem isSpace_of_isDigit {c : Char} (h : c.isDigit = true) : Text.isSpace c = false := by
  obtain ⟨low, high⟩ := Char.isDigit_iff_toNat.1 h
  have low : 48 ≤ c.toNat := low
  have high : c.toNat ≤ 57 := high
  simp only [Text.isSpace, Bool.or_eq_false_iff, Bool.and_eq_false_iff, decide_eq_false_iff_not,
    beq_eq_false_iff_ne]
  omega

/-- A digit is none of the marks between the parts of a text. -/
theorem ne_of_isDigit {c d : Char} (h : c.isDigit = true) (hd : d.isDigit = false) : c ≠ d := by
  rintro rfl
  rw [h] at hd
  cases hd

/-- No digit stands in front. -/
def NoDigit (s : List Char) : Prop :=
  ∀ c ∈ s.head?, c.isDigit = false

theorem NoDigit.cons {c : Char} (h : c.isDigit = false) (s : List Char) : NoDigit (c :: s) := by
  intro d hd
  obtain rfl : c = d := Option.some.inj hd
  exact h

theorem NoDigit.takeWhile {s : List Char} (h : NoDigit s) : s.takeWhile Char.isDigit = [] := by
  cases s with
  | nil => rfl
  | cons c s => rw [List.takeWhile_cons, h c rfl]; rfl

theorem NoDigit.dropWhile {s : List Char} (h : NoDigit s) : s.dropWhile Char.isDigit = s := by
  cases s with
  | nil => rfl
  | cons c s => rw [List.dropWhile_cons, h c rfl]; rfl

/-! ## Numbers -/

theorem le_octets (s : List Char) : s.length ≤ octets s := by
  induction s with
  | nil => exact Nat.le_refl _
  | cons c s ih =>
    have := Char.utf8Size_pos c
    show s.length + 1 ≤ c.utf8Size + octets s
    omega

/-- A run of digits is read up to the first character that is none, or up to its greatest length. -/
theorem readNumber_run {least most : Nat} {digits rest : List Char}
    (hdigits : ∀ c ∈ digits, c.isDigit = true) (hleast : least ≤ digits.length)
    (hmost : digits.length ≤ most) (hend : digits.length = most ∨ NoDigit rest) :
    readNumber least most (digits ++ rest) = .ok (Text.digitsValue digits, rest) := by
  have hrun : ((digits ++ rest).take most).takeWhile Char.isDigit = digits := by
    rw [List.take_append, List.take_of_length_le hmost, List.takeWhile_append_of_pos hdigits]
    have : (rest.take (most - digits.length)).takeWhile Char.isDigit = [] := by
      rcases hend with he | hn
      · rw [he, Nat.sub_self, List.take_zero]
        rfl
      · refine NoDigit.takeWhile fun c hc => hn c ?_
        cases rest with
        | nil => simp at hc
        | cons d rest =>
          cases hk : most - digits.length with
          | zero => simp [hk] at hc
          | succ k => simpa [hk] using hc
    rw [this, List.append_nil]
  have hsize : ¬ octets ((digits ++ rest).take least) < least := by
    have hle := le_octets ((digits ++ rest).take least)
    have hlen : ((digits ++ rest).take least).length = least := by
      rw [List.length_take, List.length_append]
      omega
    omega
  unfold readNumber
  simp only [hrun]
  rw [if_neg hsize, if_neg (by omega), List.drop_left]

theorem readNumber_noDigit {least most : Nat} {s : List Char} (hleast : 0 < least) (h : NoDigit s) :
    ∃ fault, readNumber least most s = .error fault := by
  have hrun : (s.take most).takeWhile Char.isDigit = [] := by
    refine NoDigit.takeWhile fun c hc => h c ?_
    cases s with
    | nil => simp at hc
    | cons d s =>
      cases most with
      | zero => simp at hc
      | succ k => simpa using hc
  unfold readNumber
  simp only [hrun]
  split
  · exact ⟨_, rfl⟩
  · rw [if_pos (by simpa using hleast)]
    exact ⟨_, rfl⟩

/-! ## Padded numbers -/

section
variable {width n : Nat}

theorem isDigit_of_mem_padded {c : Char} (h : c ∈ DateTime.padded width n) : c.isDigit = true := by
  rcases List.mem_append.1 h with h | h
  · rw [List.eq_of_mem_replicate h]
    rfl
  · exact Nat.isDigit_of_mem_toDigits (by decide) (by decide) h

theorem digitsValue_padded : Text.digitsValue (DateTime.padded width n) = n := by
  show Nat.ofDigitChars 10 (DateTime.padded width n) 0 = n
  rw [DateTime.padded, Nat.ofDigitChars_append, Nat.ofDigitChars_replicate_zero, Nat.mul_zero,
    Nat.ofDigitChars_ten_toDigits]

theorem le_length_padded : width ≤ (DateTime.padded width n).length := by
  simp only [DateTime.padded, List.length_append, List.length_replicate]
  omega

theorem length_padded (hwidth : 0 < width) (hn : n < Nat.pow 10 width) :
    (DateTime.padded width n).length = width := by
  have := (Nat.length_toDigits_le_iff (by decide) hwidth).2 hn
  simp only [DateTime.padded, List.length_append, List.length_replicate]
  omega

theorem padded_ne_nil : DateTime.padded width n ≠ [] := by
  intro h
  exact Nat.toDigits_ne_nil (List.append_eq_nil_iff.1 h).2

theorem exists_padded_cons : ∃ c s, DateTime.padded width n = c :: s ∧ c.isDigit = true := by
  obtain ⟨c, s, h⟩ := List.exists_cons_of_ne_nil (@padded_ne_nil width n)
  exact ⟨c, s, h, isDigit_of_mem_padded (h ▸ List.mem_cons_self)⟩

theorem readNumber_padded {least most : Nat} {rest : List Char} (hwidth : 0 < width)
    (hn : n < Nat.pow 10 width) (hleast : least ≤ width) (hmost : width ≤ most)
    (hend : width = most ∨ NoDigit rest) :
    readNumber least most (DateTime.padded width n ++ rest) = .ok (n, rest) := by
  have hlen := length_padded hwidth hn
  rw [readNumber_run (fun c hc => isDigit_of_mem_padded hc) (by omega) (by omega) (by rwa [hlen]),
    digitsValue_padded]

theorem trimStart_padded (rest : List Char) :
    Text.trimStart (DateTime.padded width n ++ rest) = DateTime.padded width n ++ rest := by
  obtain ⟨c, s, h, hc⟩ := @exists_padded_cons width n
  rw [h, List.cons_append, Text.trimStart, List.dropWhile_cons, isSpace_of_isDigit hc]
  rfl

end

/-! ## Years -/

/-- A year with a sign may have any number of digits. -/
theorem readYear_text (year : Int) {rest : List Char} (h : NoDigit rest) :
    readYear (DateTime.yearText year ++ rest) = .ok (year, rest) := by
  unfold DateTime.yearText
  split
  · rename_i hrange
    simp only [Bool.and_eq_true, decide_eq_true_eq] at hrange
    have hread : readNumber 1 4 (DateTime.padded 4 year.toNat ++ rest) = .ok (year.toNat, rest) :=
      readNumber_padded (by decide) (show year.toNat < 10000 by omega) (by decide) (by decide)
        (.inl rfl)
    obtain ⟨c, s, hc, hdigit⟩ := @exists_padded_cons 4 year.toNat
    have hminus := ne_of_isDigit hdigit (show '-'.isDigit = false from rfl)
    have hplus := ne_of_isDigit hdigit (show '+'.isDigit = false from rfl)
    rw [hc, List.cons_append] at hread ⊢
    unfold readYear
    split
    · rename_i he
      exact absurd (List.cons.inj he).1 hminus
    · rename_i he
      exact absurd (List.cons.inj he).1 hplus
    · rw [hread]
      have : ((year.toNat : Nat) : Int) = year := by omega
      simp [bind, Except.bind, this]
  · rename_i hrange
    have hread : readNumber 1 (DateTime.padded 4 year.natAbs ++ rest).length
        (DateTime.padded 4 year.natAbs ++ rest) = .ok (year.natAbs, rest) := by
      have hle := @le_length_padded 4 year.natAbs
      rw [readNumber_run (fun c hc => isDigit_of_mem_padded hc) (by omega) (by simp) (.inr h),
        digitsValue_padded]
    split
    · have : -((year.natAbs : Nat) : Int) = year := by omega
      simp only [List.cons_append, readYear, hread, bind, Except.bind, this]
    · simp only [Bool.and_eq_true, decide_eq_true_eq, not_and] at hrange
      have : ((year.natAbs : Nat) : Int) = year := by omega
      simp only [List.cons_append, readYear, hread, bind, Except.bind, this]

/-! ## Fractions -/

/-- A digit string with zeros behind it. -/
theorem digitsValue_zeros (digits : List Char) (places : Nat) :
    Text.digitsValue (digits ++ List.replicate places '0') =
      Text.digitsValue digits * Nat.pow 10 places := by
  show Nat.ofDigitChars 10 _ 0 = Nat.ofDigitChars 10 _ 0 * _
  rw [Nat.ofDigitChars_append, Nat.ofDigitChars_replicate_zero, Nat.mul_comm]
  rfl

/-- Nine figures count, as if zeros stood behind the last. -/
theorem readFraction_digits {digits rest : List Char} (hdigits : ∀ c ∈ digits, c.isDigit = true)
    (hne : digits ≠ []) (hrest : NoDigit rest) : readFraction (digits ++ rest) =
      .ok (Text.digitsValue ((digits ++ List.replicate 9 '0').take 9), rest) := by
  have hpos := List.length_pos_iff.2 hne
  have hlength : (digits.take 9).length = min 9 digits.length := List.length_take
  have hsplit : digits ++ rest = digits.take 9 ++ (digits.drop 9 ++ rest) := by
    rw [← List.append_assoc, List.take_append_drop]
  -- the number ends at its ninth digit; those behind are skipped later
  have hread : readNumber 1 9 (digits ++ rest) =
      .ok (Text.digitsValue (digits.take 9), digits.drop 9 ++ rest) := by
    rw [hsplit]
    refine readNumber_run (fun c hc => hdigits c (List.mem_of_mem_take hc)) (by omega) (by omega) ?_
    rcases Nat.lt_or_ge digits.length 9 with hlt | hge
    · rw [List.drop_of_length_le (Nat.le_of_lt hlt)]
      exact .inr hrest
    · exact .inl (by omega)
  have hplaces : (digits ++ rest).length - (digits.drop 9 ++ rest).length = min 9 digits.length := by
    simp only [List.length_append, List.length_drop]
    omega
  have hend : (digits.drop 9 ++ rest).dropWhile Char.isDigit = rest := by
    rw [List.dropWhile_append_of_pos fun c hc => hdigits c (List.mem_of_mem_drop hc), hrest.dropWhile]
  have hfilled : (digits ++ List.replicate 9 '0').take 9 =
      digits.take 9 ++ List.replicate (9 - min 9 digits.length) '0' := by
    rw [List.take_append, List.take_replicate]
    congr 2
    omega
  unfold readFraction
  simp only [hread, bind, Except.bind, hplaces, hend, hfilled, digitsValue_zeros]

theorem readFraction_padded {width n : Nat} {rest : List Char} (hwidth : 0 < width) (hle : width ≤ 9)
    (hn : n < Nat.pow 10 width) (h : NoDigit rest) :
    readFraction (DateTime.padded width n ++ rest) = .ok (n * Nat.pow 10 (9 - width), rest) := by
  have hlen := length_padded hwidth hn
  have hzeros : min (9 - width) 9 = 9 - width := by omega
  rw [readFraction_digits (fun c => isDigit_of_mem_padded) padded_ne_nil h, List.take_append, hlen,
    List.take_of_length_le (by omega), List.take_replicate, hzeros, digitsValue_zeros,
    digitsValue_padded]

theorem read_fraction_none {r : Reading} {s : List Char} (h : s.head? ≠ some '.') :
    Item.fraction.read r s = .ok (r, s) := by
  simp only [Item.read]
  split
  · exact absurd rfl h
  · rfl

/-- The places that are left out are zero. -/
theorem read_fraction {r : Reading} {nanos : Nat} {rest : List Char} (hr : r.nanos = 0)
    (hn : nanos < 1000000000) (h : NoDigit rest) (hdot : rest.head? ≠ some '.') :
    Item.fraction.read r (DateTime.fractionText nanos ++ rest) = .ok ({ r with nanos }, rest) := by
  have digits {width n : Nat} (hwidth : 0 < width) (hle : width ≤ 9) (hlt : n < 10 ^ width)
      (he : n * 10 ^ (9 - width) = nanos) :
      Item.fraction.read r ('.' :: DateTime.padded width n ++ rest) =
        .ok ({ r with nanos }, rest) := by
    have he : n * Nat.pow 10 (9 - width) = nanos := he
    simp only [Item.read, List.cons_append, readFraction_padded hwidth hle hlt h, bind, Except.bind,
      he]
  unfold DateTime.fractionText
  split
  · rename_i hzero
    obtain rfl : nanos = 0 := hzero
    rw [List.nil_append, read_fraction_none hdot, ← hr]
  split
  · exact digits (by decide) (by decide) (by omega) (by omega)
  split
  · exact digits (by decide) (by decide) (by omega) (by omega)
  · exact digits (by decide) (by decide) (by omega) (by omega)

/-! ## Offsets -/

theorem padded_two {n : Nat} (h : n < 100) :
    DateTime.padded 2 n = [Nat.digitChar (n / 10), Nat.digitChar (n % 10)] := by
  revert n
  decide

theorem readTwo_padded (top : Char) {n : Nat} (hn : n < 100) (rest : List Char) :
    readTwo top (DateTime.padded 2 n ++ rest) =
      if Nat.digitChar (n / 10) ≤ top then .ok (n, rest) else .error .outOfRange := by
  have hvalue := @digitsValue_padded 2 n
  have hdigit {c : Char} := @isDigit_of_mem_padded 2 n c
  rw [padded_two hn] at hvalue hdigit ⊢
  simp only [List.cons_append, List.nil_append, readTwo]
  rw [hdigit (by simp), hdigit (by simp), hvalue]
  rfl

theorem readColon_minutes {style : OffsetStyle} (n : Nat) (rest : List Char) :
    readColon style (':' :: (DateTime.padded 2 n ++ rest)) = .ok (DateTime.padded 2 n ++ rest) := by
  obtain ⟨c, s, hc, hdigit⟩ := @exists_padded_cons 2 n
  have hcolon : (c == ':') = false := beq_false_of_ne (ne_of_isDigit hdigit rfl)
  rw [hc]
  cases style <;> simp [readColon, isSpace_of_isDigit hdigit, hcolon]

/-- An offset in hours and minutes; any figures may stand there. -/
structure Shift where
  west : Bool
  hours : Fin 100
  minutes : Fin 100

namespace Shift

variable (o : Shift)

def text (o : Shift) : List Char :=
  (if o.west then '-' else '+') :: DateTime.padded 2 o.hours ++ ':' :: DateTime.padded 2 o.minutes

/-- Seconds east of UTC. -/
def seconds (o : Shift) : Int :=
  let size : Int := o.hours * 3600 + o.minutes * 60
  if o.west then -size else size

/-- It has a sign in front. -/
theorem text_eq_cons : ∃ sign rest, o.text = sign :: rest ∧ (sign = '-' ∨ sign = '+') := by
  refine ⟨_, _, rfl, ?_⟩
  cases o.west with
  | false => exact .inr rfl
  | true => exact .inl rfl

theorem trimStart_text : Text.trimStart o.text = o.text := by
  obtain ⟨sign, rest, htext, rfl | rfl⟩ := o.text_eq_cons <;> rw [htext] <;> rfl

theorem noDigit_text : NoDigit o.text ∧ o.text.head? ≠ some '.' := by
  obtain ⟨sign, rest, htext, rfl | rfl⟩ := o.text_eq_cons <;> rw [htext]
  · exact ⟨.cons rfl _, by simp⟩
  · exact ⟨.cons rfl _, by simp⟩

/-- Up to fifty-nine minutes are read. -/
theorem readSignedOffset_text (style : OffsetStyle) : readSignedOffset style o.text =
    if o.minutes.val ≤ 59 then .ok (o.seconds, []) else .error .outOfRange := by
  have hsign : readSign o.text = .ok (o.west, DateTime.padded 2 o.hours ++
      ':' :: (DateTime.padded 2 o.minutes ++ [])) := by
    rw [text, List.append_nil]
    cases o.west <;> rfl
  have hnine : ∀ n < 100, Nat.digitChar (n / 10) ≤ '9' := by decide
  have hsixty : ∀ n < 100, Nat.digitChar (n / 10) ≤ '5' ↔ n ≤ 59 := by decide
  simp only [readSignedOffset, hsign, bind, Except.bind, readTwo_padded _ o.hours.isLt,
    if_pos (hnine o.hours o.hours.isLt), readColon_minutes, readTwo_padded _ o.minutes.isLt,
    hsixty o.minutes o.minutes.isLt]
  by_cases h : o.minutes.val ≤ 59
  · simp only [if_pos h, seconds]
    rfl
  · simp only [if_neg h]

theorem read_numeric (r : Reading) : (Item.offset .numeric).read r o.text =
    if o.minutes.val ≤ 59 then .ok ({ r with offset := o.seconds }, []) else .error .outOfRange := by
  simp only [Item.read, readOffset, o.trimStart_text, o.readSignedOffset_text, bind, Except.bind]
  by_cases h : o.minutes.val ≤ 59
  · simp only [if_pos h]
  · simp only [if_neg h]

/-- Only the strict style keeps to the hours of a day. -/
theorem read_strict (r : Reading) : (Item.offset .strict).read r o.text =
    if o.hours.val ≤ 23 ∧ o.minutes.val ≤ 59 then .ok ({ r with offset := o.seconds }, [])
    else .error .outOfRange := by
  have hsigned := o.readSignedOffset_text .strict
  have hday (h : o.minutes.val ≤ 59) :
      (-86340 ≤ o.seconds ∧ o.seconds ≤ 86340) ↔ o.hours.val ≤ 23 := by
    simp only [seconds]
    cases o.west <;> simp only [Bool.false_eq_true, if_true, if_false] <;> omega
  have hstrict : readOffset .strict o.text = (readSignedOffset .strict o.text).bind fun x =>
      if -86340 ≤ x.1 && x.1 ≤ 86340 then .ok x else .error .outOfRange := by
    obtain ⟨sign, rest, htext, rfl | rfl⟩ := o.text_eq_cons <;> rw [htext] <;> rfl
  simp only [Item.read, hstrict, hsigned, bind, Except.bind]
  by_cases hm : o.minutes.val ≤ 59
  · simp only [hm, if_true, and_true, ← Bool.decide_and, hday hm, decide_eq_true_eq]
    by_cases hh : o.hours.val ≤ 23
    · simp only [if_pos hh]
    · simp only [if_neg hh]
  · simp only [hm, if_false, and_false]

end Shift

/-- An offset in whole minutes is written in hours and minutes. -/
theorem exists_shift {offset : Int} (hminutes : offset % 60 = 0) (hwest : -86400 < offset)
    (heast : offset < 86400) : ∃ o : Shift, DateTime.offsetText offset = o.text ∧
      o.seconds = offset ∧ o.hours.val ≤ 23 ∧ o.minutes.val ≤ 59 := by
  obtain ⟨minutes, hm⟩ : ∃ minutes, minutes = (offset.natAbs + 30) / 60 := ⟨_, rfl⟩
  refine ⟨⟨offset < 0, ⟨minutes / 60, by omega⟩, ⟨minutes % 60, by omega⟩⟩, ?_, ?_, ?_, ?_⟩
  · simp only [DateTime.offsetText, Shift.text, ← hm, decide_eq_true_eq]
  · simp only [Shift.seconds, decide_eq_true_eq]
    split <;> omega
  · simp only
    omega
  · simp only
    omega

end Scim.Time
