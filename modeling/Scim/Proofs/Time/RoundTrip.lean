import Scim.Proofs.Time.Calendar
import Scim.Proofs.Time.Forms

/-!
# Date-times and their text

The text of a date-time that was read from a text denotes it again (`DateTime.ofText?_text`). What is
read has every part in its range and its offset in whole minutes (`Reading.Sane`), whatever the form
(`Sane.readForm`); its date-time is written part by part as it was read (`text_of_resolve`), and that
text is read in the first form or, where its year has a sign, in the second (`readForm_text`).
-/

set_option autoImplicit false

namespace Scim.Time

/-! ## What can be read -/

/-- Every part is in its range, and the offset is one of whole minutes. -/
structure Reading.Sane (r : Reading) : Prop where
  month : 1 ≤ r.month ∧ r.month ≤ 12
  day : 1 ≤ r.day ∧ r.day ≤ 31
  hour : r.hour ≤ 23
  minute : r.minute ≤ 59
  second : r.second ≤ 60
  nanos : r.nanos < 1000000000
  offset : r.offset % 60 = 0

theorem digitsValue_lt {digits : List Char} (h : ∀ c ∈ digits, c.isDigit = true) :
    Text.digitsValue digits < Nat.pow 10 digits.length := by
  induction digits with
  | nil => exact Nat.one_pos
  | cons c digits ih =>
    have hrest : Nat.ofDigitChars 10 digits 0 < 10 ^ digits.length :=
      ih fun d hd => h d (List.mem_cons_of_mem _ hd)
    obtain ⟨low, high⟩ := Char.isDigit_iff_toNat.1 (h c List.mem_cons_self)
    have high : c.toNat ≤ 57 := high
    have hc : c.toNat - '0'.toNat ≤ 9 := by
      show c.toNat - 48 ≤ 9
      omega
    have hmul := Nat.mul_le_mul_left (10 ^ digits.length) hc
    show Nat.ofDigitChars 10 (c :: digits) 0 < 10 ^ (c :: digits).length
    rw [Nat.ofDigitChars_cons, Nat.ofDigitChars_eq_ofDigitChars_zero, Nat.mul_zero, Nat.zero_add,
      List.length_cons, Nat.pow_succ]
    omega

theorem readNumber_ok {least most n : Nat} {s rest : List Char}
    (h : readNumber least most s = .ok (n, rest)) :
    ∃ k ≤ most, k ≤ s.length ∧ n < Nat.pow 10 k ∧ rest = s.drop k := by
  unfold readNumber at h
  simp only at h
  split at h
  · cases h
  split at h
  · cases h
  · cases h
    have hlen : ((s.take most).takeWhile Char.isDigit).length ≤ min most s.length := by
      rw [← List.length_take]
      exact (List.takeWhile_sublist _).length_le
    exact ⟨_, by omega, by omega, digitsValue_lt (List.all_eq_true.1 List.all_takeWhile), rfl⟩

theorem readFraction_lt {nanos : Nat} {s rest : List Char} (h : readFraction s = .ok (nanos, rest)) :
    nanos < 1000000000 := by
  unfold readFraction at h
  cases hread : readNumber 1 9 s with
  | error fault => simp [hread, bind, Except.bind] at h
  | ok result =>
    obtain ⟨n, rest'⟩ := result
    obtain ⟨k, hk, hlen, hn, rfl⟩ := readNumber_ok hread
    simp only [hread, bind, Except.bind, Except.ok.injEq, Prod.mk.injEq] at h
    have hplaces : s.length - (s.drop k).length = k := by
      rw [List.length_drop]
      omega
    rw [hplaces] at h
    rw [← h.1]
    calc n * 10 ^ (9 - k) < 10 ^ k * 10 ^ (9 - k) :=
          Nat.mul_lt_mul_of_pos_right hn (Nat.pow_pos (by decide))
      _ = 1000000000 := by rw [← Nat.pow_add, Nat.add_sub_cancel' hk]

theorem readOffset_minutes {style : OffsetStyle} {offset : Int} {s rest : List Char}
    (h : readOffset style s = .ok (offset, rest)) : offset % 60 = 0 := by
  have signed {s : List Char} (h : readSignedOffset style s = .ok (offset, rest)) :
      offset % 60 = 0 := by
    simp only [readSignedOffset, bind, Except.bind] at h
    repeat' split at h
    all_goals cases h
    all_goals omega
  unfold readOffset at h
  cases style with
  | numeric => exact signed h
  | named =>
    simp only at h
    split at h
    · cases h
      rfl
    · split at h
      · cases h
        rfl
      · cases h
        rfl
      · exact signed h
  | strict =>
    simp only [bind, Except.bind] at h
    split at h
    · cases h
    · rename_i result hz
      split at h
      · cases h
        split at hz
        · cases hz
          rfl
        · cases hz
          rfl
        · exact signed hz
      · cases h

namespace Reading.Sane

theorem empty : Reading.empty.Sane :=
  ⟨by decide, by decide, by decide, by decide, by decide, by decide, by decide⟩

theorem keep {r r' : Reading} {part : Part} {n : Int} (h : r.Sane) (hkeep : r.keep part n = .ok r') :
    r'.Sane := by
  obtain ⟨hm, hd, hh, hmi, hs, hn, ho⟩ := h
  cases part <;> simp only [Reading.keep] at hkeep <;> split at hkeep <;> cases hkeep <;>
    rename_i hrange <;> simp only [Bool.and_eq_true, decide_eq_true_eq] at hrange
  case year => exact ⟨hm, hd, hh, hmi, hs, hn, ho⟩
  case month => exact ⟨by simp only; omega, hd, hh, hmi, hs, hn, ho⟩
  case day => exact ⟨hm, by simp only; omega, hh, hmi, hs, hn, ho⟩
  case hour => exact ⟨hm, hd, by simp only; omega, hmi, hs, hn, ho⟩
  case minute => exact ⟨hm, hd, hh, by simp only; omega, hs, hn, ho⟩
  case second => exact ⟨hm, hd, hh, hmi, by simp only; omega, hn, ho⟩

theorem read {item : Item} {r r' : Reading} {s s' : List Char} (h : r.Sane)
    (hread : item.read r s = .ok (r', s')) : r'.Sane := by
  have part {α : Type} {number : Except Fault (α × List Char)} {p : Part} {value : α → Int}
      (hread : number.bind (fun found => (r.keep p (value found.1)).bind fun r =>
        .ok (r, found.2)) = .ok (r', s')) : r'.Sane := by
    cases number with
    | error fault => cases hread
    | ok found =>
      cases hkeep : r.keep p (value found.1) with
      | error fault => simp [Except.bind, hkeep] at hread
      | ok kept =>
        simp only [Except.bind, hkeep, Except.ok.injEq, Prod.mk.injEq] at hread
        exact hread.1 ▸ h.keep hkeep
  cases item with
  | fixed p width => exact part hread
  | free p =>
    cases p with
    | year => exact @part _ _ _ id hread
    | _ => exact part hread
  | mark c =>
    simp only [Item.read] at hread
    split at hread
    · cases hread
    · split at hread <;> cases hread
      exact h
  | divider =>
    simp only [Item.read] at hread
    split at hread
    · cases hread
    · split at hread <;> cases hread
      exact h
  | blanks =>
    cases hread
    exact h
  | fraction =>
    simp only [Item.read] at hread
    split at hread
    · rename_i s
      cases hfrac : readFraction s with
      | error fault => simp [hfrac, bind, Except.bind] at hread
      | ok result =>
        simp only [hfrac, bind, Except.bind, Except.ok.injEq, Prod.mk.injEq] at hread
        obtain ⟨rfl, -⟩ := hread
        exact ⟨h.month, h.day, h.hour, h.minute, h.second, readFraction_lt hfrac, h.offset⟩
    · cases hread
      exact h
  | offset style =>
    simp only [Item.read] at hread
    cases hoff : readOffset style s with
    | error fault => simp [hoff, bind, Except.bind] at hread
    | ok result =>
      simp only [hoff, bind, Except.bind, Except.ok.injEq, Prod.mk.injEq] at hread
      obtain ⟨rfl, -⟩ := hread
      exact ⟨h.month, h.day, h.hour, h.minute, h.second, h.nanos, readOffset_minutes hoff⟩

theorem readItems {items : List Item} {r r' : Reading} {s s' : List Char} (h : r.Sane)
    (hread : Time.readItems items r s = .ok (r', s')) : r'.Sane := by
  induction items generalizing r s with
  | nil =>
    cases hread
    exact h
  | cons item items ih =>
    rw [readItems_cons] at hread
    cases hitem : item.read r s with
    | error fault => simp [hitem, Except.bind] at hread
    | ok result =>
      simp only [hitem, Except.bind] at hread
      exact ih (h.read hitem) hread

/-- Every form reads parts in their ranges. -/
theorem readForm {form : List Item} {s : List Char} {t : DateTime}
    (h : Time.readForm form s = .ok t) : ∃ r : Reading, r.Sane ∧ r.resolve = .ok t := by
  rw [readForm_eq, readRest] at h
  cases hitems : Time.readItems form Reading.empty s with
  | error fault => simp [hitems, Except.bind] at h
  | ok result =>
    simp only [hitems, Except.bind] at h
    split at h
    · exact ⟨result.1, readItems empty hitems, h⟩
    · cases h

theorem isShort {r : Reading} (h : r.Sane) : r.IsShort := by
  obtain ⟨hm, hd, hh, hmi, hs, -, -⟩ := h
  simp only [Reading.IsShort, List.mem_cons, List.not_mem_nil, or_false]
  omega

theorem hasDate_and_hasTime {r : Reading} (h : r.Sane) : (r.hasDate && r.hasTime) = true := by
  obtain ⟨hm, hd, hh, hmi, hs, -, -⟩ := h
  simp only [Reading.hasDate, Reading.hasTime, Part.admits, Bool.and_eq_true, decide_eq_true_eq]
  exact ⟨⟨hm, hd⟩, hh, hmi, hs⟩

end Reading.Sane

/-! ## The date-time that is read -/

theorem DateTime.ofParts?_some {seconds offset : Int} {nanos : Nat} {t : DateTime}
    (h : ofParts? seconds nanos offset = some t) :
    t.instant.seconds = seconds ∧ t.instant.nanos = nanos ∧ t.offset = offset := by
  unfold ofParts? Instant.ofParts? at h
  by_cases hin : inRange seconds = true ∧ isPart seconds nanos = true
  · rw [dif_pos hin] at h
    simp only at h
    split at h
    · cases h
      exact ⟨rfl, rfl, rfl⟩
    · cases h
  · rw [dif_neg hin] at h
    cases h

theorem DateTime.exists_ofParts? {seconds offset : Int} {nanos : Nat}
    (hseconds : inRange seconds = true) (hnanos : isPart seconds nanos = true)
    (hoffset : -86400 < offset ∧ offset < 86400) : ∃ t, ofParts? seconds nanos offset = some t := by
  refine ⟨⟨⟨seconds, nanos, hseconds, hnanos⟩, offset, hoffset⟩, ?_⟩
  simp only [ofParts?, Instant.ofParts?, hseconds, hnanos, and_self, dite_true, hoffset]

namespace Reading

/-- The parts in the extended format. -/
def text (r : Reading) : List Char :=
  r.clockText 'T' (DateTime.fractionText r.nanos) ++ DateTime.offsetText r.offset

theorem text_eq_append (r : Reading) : ∃ rest, r.text = DateTime.yearText r.year ++ rest := by
  simp only [text, clockText, DateTime.dateText, List.append_assoc]
  exact ⟨_, rfl⟩

/-- The second of the day, with a leap second at the one before it. -/
def secondOfDay (r : Reading) : Nat :=
  r.hour * 3600 + r.minute * 60 + if r.second = 60 then 59 else r.second

theorem resolve_ok {r : Reading} {t : DateTime} (h : r.resolve = .ok t) :
    Date.isValid ⟨r.year, r.month, r.day⟩ = true ∧ (-262143 ≤ r.year ∧ r.year ≤ 262142) ∧
      (-86400 < r.offset ∧ r.offset < 86400) ∧
      t.instant.seconds =
        Date.toDays ⟨r.year, r.month, r.day⟩ * 86400 + r.secondOfDay - r.offset ∧
      t.instant.nanos = (if r.second = 60 then r.nanos + 1000000000 else r.nanos) ∧
      t.offset = r.offset := by
  unfold resolve at h
  simp only at h
  split at h
  · cases h
  rename_i hdate
  split at h
  · cases h
  rename_i hoffset
  simp only [Bool.or_eq_true, Bool.not_eq_true', decide_eq_true_eq, not_or, Bool.not_eq_false,
    Int.not_lt] at hdate
  simp only [Bool.or_eq_true, decide_eq_true_eq, not_or, Int.not_le] at hoffset
  split at h
  · rename_i t' hparts
    cases h
    obtain ⟨hseconds, hnanos, hoffset'⟩ := DateTime.ofParts?_some hparts
    exact ⟨hdate.1.1, ⟨hdate.1.2, hdate.2⟩, hoffset, by simpa [secondOfDay] using hseconds,
      by simpa using hnanos, hoffset'⟩
  · cases h

/-- A date of a year with four figures gives a date-time. -/
theorem exists_resolve {r : Reading} (hr : r.Sane)
    (hdate : Date.isValid ⟨r.year, r.month, r.day⟩ = true) (hyear : 0 ≤ r.year ∧ r.year ≤ 9999)
    (hoffset : -86400 < r.offset ∧ r.offset < 86400) : ∃ t, r.resolve = .ok t := by
  obtain ⟨hlow, hhigh⟩ := Date.toDays_bounds hdate hyear
  obtain ⟨-, -, hhour, hminute, hsecond, hnanos, hminutes⟩ := hr
  have hdays : (!Date.isValid ⟨r.year, r.month, r.day⟩ || decide (r.year < -262143) ||
      decide (262142 < r.year)) = false := by
    simp only [hdate, Bool.not_true, Bool.false_or, Bool.or_eq_false_iff, decide_eq_false_iff_not]
    omega
  have hshift : (decide (r.offset ≤ -86400) || decide (86400 ≤ r.offset)) = false := by
    simp only [Bool.or_eq_false_iff, decide_eq_false_iff_not]
    omega
  obtain ⟨t, ht⟩ : ∃ t, DateTime.ofParts? (Date.toDays ⟨r.year, r.month, r.day⟩ * 86400 +
      (r.hour * 3600 + r.minute * 60 + (if (r.second == 60) = true then 59 else r.second) : Nat) -
        r.offset) (if (r.second == 60) = true then r.nanos + 1000000000 else r.nanos) r.offset =
      some t := by
    refine DateTime.exists_ofParts? ?_ ?_ hoffset
    · simp only [inRange, Bool.and_eq_true, decide_eq_true_eq]
      split <;> omega
    · simp only [isPart, Bool.or_eq_true, Bool.and_eq_true, decide_eq_true_eq, beq_iff_eq]
      split <;> omega
  refine ⟨t, ?_⟩
  simp only [resolve, hdays, hshift, ht, Bool.false_eq_true, if_false]

/-- A date-time is written as it was read. -/
theorem text_of_resolve {r : Reading} (hr : r.Sane) {t : DateTime} (h : r.resolve = .ok t) :
    t.text = r.text := by
  obtain ⟨hvalid, -, -, hseconds, hnanos, hoffset⟩ := resolve_ok h
  obtain ⟨-, -, hh, hm, hs, hn, -⟩ := hr
  have hlt : r.secondOfDay < 86400 := by
    unfold secondOfDay
    split <;> omega
  have hlocal : t.instant.seconds + r.offset =
      Date.toDays ⟨r.year, r.month, r.day⟩ * 86400 + r.secondOfDay := by omega
  have hday : (Date.toDays ⟨r.year, r.month, r.day⟩ * 86400 + (r.secondOfDay : Int)) / 86400 =
      Date.toDays ⟨r.year, r.month, r.day⟩ := by omega
  have hof : ((Date.toDays ⟨r.year, r.month, r.day⟩ * 86400 + (r.secondOfDay : Int)) % 86400).toNat =
      r.secondOfDay := by omega
  have hhour : r.secondOfDay / 3600 = r.hour := by
    unfold secondOfDay
    split <;> omega
  have hminute : r.secondOfDay / 60 % 60 = r.minute := by
    unfold secondOfDay
    split <;> omega
  have hsecond : r.secondOfDay % 60 + t.instant.nanos / 1000000000 = r.second := by
    rw [hnanos]
    unfold secondOfDay
    split <;> omega
  have hfraction : t.instant.nanos % 1000000000 = r.nanos := by
    rw [hnanos]
    split <;> omega
  unfold DateTime.text text clockText timeText
  simp only [hoffset, hlocal, hday, hof, hhour, hminute, hsecond, hfraction,
    Date.ofDays_toDays hvalid, List.append_assoc, List.cons_append]

end Reading

/-! ## Reading the text again -/

theorem internetForm_eq : internetForm =
    dateAndTime (.fixed .year 4) (.fixed · 2) .divider ++ [.offset .strict] := rfl

theorem numericForm_eq : freeDate ++ .mark 'T' :: freeTime ++ [.offset .numeric] =
    dateAndTime (.free .year) .free (.mark 'T') ++ [.offset .numeric] := rfl

/-- A form that takes figures as they are written reads the text. -/
theorem readForm_text {r : Reading} (hr : r.Sane) {o : Shift}
    (ho : DateTime.offsetText r.offset = o.text) {year between : Item} {part : Part → Item}
    {style : OffsetStyle} (hwritten : AsWritten r.year year part) (hbetween : between.Passes 'T')
    (hoffset : ∀ r' : Reading,
      (Item.offset style).read r' o.text = .ok ({ r' with offset := r.offset }, [])) :
    readForm (dateAndTime year part between ++ [.offset style]) r.text = r.resolve := by
  have hitems := hwritten.readItems_dateAndTime hr.isShort hbetween
    fun r' hr' => read_fraction hr' hr.nanos o.noDigit_text.1 o.noDigit_text.2
  rw [if_pos hr.hasDate_and_hasTime] at hitems
  rw [readForm_eq, readRest_append, Reading.text, ho, hitems]
  show readRest [.offset style] _ o.text = _
  rw [readRest, readItems_cons_ok (hoffset _)]
  rfl

/-- A year with a sign does not have the form of the internet. -/
theorem readForm_internet_signed {year : Int} (h : ¬ (0 ≤ year ∧ year ≤ 9999)) (rest : List Char) :
    ∃ fault, readForm internetForm (DateTime.yearText year ++ rest) = .error fault := by
  have hsign : NoDigit (DateTime.yearText year ++ rest) := by
    unfold DateTime.yearText
    rw [if_neg (by simpa using h)]
    split
    · exact .cons rfl _
    · exact .cons rfl _
  obtain ⟨fault, hread⟩ := @readNumber_noDigit 4 4 _ (by decide) hsign
  refine ⟨fault, ?_⟩
  simp only [readForm, internetForm, List.foldlM_cons, Item.read, hread, bind, Except.bind]

/-! ## Main result -/

theorem trim_text (r : Reading) : Text.trim r.text = r.text := by
  obtain ⟨before, n, hbefore⟩ : ∃ before n, r.text = before ++ DateTime.padded 2 n := by
    rw [Reading.text, DateTime.offsetText, ← List.append_assoc, List.append_cons]
    exact ⟨_, _, rfl⟩
  exact Reading.trim_clockText hbefore padded_ne_nil fun c => isDigit_of_mem_padded

/-- **The text of a date-time that was read denotes it again.** -/
theorem DateTime.ofText?_text {s : String} {t : DateTime} (h : ofText? s = some t) :
    ofText? (String.ofList t.text) = some t := by
  obtain ⟨form, -, hread⟩ := exists_form_of_findSome? h
  obtain ⟨r, hr, hresolve⟩ := Reading.Sane.readForm hread
  obtain ⟨-, ⟨hlow, hhigh⟩, ⟨hwest, heast⟩, -⟩ := Reading.resolve_ok hresolve
  obtain ⟨o, ho, hseconds, hhours, hminutes⟩ := exists_shift hr.offset hwest heast
  rw [Reading.text_of_resolve hr hresolve, ofText?, String.toList_ofList, trim_text, valueForms]
  by_cases hplain : 0 ≤ r.year ∧ r.year ≤ 9999
  · have hread : readForm internetForm r.text = .ok t := by
      rw [← hresolve, internetForm_eq]
      refine readForm_text hr ho (.fixed hplain.1 hplain.2) (fun _ _ _ => by simp [Item.read])
        fun r' => ?_
      rw [o.read_strict, if_pos ⟨hhours, hminutes⟩, hseconds]
    rw [List.findSome?_cons, hread]
    rfl
  · obtain ⟨fault, hfault⟩ : ∃ fault, readForm internetForm r.text = .error fault := by
      obtain ⟨rest, hrest⟩ := r.text_eq_append
      rw [hrest]
      exact readForm_internet_signed hplain rest
    have hread : readForm (freeDate ++ .mark 'T' :: freeTime ++ [.offset .numeric]) r.text =
        .ok t := by
      rw [← hresolve, numericForm_eq]
      refine readForm_text hr ho (.free hlow hhigh) (Item.Passes.mark 'T') fun r' => ?_
      rw [o.read_numeric, if_pos hminutes, hseconds]
    rw [List.findSome?_cons, hfault, List.findSome?_cons, hread]
    rfl

end Scim.Time
