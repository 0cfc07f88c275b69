import Scim.Proofs.Text
import Scim.Proofs.Time.RoundTrip

/-!
# Dates, times and offsets as they are written

A stamp is a date and a time of day in figures, with or without a fraction and an offset (`Stamp`).
With `T` between the date and the time it is accepted exactly if its figures are possible, and denotes
what they say; with a blank between them it is accepted only if there is an offset too
(`DateTime.ofText?_stamp`). A form that accepts a stamp reads what it stands for, whichever form it is:
some ask for an offset (`AsWritten.readForm_shift`), one takes none (`AsWritten.readForm_plain`), and the
others do not expect what stands behind the date (`AsWritten.readForm_date_ne`).
-/

set_option autoImplicit false

namespace Scim.Time

/-! ## Offsets -/

namespace Shift

variable (o : Shift)

theorem seconds_minutes : o.seconds % 60 = 0 := by
  simp only [seconds]
  split <;> omega

/-- With less than sixty minutes, an offset is less than a day exactly if its hours are those of a day. -/
theorem seconds_inDay_iff (h : o.minutes.val ≤ 59) :
    (-86400 < o.seconds ∧ o.seconds < 86400) ↔ o.hours.val ≤ 23 := by
  simp only [seconds]
  split <;> omega

end Shift

/-! ## Stamps -/

/-- A date and a time of day, in figures that need not be possible. -/
structure Stamp where
  year : Fin 10000
  month : Fin 100
  day : Fin 100
  hour : Fin 100
  minute : Fin 100
  second : Fin 100
  /-- The figures after the point, which is only written if there are any. -/
  fraction : List (Fin 10)
  shift : Option Shift

namespace Stamp

def dateText (s : Stamp) : List Char :=
  DateTime.padded 4 s.year ++ '-' :: DateTime.padded 2 s.month ++ '-' :: DateTime.padded 2 s.day

def figures (s : Stamp) : List Char :=
  s.fraction.map fun d : Fin 10 => Nat.digitChar d

def fractionText (s : Stamp) : List Char :=
  if s.fraction.isEmpty then [] else '.' :: s.figures

def timeText (s : Stamp) : List Char :=
  DateTime.padded 2 s.hour ++ ':' :: DateTime.padded 2 s.minute ++ ':' :: DateTime.padded 2 s.second ++
    s.fractionText

def shiftText (s : Stamp) : List Char :=
  (s.shift.map Shift.text).getD []

/-- The text with the given character between the date and the time. -/
def text (divider : Char) (s : Stamp) : String :=
  String.ofList (s.dateText ++ divider :: s.timeText ++ s.shiftText)

def date (s : Stamp) : Date :=
  ⟨s.year, s.month, s.day⟩

/-- The nine figures after the point, with zeros for those that are not written. -/
def nanos (s : Stamp) : Nat :=
  ((s.fraction ++ List.replicate 9 0).take 9).foldl (fun n (d : Fin 10) => 10 * n + d) 0

/-- Without an offset it is UTC. -/
def offset (s : Stamp) : Int :=
  (s.shift.map Shift.seconds).getD 0

/-- The date exists, and the time of day and the offset do. -/
structure Valid (s : Stamp) : Prop where
  date : s.date.isValid = true
  hour : s.hour.val ≤ 23
  minute : s.minute.val ≤ 59
  /-- The last one is a leap second. -/
  second : s.second.val ≤ 60
  shift : ∀ o ∈ s.shift, o.hours.val ≤ 23 ∧ o.minutes.val ≤ 59

/-- The date-time that a stamp stands for. A leap second is counted with the second before it. -/
structure Denotes (s : Stamp) (t : DateTime) : Prop where
  valid : s.Valid
  seconds : t.instant.seconds = s.date.toDays * 86400 + s.hour * 3600 + s.minute * 60 +
    min s.second.val 59 - s.offset
  nanos : t.instant.nanos = s.nanos + if s.second.val = 60 then 1000000000 else 0
  offset : t.offset = s.offset

theorem Denotes.unique {s : Stamp} {t t' : DateTime} (h : s.Denotes t) (h' : s.Denotes t') : t = t' := by
  obtain ⟨⟨seconds, nanos, _, _⟩, offset, _⟩ := t
  obtain ⟨⟨seconds', nanos', _, _⟩, offset', _⟩ := t'
  obtain rfl : seconds = seconds' := h.seconds.trans h'.seconds.symm
  obtain rfl : nanos = nanos' := h.nanos.trans h'.nanos.symm
  obtain rfl : offset = offset' := h.offset.trans h'.offset.symm
  rfl

/-! ## Figures -/

variable (s : Stamp)

theorem isDigit_of_mem_figures {c : Char} (h : c ∈ s.figures) : c.isDigit = true := by
  obtain ⟨d, -, rfl⟩ := List.mem_map.1 h
  rw [Nat.isDigit_digitChar]
  exact decide_eq_true d.isLt

theorem nanos_eq : s.nanos = Text.digitsValue ((s.figures ++ List.replicate 9 '0').take 9) := by
  have hfilled : (s.figures ++ List.replicate 9 '0').take 9 =
      ((s.fraction ++ List.replicate 9 0).take 9).map fun d : Fin 10 => Nat.digitChar d := by
    rw [List.map_take, List.map_append, List.map_replicate]
    rfl
  have hvalue (d : Fin 10) : (Nat.digitChar d).toNat - '0'.toNat = d :=
    Nat.toNat_digitChar_sub_48_of_lt_ten d.isLt
  rw [hfilled, Text.digitsValue, List.foldl_map]
  simp only [hvalue, nanos]

theorem nanos_lt : s.nanos < 1000000000 := by
  have hdigits : ∀ c ∈ (s.figures ++ List.replicate 9 '0').take 9, c.isDigit = true := by
    intro c hc
    rcases List.mem_append.1 (List.mem_of_mem_take hc) with hc | hc
    · exact s.isDigit_of_mem_figures hc
    · rw [List.eq_of_mem_replicate hc]
      rfl
  have hlength : ((s.figures ++ List.replicate 9 '0').take 9).length = 9 := by
    simp only [List.length_take, List.length_append, List.length_replicate]
    omega
  have hlt := digitsValue_lt hdigits
  rw [hlength] at hlt
  rw [nanos_eq]
  exact hlt

theorem noDigit_shiftText : NoDigit s.shiftText ∧ s.shiftText.head? ≠ some '.' := by
  unfold shiftText
  cases s.shift with
  | none => exact ⟨fun _ h => (Option.not_mem_none _ h).elim, by simp⟩
  | some o => exact o.noDigit_text

theorem read_fractionText {r : Reading} (hr : r.nanos = 0) :
    Item.fraction.read r (s.fractionText ++ s.shiftText) =
      .ok ({ r with nanos := s.nanos }, s.shiftText) := by
  obtain ⟨hrest, hdot⟩ := s.noDigit_shiftText
  unfold fractionText
  split
  · rename_i hnone
    have hnanos : s.nanos = 0 := by
      rw [nanos, List.isEmpty_iff.1 hnone]
      rfl
    rw [List.nil_append, read_fraction_none hdot, hnanos, ← hr]
  · rename_i hsome
    have hne : s.figures ≠ [] := by simpa [figures] using hsome
    have hread := readFraction_digits (fun c => s.isDigit_of_mem_figures) hne hrest
    simp only [Item.read, List.cons_append, hread, bind, Except.bind, s.nanos_eq]

/-! ## What is read of a stamp -/

/-- The figures of the date and the time of day. -/
def numbers : Reading :=
  ⟨s.year.val, s.month, s.day, s.hour, s.minute, s.second, s.nanos, 0⟩

def reading : Reading :=
  { s.numbers with offset := s.offset }

theorem isShort_numbers : s.numbers.IsShort := by
  have := s.month.isLt
  have := s.day.isLt
  have := s.hour.isLt
  have := s.minute.isLt
  have := s.second.isLt
  simp only [Reading.IsShort, numbers, List.mem_cons, List.not_mem_nil, or_false]
  omega

theorem dateText_eq : s.dateText = DateTime.dateText s.date := by
  have hplain : DateTime.yearText s.year.val = DateTime.padded 4 s.year := by
    have := s.year.isLt
    unfold DateTime.yearText
    rw [if_pos (by simp only [Bool.and_eq_true, decide_eq_true_eq]; omega), Int.toNat_natCast]
  rw [dateText, DateTime.dateText, date, hplain]

theorem toList_text (divider : Char) :
    (s.text divider).toList = s.numbers.clockText divider s.fractionText ++ s.shiftText := by
  rw [text, String.toList_ofList, s.dateText_eq]
  rfl

theorem year_bounds : 0 ≤ s.reading.year ∧ s.reading.year ≤ 9999 := by
  show 0 ≤ (s.year.val : Int) ∧ (s.year.val : Int) ≤ 9999
  omega

theorem offset_minutes : s.offset % 60 = 0 := by
  rw [offset]
  cases s.shift with
  | none => rfl
  | some o => exact o.seconds_minutes

/-- The figures of a valid stamp are possible. -/
theorem Valid.hasDate_and_hasTime {s : Stamp} (h : s.Valid) :
    (s.numbers.hasDate && s.numbers.hasTime) = true := by
  obtain ⟨hmonth, hmonth', hday, hday'⟩ := Date.isValid_iff.1 h.date
  have hday' := (Date.le_daysInMonth hday').1
  simp only [Reading.hasDate, Reading.hasTime, Part.admits, Bool.and_eq_true, decide_eq_true_eq]
  exact ⟨⟨⟨hmonth, hmonth'⟩, hday, hday'⟩, h.hour, h.minute, h.second⟩

theorem Valid.sane {s : Stamp} (h : s.Valid) : s.reading.Sane := by
  obtain ⟨hmonth, hmonth', hday, hday'⟩ := Date.isValid_iff.1 h.date
  refine ⟨⟨hmonth, hmonth'⟩, ⟨hday, (Date.le_daysInMonth hday').1⟩, h.hour, h.minute, h.second,
    s.nanos_lt, s.offset_minutes⟩

theorem Valid.offset {s : Stamp} (h : s.Valid) : -86400 < s.offset ∧ s.offset < 86400 := by
  rw [Stamp.offset]
  cases hshift : s.shift with
  | none => decide
  | some o => exact (o.seconds_inDay_iff (h.shift o hshift).2).2 (h.shift o hshift).1

/-- Possible figures with a possible offset are those of the date-time that the stamp stands for. -/
theorem resolve_iff {s : Stamp} (hpossible : (s.numbers.hasDate && s.numbers.hasTime) = true)
    {t : DateTime} : (∀ o ∈ s.shift, o.hours.val ≤ 23 ∧ o.minutes.val ≤ 59) ∧
      s.reading.resolve = .ok t ↔ s.Denotes t := by
  have denotes {t : DateTime} (hshift : ∀ o ∈ s.shift, o.hours.val ≤ 23 ∧ o.minutes.val ≤ 59)
      (h : s.reading.resolve = .ok t) : s.Denotes t := by
    obtain ⟨hdate, -, -, hseconds, hnanos, hoffset⟩ := Reading.resolve_ok h
    simp only [Reading.hasDate, Reading.hasTime, Part.admits, Bool.and_eq_true,
      decide_eq_true_eq] at hpossible
    obtain ⟨-, hhour, hminute, hsecond⟩ := hpossible
    refine ⟨⟨hdate, hhour, hminute, hsecond, hshift⟩, ?_, ?_, hoffset⟩
    · rw [hseconds, Reading.secondOfDay]
      show s.date.toDays * 86400 + ((s.hour.val * 3600 + s.minute.val * 60 +
        if s.second.val = 60 then 59 else s.second.val : Nat) : Int) - s.offset = _
      have hsecond : s.second.val ≤ 60 := hsecond
      split <;> omega
    · rw [hnanos]
      show (if s.second.val = 60 then s.nanos + 1000000000 else s.nanos) = _
      split <;> rfl
  -- conversely something is resolved, and it is what the stamp stands for since there is only one
  refine ⟨fun h => denotes h.1 h.2, fun h => ⟨h.valid.shift, ?_⟩⟩
  obtain ⟨t', ht'⟩ :=
    Reading.exists_resolve h.valid.sane h.valid.date s.year_bounds h.valid.offset
  rw [ht', h.unique (denotes h.valid.shift ht')]

end Stamp

/-! ## Stamps in a form -/

/-- What is left of a form after the time of day takes an offset, and only if it is one. -/
structure TakesShift (items : List Item) : Prop where
  none (r : Reading) (t : DateTime) : readRest items r [] ≠ .ok t
  some (r : Reading) (o : Shift) (t : DateTime) : readRest items r o.text = .ok t ↔
    (o.hours.val ≤ 23 ∧ o.minutes.val ≤ 59) ∧ Reading.resolve { r with offset := o.seconds } = .ok t

theorem takesShift_strict : TakesShift [.offset .strict] where
  none r t := ne_ok rfl t
  some r o t := by
    rw [readRest, readItems_cons, o.read_strict]
    by_cases h : o.hours.val ≤ 23 ∧ o.minutes.val ≤ 59
    · rw [if_pos h, and_iff_right h]
      rfl
    · rw [if_neg h]
      exact iff_of_false (ne_ok rfl t) fun hand => h hand.1

/-- Too many hours are not read, or are more than a day. -/
theorem takesShift_numeric : TakesShift [.offset .numeric] where
  none r t := ne_ok rfl t
  some r o t := by
    rw [readRest, readItems_cons, o.read_numeric]
    by_cases h : o.minutes.val ≤ 59
    · rw [if_pos h]
      refine ⟨fun hresolve => ⟨⟨?_, h⟩, hresolve⟩, fun hand => hand.2⟩
      obtain ⟨-, -, hoffset, -⟩ := Reading.resolve_ok hresolve
      exact (o.seconds_inDay_iff h).1 hoffset
    · rw [if_neg h]
      exact iff_of_false (ne_ok rfl t) fun hand => h hand.1.2

theorem takesShift_blanks : TakesShift [.blanks, .offset .numeric] where
  none := takesShift_numeric.none
  some r o t := by
    have hread : (Item.blanks).read r o.text = .ok (r, o.text) := by
      rw [Item.read, o.trimStart_text]
    rw [readRest, readItems_cons_ok hread]
    exact takesShift_numeric.some r o t

namespace AsWritten

variable {s : Stamp} {year between : Item} {part : Part → Item} {items : List Item} {divider : Char}
  {t : DateTime}

/-- A form whose end is right for the offset reads what the stamp stands for. -/
theorem readForm_iff (h : AsWritten s.year.val year part) (hbetween : between.Passes divider)
    {p : Prop} (hrest : readRest items s.numbers s.shiftText = .ok t ↔
      p ∧ (∀ o ∈ s.shift, o.hours.val ≤ 23 ∧ o.minutes.val ≤ 59) ∧ s.reading.resolve = .ok t) :
    readForm (dateAndTime year part between ++ items) (s.text divider).toList = .ok t ↔
      p ∧ s.Denotes t := by
  have hread := readItems_dateAndTime (r := s.numbers) h s.isShort_numbers hbetween
    fun r' hr' => s.read_fractionText hr'
  rw [s.toList_text, readForm_eq, readRest_append, hread]
  cases hpossible : s.numbers.hasDate && s.numbers.hasTime with
  | false =>
    refine iff_of_false (ne_ok rfl t) fun hand => ?_
    rw [hand.2.valid.hasDate_and_hasTime] at hpossible
    cases hpossible
  | true => exact hrest.trans (and_congr_right fun _ => Stamp.resolve_iff hpossible)

theorem readForm_shift (h : AsWritten s.year.val year part) (hbetween : between.Passes divider)
    (hitems : TakesShift items) :
    readForm (dateAndTime year part between ++ items) (s.text divider).toList = .ok t ↔
      s.shift ≠ none ∧ s.Denotes t := by
  refine h.readForm_iff hbetween ?_
  rw [Stamp.shiftText, Stamp.reading, Stamp.offset]
  cases s.shift with
  | none => exact iff_of_false (hitems.none _ t) fun hand => hand.1 rfl
  | some o =>
    have hmem {q : Shift → Prop} : (∀ o' ∈ some o, q o') ↔ q o :=
      ⟨fun hall => hall o rfl, fun hq _ ho' => Option.some.inj ho' ▸ hq⟩
    rw [hmem, and_iff_right (Option.some_ne_none o)]
    exact hitems.some _ o t

theorem readForm_plain (h : AsWritten s.year.val year part) (hbetween : between.Passes divider) :
    readForm (dateAndTime year part between ++ []) (s.text divider).toList = .ok t ↔
      s.shift = none ∧ s.Denotes t := by
  refine h.readForm_iff hbetween ?_
  rw [Stamp.shiftText, Stamp.reading, Stamp.offset]
  cases s.shift with
  | some o =>
    obtain ⟨sign, rest, htext, -⟩ := o.text_eq_cons
    rw [Option.map_some, Option.getD_some, htext]
    exact iff_of_false (ne_ok rfl t) fun hand => Option.some_ne_none o hand.1
  | none =>
    rw [and_iff_right rfl, and_iff_right fun o ho => absurd ho (Option.not_mem_none o)]
    rfl

/-- A form does not read a stamp if it does not expect what stands behind the date. -/
theorem readForm_date_ne (h : AsWritten s.year.val year part)
    (hitems : ∀ (r : Reading) (rest : List Char), readRest items r (divider :: rest) ≠ .ok t) :
    readForm (dateItems year part ++ items) (s.text divider).toList ≠ .ok t := by
  have hdate := readItems_date (r := s.numbers) h s.isShort_numbers
    (divider :: (s.numbers.timeText s.fractionText ++ s.shiftText))
  rw [s.toList_text, Reading.clockText, List.append_assoc, List.cons_append, readForm_eq,
    readRest_append, hdate]
  cases s.numbers.hasDate with
  | false => exact ne_ok rfl t
  | true => exact hitems _ _

theorem readForm_between_ne (h : AsWritten s.year.val year part)
    (hitems : ∀ (r : Reading) (rest : List Char),
      readRest (between :: (timeItems part ++ items)) r (divider :: rest) ≠ .ok t) :
    readForm (dateAndTime year part between ++ items) (s.text divider).toList ≠ .ok t := by
  rw [dateAndTime, List.append_assoc]
  exact h.readForm_date_ne hitems

end AsWritten

/-! ## The forms of a value -/

/-- Four forms have a time of day, and the last is for dates alone. -/
theorem valueForms_eq : valueForms =
    [dateAndTime (.fixed .year 4) (.fixed · 2) .divider ++ [.offset .strict],
      dateAndTime (.free .year) .free (.mark 'T') ++ [.offset .numeric],
      dateAndTime (.free .year) .free .blanks ++ [.blanks, .offset .numeric],
      dateAndTime (.free .year) .free (.mark 'T') ++ [],
      dateItems (.free .year) .free ++ []] := rfl

/-- Forms that read nothing but what has a property, and all that has it, if only one has it. -/
theorem findSome?_iff {forms : List (List Item)} {s : List Char} {p : DateTime → Prop}
    (hunique : ∀ t t', p t → p t' → t = t')
    (hsound : ∀ form ∈ forms, ∀ t, readForm form s = .ok t → p t)
    (hcomplete : ∀ t, p t → ∃ form ∈ forms, readForm form s = .ok t) (t : DateTime) :
    forms.findSome? (fun form => (readForm form s).toOption) = some t ↔ p t := by
  have sound {t : DateTime}
      (h : forms.findSome? (fun form => (readForm form s).toOption) = some t) : p t := by
    obtain ⟨form, hmem, hread⟩ := exists_form_of_findSome? h
    exact hsound form hmem t hread
  refine ⟨sound, fun hp => ?_⟩
  obtain ⟨form, hmem, hread⟩ := hcomplete t hp
  have hsome : (forms.findSome? fun form => (readForm form s).toOption).isSome := by
    rw [List.findSome?_isSome_iff]
    exact ⟨form, hmem, by rw [hread]; rfl⟩
  obtain ⟨t', ht'⟩ := Option.isSome_iff_exists.1 hsome
  rw [ht', hunique t t' hp (sound ht')]

theorem Item.Passes.divider {divider : Char} (h : divider = 'T' ∨ divider = ' ') :
    Item.divider.Passes divider := by
  intro r n rest
  rcases h with rfl | rfl <;> simp [Item.read]

theorem Item.Passes.blanks : Item.blanks.Passes ' ' := by
  intro r n rest
  have hblank : Text.trimStart (' ' :: (DateTime.padded 2 n ++ rest)) =
      Text.trimStart (DateTime.padded 2 n ++ rest) := rfl
  rw [Item.read, hblank, trimStart_padded]

namespace Stamp

variable (s : Stamp)

/-- Whatever is written, figures are last. -/
theorem exists_last_figures (divider : Char) : ∃ before digits : List Char,
    (s.text divider).toList = before ++ digits ∧ digits ≠ [] ∧ ∀ c ∈ digits, c.isDigit = true := by
  rw [text, String.toList_ofList, shiftText]
  cases s.shift with
  | some o =>
    rw [Option.map_some, Option.getD_some, Shift.text, ← List.append_assoc, List.append_cons]
    exact ⟨_, _, rfl, padded_ne_nil, fun c => isDigit_of_mem_padded⟩
  | none =>
    rw [Option.map_none, Option.getD_none, List.append_nil, List.append_cons, timeText, fractionText]
    by_cases hfraction : s.fraction = []
    · rw [hfraction, List.isEmpty_nil, if_pos rfl, List.append_nil, ← List.append_assoc,
        List.append_cons _ ':' (DateTime.padded 2 s.second), ← List.append_assoc]
      exact ⟨_, _, rfl, padded_ne_nil, fun c => isDigit_of_mem_padded⟩
    · rw [if_neg (by simpa using hfraction), ← List.append_assoc, List.append_cons _ '.' s.figures]
      exact ⟨_, _, rfl, by simpa [figures] using hfraction, fun c => s.isDigit_of_mem_figures⟩

theorem trim_text (divider : Char) :
    Text.trim (s.text divider).toList = (s.text divider).toList := by
  obtain ⟨before, digits, htext, hne, hdigits⟩ := s.exists_last_figures divider
  rw [s.toList_text] at htext ⊢
  exact Reading.trim_clockText htext hne hdigits

theorem asWritten_fixed : AsWritten s.year.val (.fixed .year 4) (.fixed · 2) :=
  .fixed (by omega) (by omega)

theorem asWritten_free : AsWritten s.year.val (.free .year) .free :=
  .free (by omega) (by omega)

theorem ofText?_mark (t : DateTime) : DateTime.ofText? (s.text 'T') = some t ↔ s.Denotes t := by
  have hdivider : Item.divider.Passes 'T' := .divider (.inl rfl)
  rw [DateTime.ofText?, s.trim_text]
  refine findSome?_iff (fun t t' => Denotes.unique) ?_ ?_ t
  · intro form hmem t hread
    simp only [valueForms_eq, List.mem_cons, List.not_mem_nil, or_false] at hmem
    -- the form with blanks finds no hour at `T`, and the one for dates leaves the rest of the text
    obtain rfl | rfl | rfl | rfl | rfl := hmem
    · exact ((s.asWritten_fixed.readForm_shift hdivider takesShift_strict).1 hread).2
    · exact ((s.asWritten_free.readForm_shift (.mark 'T') takesShift_numeric).1 hread).2
    · exact absurd hread (s.asWritten_free.readForm_between_ne fun r rest => ne_ok rfl t)
    · exact ((s.asWritten_free.readForm_plain (.mark 'T')).1 hread).2
    · exact absurd hread (s.asWritten_free.readForm_date_ne fun r rest => ne_ok rfl t)
  · intro t hdenotes
    by_cases hshift : s.shift = none
    · exact ⟨_, by simp [valueForms_eq],
        (s.asWritten_free.readForm_plain (.mark 'T')).2 ⟨hshift, hdenotes⟩⟩
    · exact ⟨_, by simp [valueForms_eq],
        (s.asWritten_fixed.readForm_shift hdivider takesShift_strict).2 ⟨hshift, hdenotes⟩⟩

theorem ofText?_blank (t : DateTime) :
    DateTime.ofText? (s.text ' ') = some t ↔ s.shift ≠ none ∧ s.Denotes t := by
  have hdivider : Item.divider.Passes ' ' := .divider (.inr rfl)
  rw [DateTime.ofText?, s.trim_text]
  refine @findSome?_iff _ _ (fun t => s.shift ≠ none ∧ s.Denotes t)
    (fun t t' h h' => h.2.unique h'.2) ?_ ?_ t
  · intro form hmem t hread
    simp only [valueForms_eq, List.mem_cons, List.not_mem_nil, or_false] at hmem
    -- both forms with a blank end in an offset
    obtain rfl | rfl | rfl | rfl | rfl := hmem
    · exact (s.asWritten_fixed.readForm_shift hdivider takesShift_strict).1 hread
    · exact absurd hread (s.asWritten_free.readForm_between_ne fun r rest => ne_ok rfl t)
    · exact (s.asWritten_free.readForm_shift .blanks takesShift_blanks).1 hread
    · exact absurd hread (s.asWritten_free.readForm_between_ne fun r rest => ne_ok rfl t)
    · exact absurd hread (s.asWritten_free.readForm_date_ne fun r rest => ne_ok rfl t)
  · intro t hdenotes
    exact ⟨_, by simp [valueForms_eq],
      (s.asWritten_fixed.readForm_shift hdivider takesShift_strict).2 hdenotes⟩

/-- A valid stamp denotes a date-time. -/
theorem exists_denotes_iff : (∃ t, s.Denotes t) ↔ s.Valid := by
  refine ⟨fun ⟨t, h⟩ => h.valid, fun h => ?_⟩
  obtain ⟨t, ht⟩ := Reading.exists_resolve h.sane h.date s.year_bounds h.offset
  exact ⟨t, (resolve_iff h.hasDate_and_hasTime).1 ⟨h.shift, ht⟩⟩

end Stamp

/-- **A date and a time of day in figures.** With `T` between them the text denotes what the figures
say, at offset zero if none is written; with a blank between them it does so only if an offset is
written. So the two texts denote the same, or both nothing, except where a valid stamp has no offset. -/
theorem DateTime.ofText?_stamp (s : Stamp) :
    (∀ t, ofText? (s.text 'T') = some t ↔ s.Denotes t) ∧
      (∀ t, ofText? (s.text ' ') = some t ↔ s.shift ≠ none ∧ s.Denotes t) ∧
      ((∃ t, s.Denotes t) ↔ s.Valid) ∧
      (ofText? (s.text ' ') = ofText? (s.text 'T') ↔ s.shift ≠ none ∨ ¬ s.Valid) := by
  refine ⟨s.ofText?_mark, s.ofText?_blank, s.exists_denotes_iff, ?_⟩
  constructor
  · intro hsame
    by_cases hvalid : s.Valid
    · obtain ⟨t, ht⟩ := s.exists_denotes_iff.2 hvalid
      exact .inl ((s.ofText?_blank t).1 (hsame.trans ((s.ofText?_mark t).2 ht))).1
    · exact .inr hvalid
  · intro hshift
    refine Option.ext fun t => ?_
    rw [s.ofText?_blank, s.ofText?_mark]
    exact ⟨fun h => h.2, fun h => ⟨hshift.resolve_right fun hnot => hnot h.valid, h⟩⟩

example : DateTime.ofText? "2010-01-23 04:56:22" = none := by cbv

end Scim.Time
