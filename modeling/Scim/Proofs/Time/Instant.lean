import Scim.Proofs.Time.RoundTrip

/-!
# Instants and their text

The text of an instant, as a timestamp has it, denotes the instant (`Instant.ofText_text`), whatever its
year and also in a leap second. Its parts are those of its date and its second of the day
(`Instant.reading`); they are written as they would be read, and lead back to it.
-/

set_option autoImplicit false

namespace Scim.Time

/-! ## The form of timestamps -/

theorem readItems_blanks {c : Char} (h : Text.isSpace c = false) (items : List Item) (r : Reading)
    (s : List Char) : readItems (.blanks :: items) r (c :: s) = readItems items r (c :: s) :=
  readItems_cons_ok (by rw [Item.read, Text.trimStart, List.dropWhile_cons, h]; rfl) items

/-- The form of timestamps takes parts at UTC as they are written. -/
theorem readForm_instant {r : Reading} (hr : r.Sane) (hlow : -262143 ≤ r.year)
    (hhigh : r.year ≤ 262142) (hutc : r.offset = 0) : readForm instantForm r.text = r.resolve := by
  have h : AsWritten r.year (.free .year) .free := .free hlow hhigh
  have hshort := hr.isShort
  simp only [Reading.IsShort, List.forall_mem_cons] at hshort
  obtain ⟨hmonth, hday, hhour, hminute, hsecond, -⟩ := hshort
  have hadmits := hr.hasDate_and_hasTime
  simp only [Reading.hasDate, Reading.hasTime, Bool.and_eq_true] at hadmits
  obtain ⟨⟨hmonth', hday'⟩, hhour', hminute', hsecond'⟩ := hadmits
  have hoffset : DateTime.offsetText 0 = '+' :: ['0', '0', ':', '0', '0'] := rfl
  have hdivider (r' : Reading) (s : List Char) : Item.divider.read r' ('T' :: s) = .ok (r', s) := by
    simp [Item.read]
  have hfraction (r' : Reading) (hr' : r'.nanos = 0) :=
    @read_fraction r' r.nanos (DateTime.offsetText 0) hr' hr.nanos (.cons rfl _) (by decide)
  rw [readForm_eq, readRest, Reading.text, hutc]
  simp only [Reading.clockText, Reading.timeText, DateTime.dateText, List.append_assoc,
    List.cons_append]
  rw [instantForm, readItems_cons_ok (h.year _ (.cons rfl _)), readItems_blanks rfl,
    readItems_cons_ok (read_mark _ _ _), h.readItems_part (by decide) hmonth, if_pos hmonth',
    readItems_blanks rfl, readItems_cons_ok (read_mark _ _ _), h.readItems_part (by decide) hday,
    if_pos hday', readItems_cons_ok (hdivider _ _), h.readItems_part (by decide) hhour,
    if_pos hhour', readItems_blanks rfl, readItems_cons_ok (read_mark _ _ _),
    h.readItems_part (by decide) hminute, if_pos hminute', readItems_blanks rfl,
    readItems_cons_ok (read_mark _ _ _), h.readItems_part (by decide) hsecond, if_pos hsecond',
    readItems_cons_ok (hfraction _ rfl), hoffset, readItems_blanks rfl]
  -- the offset and the blanks behind it are closed terms but for the parts that were read
  obtain ⟨⟩ := r
  cases hutc
  rfl

/-! ## The parts of an instant -/

namespace Instant

variable (t : Instant)

/-- The parts of an instant at UTC. -/
def reading : Reading :=
  let date := Date.ofDays (t.seconds / 86400)
  let ofDay := (t.seconds % 86400).toNat
  { year := date.year, month := date.month, day := date.day
    hour := ofDay / 3600, minute := ofDay / 60 % 60, second := ofDay % 60 + t.nanos / 1000000000
    nanos := t.nanos % 1000000000, offset := 0 }

theorem text_utc : (DateTime.utc t).text = t.reading.text := by
  simp only [DateTime.text, DateTime.utc, Int.add_zero, reading, Reading.text, Reading.clockText,
    Reading.timeText, List.append_assoc, List.cons_append]

theorem nanos_cases : t.nanos < 1000000000 ∨ (t.nanos < 2000000000 ∧ t.seconds % 60 = 59) := by
  simpa [isPart] using t.nanos_isPart

theorem sane_reading : t.reading.Sane := by
  obtain ⟨hmonth, hmonth', hday, hday'⟩ := Date.isValid_iff.1 (Date.toDays_ofDays (t.seconds / 86400)).1
  have hday' := (Date.le_daysInMonth hday').1
  have hnanos := t.nanos_cases
  exact ⟨⟨hmonth, hmonth'⟩, ⟨hday, hday'⟩, by dsimp only [reading]; omega,
    by dsimp only [reading]; omega, by dsimp only [reading]; omega, by dsimp only [reading]; omega,
    rfl⟩

theorem year_reading : -262143 ≤ t.reading.year ∧ t.reading.year ≤ 262142 := by
  obtain ⟨hvalid, hdays⟩ := Date.toDays_ofDays (t.seconds / 86400)
  have hrange := t.seconds_inRange
  simp only [inRange, Bool.and_eq_true, decide_eq_true_eq] at hrange
  exact Date.year_bounds hvalid (by rw [hdays]; omega)

/-- A second with the number 60 is a leap second. -/
theorem second_reading : t.reading.second = 60 ↔ 1000000000 ≤ t.nanos := by
  have hnanos := t.nanos_cases
  dsimp only [reading]
  omega

theorem resolve_reading : t.reading.resolve = .ok (DateTime.utc t) := by
  obtain ⟨hvalid, hdays⟩ := Date.toDays_ofDays (t.seconds / 86400)
  obtain ⟨hlow, hhigh⟩ := t.year_reading
  have hcases := t.nanos_cases
  have hseconds : (Date.ofDays (t.seconds / 86400)).toDays * 86400 +
      ((t.reading.hour * 3600 + t.reading.minute * 60 +
        if (t.reading.second == 60) = true then 59 else t.reading.second : Nat) : Int) - 0 =
      t.seconds := by
    rw [hdays]
    simp only [beq_iff_eq, second_reading]
    dsimp only [reading]
    split <;> omega
  have hnanos : (if (t.reading.second == 60) = true then t.reading.nanos + 1000000000
      else t.reading.nanos) = t.nanos := by
    simp only [beq_iff_eq, second_reading]
    dsimp only [reading]
    split <;> omega
  have hparts : DateTime.ofParts? t.seconds t.nanos 0 = some (.utc t) := by
    simp only [DateTime.ofParts?, Instant.ofParts?, t.seconds_inRange, t.nanos_isPart, and_self,
      dite_true]
    rfl
  have hyear : (!(Date.ofDays (t.seconds / 86400)).isValid || decide (t.reading.year < -262143) ||
      decide (262142 < t.reading.year)) = false := by
    simp only [hvalid, Bool.not_true, Bool.false_or, Bool.or_eq_false_iff, decide_eq_false_iff_not]
    omega
  unfold Reading.resolve
  rw [show (⟨t.reading.year, t.reading.month, t.reading.day⟩ : Date) =
    Date.ofDays (t.seconds / 86400) from rfl]
  simp only [hyear, Bool.false_eq_true, if_false]
  rw [show t.reading.offset = 0 from rfl, hseconds, hnanos, hparts]
  rfl

/-! ## Main result -/

/-- **The text of an instant denotes it.** -/
theorem ofText_text : Instant.ofText (String.ofList (DateTime.utc t).text) = .ok t := by
  obtain ⟨hlow, hhigh⟩ := t.year_reading
  rw [ofText, String.toList_ofList, text_utc, readForm_instant t.sane_reading hlow hhigh rfl,
    resolve_reading]
  rfl

end Instant

end Scim.Time
