import Scim.Proofs.Time.Reading

/-!
# Forms item by item

A form is read item by item (`readItems`), and what some of its items leave by the rest of the form
(`readRest`). All forms with a time of day begin with a date and a time of day in the same figures
(`dateAndTime`); items that take figures as they are written (`AsWritten`) keep them if every part can
have its number (`AsWritten.readItems_dateAndTime`).
-/

set_option autoImplicit false

namespace Scim.Time

/-! ## Items in a row -/

def readItems (items : List Item) (r : Reading) (s : List Char) : Except Fault (Reading × List Char) :=
  items.foldlM (fun (r, s) item => item.read r s) (r, s)

/-- Reads all that is left of a text. -/
def readRest (items : List Item) (r : Reading) (s : List Char) : Except Fault DateTime :=
  (readItems items r s).bind fun x => if x.2.isEmpty then x.1.resolve else .error .trailing

theorem ne_ok {x : Except Fault DateTime} {fault : Fault} (h : x = .error fault) (t : DateTime) :
    x ≠ .ok t := by
  rw [h]
  intro hok
  cases hok

theorem readForm_eq (form : List Item) (s : List Char) : readForm form s = readRest form .empty s := rfl

theorem readItems_cons (item : Item) (items : List Item) (r : Reading) (s : List Char) :
    readItems (item :: items) r s = (item.read r s).bind fun x => readItems items x.1 x.2 := by
  rw [readItems, List.foldlM_cons]
  rfl

/-- An item that finds what it expects leaves the rest to those behind it. -/
theorem readItems_cons_ok {item : Item} {r r' : Reading} {s s' : List Char}
    (h : item.read r s = .ok (r', s')) (items : List Item) :
    readItems (item :: items) r s = readItems items r' s' := by
  rw [readItems_cons, h]
  rfl

theorem readItems_append (items rest : List Item) (r : Reading) (s : List Char) :
    readItems (items ++ rest) r s = (readItems items r s).bind fun x => readItems rest x.1 x.2 := by
  rw [readItems, List.foldlM_append]
  rfl

theorem readRest_append (items rest : List Item) (r : Reading) (s : List Char) :
    readRest (items ++ rest) r s = (readItems items r s).bind fun x => readRest rest x.1 x.2 := by
  rw [readRest, readItems_append]
  cases readItems items r s <;> rfl

theorem read_mark (c : Char) (r : Reading) (s : List Char) :
    (Item.mark c).read r (c :: s) = .ok (r, s) := by
  simp [Item.read]

/-- What the first form that fits reads, one of the forms reads. -/
theorem exists_form_of_findSome? {forms : List (List Item)} {s : List Char} {t : DateTime}
    (h : forms.findSome? (fun form => (readForm form s).toOption) = some t) :
    ∃ form ∈ forms, readForm form s = .ok t := by
  obtain ⟨form, hmem, hform⟩ := List.exists_of_findSome?_eq_some h
  cases hread : readForm form s with
  | error fault => simp [hread, Except.toOption] at hform
  | ok t' =>
    obtain rfl : t' = t := by simpa [hread, Except.toOption] using hform
    exact ⟨form, hmem, hread⟩

/-! ## Parts -/

/-- The part can have the number. -/
def Part.admits (p : Part) (n : Nat) : Bool :=
  match p with
  | .year => n ≤ 0x7FFFFFFF
  | .month => 1 ≤ n && n ≤ 12
  | .day => 1 ≤ n && n ≤ 31
  | .hour => n ≤ 23
  | .minute => n ≤ 59
  | .second => n ≤ 60

def Reading.put (r : Reading) (p : Part) (n : Nat) : Reading :=
  match p with
  | .year => { r with year := n }
  | .month => { r with month := n }
  | .day => { r with day := n }
  | .hour => { r with hour := n }
  | .minute => { r with minute := n }
  | .second => { r with second := n }

theorem keep_eq (r : Reading) (p : Part) (n : Nat) :
    r.keep p n = if p.admits n then .ok (r.put p n) else .error .outOfRange := by
  have within {low high : Int} {b : Bool} (h : (low ≤ (n : Int) ∧ (n : Int) ≤ high) ↔ b = true) :
      (decide (low ≤ (n : Int)) && decide ((n : Int) ≤ high)) = b := by
    rw [Bool.eq_iff_iff, ← h, Bool.and_eq_true, decide_eq_true_eq, decide_eq_true_eq]
  cases p <;> simp only [Reading.keep, Reading.put, Int.toNat_natCast] <;> rw [within] <;>
    simp only [Part.admits, Bool.and_eq_true, decide_eq_true_eq] <;> omega

theorem keep_year {year : Int} (hlow : -262143 ≤ year) (hhigh : year ≤ 262142) (r : Reading) :
    r.keep .year year = .ok { r with year } := by
  have h : -0x80000000 ≤ year ∧ year ≤ 0x7FFFFFFF := by omega
  simp only [Reading.keep, h, decide_true, Bool.and_self, if_true]

/-! ## Figures as they are written -/

/-- A year and other parts are read as the figures say, whatever stands behind them. -/
structure AsWritten (year : Int) (yearItem : Item) (part : Part → Item) : Prop where
  year (rest : List Char) : NoDigit rest → yearItem.read .empty (DateTime.yearText year ++ rest) =
    .ok ({ Reading.empty with year }, rest)
  part (p : Part) (n : Nat) (r : Reading) (rest : List Char) : p ≠ .year → n < 100 →
    (part p).read r (DateTime.padded 2 n ++ rest) = (r.keep p n).bind fun r => .ok (r, rest)

/-- Years with four figures have a fixed width. -/
theorem AsWritten.fixed {year : Int} (hlow : 0 ≤ year) (hhigh : year ≤ 9999) :
    AsWritten year (.fixed .year 4) (.fixed · 2) where
  year rest _ := by
    have hread : readNumber 4 4 (DateTime.padded 4 year.toNat ++ rest) = .ok (year.toNat, rest) :=
      readNumber_padded (by decide) (show year.toNat < 10000 by omega) (by decide) (by decide)
        (.inl rfl)
    have hyear : ((year.toNat : Nat) : Int) = year := by omega
    have hplain : DateTime.yearText year = DateTime.padded 4 year.toNat := by
      unfold DateTime.yearText
      rw [if_pos (by simp [hlow, hhigh])]
    have hkeep := keep_year (show -262143 ≤ year by omega) (by omega) .empty
    simp only [Item.read, hplain, hread, bind, Except.bind, hyear, hkeep]
  part p n r rest _ hn := by
    have hread : readNumber 2 2 (DateTime.padded 2 n ++ rest) = .ok (n, rest) :=
      readNumber_padded (by decide) hn (by decide) (by decide) (.inl rfl)
    simp only [Item.read, hread, bind, Except.bind]

theorem isSpace_yearText (year : Int) (rest : List Char) :
    ∀ c ∈ (DateTime.yearText year ++ rest).head?, Text.isSpace c = false := by
  intro c hc
  unfold DateTime.yearText at hc
  split at hc
  · obtain ⟨d, s, hd, hdigit⟩ := @exists_padded_cons 4 year.toNat
    rw [hd] at hc
    obtain rfl : d = c := Option.some.inj hc
    exact isSpace_of_isDigit hdigit
  · split at hc <;>
    · obtain rfl := Option.some.inj hc
      rfl

theorem AsWritten.free {year : Int} (hlow : -262143 ≤ year) (hhigh : year ≤ 262142) :
    AsWritten year (.free .year) .free where
  year rest hrest := by
    have htrim := Text.trimStart_eq_self (isSpace_yearText year rest)
    simp only [Item.read, htrim, readYear_text year hrest, bind, Except.bind, keep_year hlow hhigh]
  part p n r rest hp hn := by
    have hread : readNumber 1 2 (Text.trimStart (DateTime.padded 2 n ++ rest)) = .ok (n, rest) := by
      rw [trimStart_padded]
      exact readNumber_padded (by decide) hn (by decide) (by decide) (.inl rfl)
    cases p with
    | year => exact absurd rfl hp
    | _ => simp only [Item.read, hread, bind, Except.bind]

/-- The item passes over a character that figures follow. -/
def Item.Passes (between : Item) (divider : Char) : Prop :=
  ∀ (r : Reading) (n : Nat) (rest : List Char),
    between.read r (divider :: (DateTime.padded 2 n ++ rest)) = .ok (r, DateTime.padded 2 n ++ rest)

theorem Item.Passes.mark (c : Char) : (Item.mark c).Passes c :=
  fun r _ _ => read_mark c r _

/-! ## Dates and times of day -/

/-- A date, given how a year and another part are read. -/
def dateItems (year : Item) (part : Part → Item) : List Item :=
  [year, .mark '-', part .month, .mark '-', part .day]

def timeItems (part : Part → Item) : List Item :=
  [part .hour, .mark ':', part .minute, .mark ':', part .second, .fraction]

/-- A date and a time of day with something between them. -/
def dateAndTime (year : Item) (part : Part → Item) (between : Item) : List Item :=
  dateItems year part ++ between :: timeItems part

namespace Reading

/-- The text of a time of day, with that of its fraction. -/
def timeText (r : Reading) (fraction : List Char) : List Char :=
  DateTime.padded 2 r.hour ++ ':' :: DateTime.padded 2 r.minute ++
    ':' :: DateTime.padded 2 r.second ++ fraction

/-- The text of a date and a time of day. -/
def clockText (r : Reading) (divider : Char) (fraction : List Char) : List Char :=
  DateTime.dateText ⟨r.year, r.month, r.day⟩ ++ divider :: r.timeText fraction

/-- No blank is in front, and none behind if figures are last. -/
theorem trim_clockText {r : Reading} {divider : Char} {fraction rest before digits : List Char}
    (h : r.clockText divider fraction ++ rest = before ++ digits) (hne : digits ≠ [])
    (hdigits : ∀ c ∈ digits, c.isDigit = true) :
    Text.trim (r.clockText divider fraction ++ rest) = r.clockText divider fraction ++ rest := by
  apply Text.trim_eq_self
  · simp only [clockText, DateTime.dateText, List.append_assoc]
    exact isSpace_yearText _ _
  · intro c hc
    rw [h, List.getLast?_append, List.getLast?_eq_some_getLast hne, Option.some_or] at hc
    exact isSpace_of_isDigit (hdigits c (Option.some.inj hc ▸ List.getLast_mem hne))

/-- Month and day have numbers that they can have. -/
def hasDate (r : Reading) : Bool :=
  Part.month.admits r.month && Part.day.admits r.day

def hasTime (r : Reading) : Bool :=
  Part.hour.admits r.hour && (Part.minute.admits r.minute && Part.second.admits r.second)

/-- Two figures are enough for every part but the year. -/
def IsShort (r : Reading) : Prop :=
  ∀ n ∈ [r.month, r.day, r.hour, r.minute, r.second], n < 100

end Reading

namespace AsWritten

variable {r : Reading} {year : Item} {part : Part → Item}

theorem readItems_part (h : AsWritten r.year year part) {p : Part} (hp : p ≠ .year) {n : Nat}
    (hn : n < 100) (r' : Reading) (items : List Item) (rest : List Char) :
    readItems (part p :: items) r' (DateTime.padded 2 n ++ rest) =
      if p.admits n then readItems items (r'.put p n) rest else .error .outOfRange := by
  rw [readItems_cons, h.part p n r' rest hp hn, keep_eq]
  split <;> rfl

theorem readItems_date (h : AsWritten r.year year part) (hshort : r.IsShort) (rest : List Char) :
    readItems (dateItems year part) .empty
        (DateTime.dateText ⟨r.year, r.month, r.day⟩ ++ rest) =
      if r.hasDate then
        .ok ({ Reading.empty with year := r.year, month := r.month, day := r.day }, rest)
      else .error .outOfRange := by
  have hmonth : r.month < 100 := hshort _ (by simp)
  have hday : r.day < 100 := hshort _ (by simp)
  simp only [dateItems, DateTime.dateText, List.append_assoc, List.cons_append]
  rw [readItems_cons_ok (h.year _ (.cons rfl _)), readItems_cons_ok (read_mark _ _ _),
    h.readItems_part (by decide) hmonth, readItems_cons_ok (read_mark _ _ _),
    h.readItems_part (by decide) hday, Reading.hasDate]
  cases Part.month.admits r.month <;> cases Part.day.admits r.day <;> rfl

theorem readItems_time (h : AsWritten r.year year part) (hshort : r.IsShort)
    {fraction rest : List Char} (hfraction : ∀ r' : Reading, r'.nanos = 0 →
      Item.fraction.read r' (fraction ++ rest) = .ok ({ r' with nanos := r.nanos }, rest)) :
    readItems (timeItems part)
        { Reading.empty with year := r.year, month := r.month, day := r.day }
        (r.timeText fraction ++ rest) =
      if r.hasTime then .ok ({ r with offset := 0 }, rest) else .error .outOfRange := by
  have hhour : r.hour < 100 := hshort _ (by simp)
  have hminute : r.minute < 100 := hshort _ (by simp)
  have hsecond : r.second < 100 := hshort _ (by simp)
  simp only [timeItems, Reading.timeText, List.append_assoc, List.cons_append]
  rw [h.readItems_part (by decide) hhour, readItems_cons_ok (read_mark _ _ _),
    h.readItems_part (by decide) hminute, readItems_cons_ok (read_mark _ _ _),
    h.readItems_part (by decide) hsecond, readItems_cons_ok (hfraction _ rfl), Reading.hasTime]
  cases Part.hour.admits r.hour <;> cases Part.minute.admits r.minute <;>
    cases Part.second.admits r.second <;> rfl

/-- Forms that begin with the same figures keep the same of them. -/
theorem readItems_dateAndTime (h : AsWritten r.year year part) (hshort : r.IsShort) {between : Item}
    {divider : Char} (hbetween : between.Passes divider) {fraction rest : List Char}
    (hfraction : ∀ r' : Reading, r'.nanos = 0 →
      Item.fraction.read r' (fraction ++ rest) = .ok ({ r' with nanos := r.nanos }, rest)) :
    readItems (dateAndTime year part between) .empty (r.clockText divider fraction ++ rest) =
      if r.hasDate && r.hasTime then .ok ({ r with offset := 0 }, rest) else .error .outOfRange := by
  have hbehind (r' : Reading) : between.read r' (divider :: (r.timeText fraction ++ rest)) =
      .ok (r', r.timeText fraction ++ rest) := by
    simp only [Reading.timeText, List.append_assoc]
    exact hbetween r' _ _
  rw [dateAndTime, Reading.clockText, List.append_assoc, readItems_append, List.cons_append,
    h.readItems_date hshort]
  cases r.hasDate with
  | false => rfl
  | true =>
    show readItems (between :: timeItems part) _ _ = _
    rw [readItems_cons_ok (hbehind _), h.readItems_time hshort hfraction]
    rfl

end AsWritten

end Scim.Time
