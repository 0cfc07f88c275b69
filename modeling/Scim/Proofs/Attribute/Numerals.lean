import Scim.Proofs.Attribute.Readback
import Scim.Proofs.Numeral

/-!
# Numerals for integers

What an attribute for integers holds after a numeral was assigned to it (`Attribute.Reads`). Digits with
a sign are read exactly; a numeral that these alone do not give, because of its fraction, its exponent or
its size, is rounded to the nearest binary floating point number before that is cut off
(`Attribute.reads_assign_numeral`). So the integer may be another one than that of the numeral, where a
number with another integer part is nearer than any with the same; -9223372036854775809, which no word
holds, is rounded to the least integer that one does.
-/

set_option autoImplicit false

namespace Scim

/-- A numeral is read as it stands if it is an integer of a word; else its nearest number is cut off. -/
theorem Value.integerOfText?_numeral {s : String} {w : Numeral.Written}
    (hs : Text.trim s.toList = w.text) {x : Binary64} (hx : x.Nearest w.value) :
    integerOfText? s = (if w.isPlain = true then word? w.value else none).or (word? x.value) := by
  have hfinite : (finite? s).bind Binary64.toInt64? = word? x.value := by
    have hrounds := w.numeral.rounds_nearest
    rw [w.value_numeral] at hrounds
    rw [← hrounds.toInt64?_eq hx, finite?, hs, w.ofText?_text]
    simp only
    cases h : w.numeral.nearest.isFinite with
    | true => rfl
    | false => simp [Binary64.toInt64?_eq, h]
  rw [integerOfText?, hs, w.int64?_text, hfinite]
  cases (if w.isPlain = true then word? w.value else none) <;> rfl

namespace Attribute

/-- An attribute that was given a text holds the integer that was read from it, without a problem, or
the text itself, and that is its one problem. -/
structure Reads (a : Attribute) (s : String) (read : Option Int64) : Prop where
  value : a.value = read.elim (.text s) .integer
  check : a.check = if read.isSome then .empty else Report.empty.add a.name (.wrongFormat "integer" s)

theorem Reads.eq {a : Attribute} {s : String} {m n : Option Int64} (hm : a.Reads s m)
    (hn : a.Reads s n) : m = n := by
  have h := hm.value.symm.trans hn.value
  cases m <;> cases n <;> simp_all

theorem reads_assign {a : Attribute} (hd : a.descriptor.datatype = .integer)
    (hm : a.descriptor.multiValued = false) (s : String) :
    (a.assign (.text s)).Reads s (Value.integerOfText? s) := by
  have hstored : a.assign (.text s) =
      a.withContent (.plain ((Value.integerOfText? s).elim (.text s) .integer)) := by
    rw [assign_single (by simp [Descriptor.isComplex, hd]) hm, hd, DataType.coerce, Value.toInteger]
    cases Value.integerOfText? s <;> rfl
  obtain ⟨d, content, report⟩ := a
  have hd : d.datatype = .integer := hd
  have hm : d.multiValued = false := hm
  rw [hstored, withContent]
  constructor
  · rw [value_eq, Attribute.content, Content.value]
  · cases Value.integerOfText? s <;>
      simp [Attribute.check, Content.check, Content.isBlank, Value.isBlank, Descriptor.checkValue, hm,
        Descriptor.checkScalar, hd, Descriptor.checkOther, DataType.isFormatted, Descriptor.report, name,
        Attribute.descriptor, DataType.token]

/-- **A numeral is read as an integer exactly, but for rounding.** An integer of a word that is written
without fraction and exponent is kept as it is. Of every other numeral it is the number nearest to it
that is cut off; so the integer part is the right one exactly if that number has the same. -/
theorem reads_assign_numeral {a : Attribute} (hd : a.descriptor.datatype = .integer)
    (hm : a.descriptor.multiValued = false) {s : String} {w : Numeral.Written}
    (hs : Text.trim s.toList = w.text) :
    (∃ x : Binary64, x.Nearest w.value) ∧ ∀ x : Binary64, x.Nearest w.value →
      (a.assign (.text s)).Reads s
          ((if w.isPlain = true then word? w.value else none).or (word? x.value)) ∧
        ((a.assign (.text s)).Reads s (word? w.value) ↔
          (w.isPlain = true ∧ (word? w.value).isSome = true) ∨ word? x.value = word? w.value) := by
  have hrounds := w.numeral.rounds_nearest
  rw [w.value_numeral] at hrounds
  refine ⟨hrounds.exists_nearest, fun x hx => ?_⟩
  have hreads := reads_assign hd hm s
  rw [Value.integerOfText?_numeral hs hx] at hreads
  have hexact : (a.assign (.text s)).Reads s (word? w.value) ↔
      (if w.isPlain = true then word? w.value else none).or (word? x.value) = word? w.value :=
    ⟨hreads.eq, fun h => h ▸ hreads⟩
  refine ⟨hreads, hexact.trans ?_⟩
  cases w.isPlain with
  | false => simp
  | true => cases word? w.value <;> simp

/-- The greatest integer below those of a word is rounded to the least of them. -/
theorem reads_assign_numeral_age :
    let age := bind (.new "age" .integer)
    let s := "-9223372036854775809"
    let w : Numeral.Written :=
      ⟨.minus, "9223372036854775809".toList, none, none, List.all_eq_true.1 (by decide), nofun,
        by decide⟩
    age.descriptor.datatype = .integer ∧ age.descriptor.multiValued = false ∧
      Text.trim s.toList = w.text ∧ word? w.value = none ∧
      (age.assign (.text s)).value = .integer (-9223372036854775808) ∧
      ¬ (age.assign (.text s)).Reads s (word? w.value) ∧
      ∃ x : Binary64, x.Nearest w.value ∧ word? x.value = some (-9223372036854775808) := by
  intro age s w
  have htext : Text.trim s.toList = w.text := by decide
  have hvalue : (age.assign (.text s)).value = .integer (-9223372036854775808) := by
    have hread : Value.integerOfText? s = some (-9223372036854775808) := by decide
    rw [(reads_assign rfl rfl s).value, hread]
    rfl
  have hword : word? w.value = none := by
    have hinteger : w.sign.integer (Text.digitsValue w.whole) = -9223372036854775809 := by decide
    rw [word?_eq_none_iff, (w.value_of_isPlain rfl).2, hinteger]
    exact .inl (by norm_num)
  obtain ⟨⟨x, hx⟩, h⟩ := reads_assign_numeral (a := age) rfl rfl htext
  obtain ⟨hreads, hexact⟩ := h x hx
  have hx? : word? x.value = some (-9223372036854775808) := by
    have hread := hvalue.symm.trans hreads.value
    rw [hword, ite_self, Option.none_or] at hread
    cases hn : word? x.value with
    | none => rw [hn] at hread; cases hread
    | some n => rw [hn] at hread; cases hread; rfl
  refine ⟨rfl, rfl, htext, hword, hvalue, fun h => ?_, x, hx, hx?⟩
  rcases hexact.1 h with ⟨-, hsome⟩ | heq
  · rw [hword] at hsome
    cases hsome
  · rw [hx?, hword] at heq
    cases heq

end Attribute

end Scim
