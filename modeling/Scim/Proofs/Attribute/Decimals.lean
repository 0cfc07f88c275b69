import Scim.Proofs.Attribute.Readback
import Scim.Proofs.Binary64.Truncation

/-!
# Decimals for integers

What an attribute for integers holds after a decimal was assigned to it: the integer part, exactly, where
a signed word of 64 bits holds that, and otherwise the decimal, which is its one problem
(`Attribute.assign_decimal_exact`).
-/

set_option autoImplicit false

namespace Scim.Attribute

variable {a : Attribute}

theorem assign_toInteger (hd : a.descriptor.datatype = .integer) (hm : a.descriptor.multiValued = false)
    (v : Value) : a.assign v = a.withContent (.plain v.toInteger) := by
  rw [assign_single (by simp [Descriptor.isComplex, hd]) hm, hd, DataType.coerce]

theorem check_integer (hd : a.descriptor.datatype = .integer) (hm : a.descriptor.multiValued = false)
    (n : Int64) : (a.withContent (.plain (.integer n))).check = .empty := by
  simp [withContent, check, Content.check, Content.isBlank, Value.isBlank, Descriptor.checkValue, hm,
    Descriptor.checkScalar, hd, Descriptor.report]

theorem check_decimal (hd : a.descriptor.datatype = .integer) (hm : a.descriptor.multiValued = false)
    (x : Binary64) : (a.withContent (.plain (.decimal x))).check =
      Report.empty.add a.name (.wrongType "integer" "decimal") := by
  simp [withContent, check, Content.check, Content.isBlank, Value.isBlank, Descriptor.checkValue, hm,
    Descriptor.checkScalar, hd, Descriptor.checkOther, Descriptor.report, DataType.token, Value.kind, name]

/-- **A decimal is cut off exactly or kept.** The cut is the integer part of the rational that the pattern
denotes, where the number is finite and a signed word of 64 bits holds that part, and there is none
otherwise. With it an attribute for one integer is valid; without it the attribute holds the decimal as it
is, and its type is the one problem. -/
theorem assign_decimal_exact (hd : a.descriptor.datatype = .integer)
    (hm : a.descriptor.multiValued = false) (x : Binary64) :
    (∀ n : Int64, x.toInt64? = some n ↔ x.HasWord ∧ n.toInt = integerPart x.value) ∧
      ((a.assign (.decimal x)).isValid = true ↔ x.HasWord) ∧
      (x.HasWord → ∃ n : Int64, n.toInt = integerPart x.value ∧
        (a.assign (.decimal x)).value = .integer n) ∧
      (¬ x.HasWord → (a.assign (.decimal x)).value = .decimal x ∧
        (a.assign (.decimal x)).check = Report.empty.add a.name (.wrongType "integer" "decimal")) := by
  rw [assign_toInteger hd hm, isValid]
  refine ⟨fun n => Binary64.toInt64?_eq_some_iff, ?_⟩
  by_cases hword : x.HasWord
  · obtain ⟨n, hn⟩ := Binary64.exists_toInt64?_iff.2 hword
    have hstored : Value.toInteger (.decimal x) = .integer n := by rw [Value.toInteger, hn]
    rw [hstored, check_integer hd hm]
    refine ⟨iff_of_true rfl hword, fun _ => ?_, fun h => absurd hword h⟩
    exact ⟨n, (Binary64.toInt64?_eq_some_iff.1 hn).2, rfl⟩
  · have hnone : x.toInt64? = none := by
      rw [Option.eq_none_iff_forall_ne_some]
      exact fun n hn => hword (Binary64.exists_toInt64?_iff.1 ⟨n, hn⟩)
    have hstored : Value.toInteger (.decimal x) = .decimal x := by rw [Value.toInteger, hnone]
    rw [hstored, check_decimal hd hm]
    exact ⟨iff_of_false (by simp) hword, fun h => absurd h hword, fun _ => ⟨rfl, rfl⟩⟩

/-- The least number of the words is cut off to the least word; the least number above the words is kept. -/
theorem assign_decimal_age :
    let age := bind (.new "age" .integer)
    let least : Binary64 := ⟨0xC3E0000000000000⟩
    let above : Binary64 := ⟨0x43E0000000000000⟩
    age.descriptor.datatype = .integer ∧ age.descriptor.multiValued = false ∧
      least.HasWord ∧ integerPart least.value = -0x8000000000000000 ∧
      (age.assign (.decimal least)).value = .integer (-0x8000000000000000) ∧
      (age.assign (.decimal least)).isValid = true ∧
      ¬ above.HasWord ∧ (age.assign (.decimal above)).value = .decimal above ∧
      (age.assign (.decimal above)).check = Report.empty.add "age" (.wrongType "integer" "decimal") := by
  intro age least above
  have hleast : least.toInt64? = some (-0x8000000000000000) := by decide
  have habove : above.toInt64? = none := by decide
  have hnone : ¬ above.HasWord := fun h => by
    obtain ⟨n, hn⟩ := Binary64.exists_toInt64?_iff.2 h
    rw [habove] at hn
    cases hn
  obtain ⟨hcut, hvalid, hstored, -⟩ := assign_decimal_exact (a := age) rfl rfl least
  obtain ⟨-, -, -, hkept⟩ := assign_decimal_exact (a := age) rfl rfl above
  obtain ⟨hword, hpart⟩ := (hcut _).1 hleast
  obtain ⟨n, hn, hvalue⟩ := hstored hword
  obtain rfl : n = -0x8000000000000000 := Int64.toInt_inj.1 (hn.trans hpart.symm)
  exact ⟨rfl, rfl, hword, hpart.symm, hvalue, hvalid.2 hword, hnone, hkept hnone⟩

end Scim.Attribute
