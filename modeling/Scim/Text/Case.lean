/-! # Letter case

Names of attributes are compared without regard to the case of ASCII letters. `lower` folds a
name, `sameName` compares two, and `snake` separates the words of a camel-case name.
-/

set_option autoImplicit false

namespace Scim.Text

/-- ASCII capitals in lower case, everything else as it is. -/
def lower (s : String) : String :=
  String.ofList (s.toList.map Char.toLower)

/-- Equal up to the case of ASCII letters. -/
def sameName (a b : String) : Bool :=
  lower a == lower b

theorem sameName_iff {a b : String} : sameName a b = true ↔ lower a = lower b := by
  simp [sameName]

@[simp] theorem sameName_refl (a : String) : sameName a a = true := by
  simp [sameName]

theorem sameName_comm (a b : String) : sameName a b = sameName b a := by
  rw [Bool.eq_iff_iff, sameName_iff, sameName_iff]
  exact eq_comm

theorem sameName_trans {a b c : String} (h : sameName a b = true) (h' : sameName b c = true) :
    sameName a c = true :=
  sameName_iff.2 ((sameName_iff.1 h).trans (sameName_iff.1 h'))

/-- The words of a camel-case name, given the character before them: an underscore stands before
a capital that follows a small letter or a digit. -/
def snakeFrom : Char → List Char → List Char
  | _, [] => []
  | before, c :: rest =>
    if c.isUpper && (before.isLower || before.isDigit) then
      '_' :: c.toLower :: snakeFrom c rest
    else
      c.toLower :: snakeFrom c rest

/-- `userName` becomes `user_name`, `x509Certificates` becomes `x509_certificates`. -/
def snake (s : String) : String :=
  String.ofList (snakeFrom ' ' s.toList)

end Scim.Text
