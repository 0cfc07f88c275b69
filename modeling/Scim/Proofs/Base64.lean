import Scim.Digest.Base64

/-!
# Base64 is read again

What `encode` writes, `decode?` reads (`decode?_encode`). Octets are cut into numbers of six bits, each
of which has a sign of its own (`number?_sign`), and none of these is the padding.
-/

set_option autoImplicit false

namespace Scim.Base64

theorem number?_sign : ∀ n < 64, number? (sign n) = some n := by
  decide +kernel

theorem sign_ne_padding : ∀ n < 64, sign n ≠ '=' := by
  decide +kernel

/-! ## Groups of signs -/

section
variable {a b c d : Nat} (ha : a < 64) (hb : b < 64) (hc : c < 64) (hd : d < 64)
include ha hb

theorem decode?_one (hrest : b % 16 = 0) :
    decode? [sign a, sign b, '=', '='] = some [UInt8.ofNat (a * 4 + b / 16)] := by
  rw [decode?, number?_sign a ha, number?_sign b hb]
  exact if_pos hrest

include hc

theorem decode?_two (hrest : c % 4 = 0) : decode? [sign a, sign b, sign c, '='] =
    some [UInt8.ofNat (a * 4 + b / 16), UInt8.ofNat (b % 16 * 16 + c / 4)] := by
  rw [decode?, number?_sign a ha, number?_sign b hb, number?_sign c hc]
  · exact if_pos hrest
  · exact sign_ne_padding c hc

include hd

theorem decode?_three (rest : List Char) :
    decode? (sign a :: sign b :: sign c :: sign d :: rest) = (decode? rest).map fun bytes =>
      UInt8.ofNat (a * 4 + b / 16) :: UInt8.ofNat (b % 16 * 16 + c / 4) ::
        UInt8.ofNat (c % 4 * 64 + d) :: bytes := by
  rw [decode?, number?_sign a ha, number?_sign b hb, number?_sign c hc, number?_sign d hd]
  · cases decode? rest <;> rfl
  · exact fun h => absurd h (sign_ne_padding c hc)
  · exact fun h => absurd h (sign_ne_padding d hd)

end

/-! ## Octets -/

theorem octet_eq {a : UInt8} {n : Nat} (h : n = a.toNat) : UInt8.ofNat n = a := by
  rw [h, UInt8.ofNat_toNat]

/-- **Octets are read as they were written.** -/
theorem decode?_encode (bytes : List UInt8) : decode? (encode bytes) = some bytes := by
  induction bytes using encode.induct with
  | case1 => rfl
  | case2 a =>
    have := a.toNat_lt
    rw [encode, decode?_one (by omega) (by omega) (by omega), octet_eq (a := a) (by omega)]
  | case3 a b =>
    have := a.toNat_lt
    have := b.toNat_lt
    rw [encode, decode?_two (by omega) (by omega) (by omega) (by omega), octet_eq (a := a) (by omega),
      octet_eq (a := b) (by omega)]
  | case4 a b c rest ih =>
    have := a.toNat_lt
    have := b.toNat_lt
    have := c.toNat_lt
    rw [encode, decode?_three (by omega) (by omega) (by omega) (by omega), ih,
      Option.map_some, octet_eq (a := a) (by omega), octet_eq (a := b) (by omega),
      octet_eq (a := c) (by omega)]

end Scim.Base64
