/-! # White space

The white space of Unicode (property White_Space), which is wider than the ASCII blanks, and what
is left of a text without it at its ends. `trim_eq_self` says that a text with none there is kept.
-/

set_option autoImplicit false

namespace Scim.Text

/-- The characters with the property White_Space. -/
def isSpace (c : Char) : Bool :=
  let n := c.toNat
  (0x09 ≤ n && n ≤ 0x0D) || n == 0x20 || n == 0x85 || n == 0xA0 || n == 0x1680 ||
    (0x2000 ≤ n && n ≤ 0x200A) || n == 0x2028 || n == 0x2029 || n == 0x202F || n == 0x205F ||
    n == 0x3000

def trimStart (s : List Char) : List Char :=
  s.dropWhile isSpace

def trim (s : List Char) : List Char :=
  (trimStart (trimStart s).reverse).reverse

/-- Nothing but white space. -/
def isBlank (s : String) : Bool :=
  s.toList.all isSpace

theorem trimStart_eq_self {s : List Char} (h : ∀ c ∈ s.head?, isSpace c = false) :
    trimStart s = s := by
  cases s with
  | nil => rfl
  | cons c s =>
    rw [trimStart, List.dropWhile_cons, h c rfl]
    rfl

/-- A text without white space at its ends is kept. -/
theorem trim_eq_self {s : List Char} (hhead : ∀ c ∈ s.head?, isSpace c = false)
    (hlast : ∀ c ∈ s.getLast?, isSpace c = false) : trim s = s := by
  rw [trim, trimStart_eq_self hhead, trimStart_eq_self (by rwa [List.head?_reverse]),
    List.reverse_reverse]

end Scim.Text
