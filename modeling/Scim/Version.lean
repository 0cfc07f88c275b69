import Scim.Digest.Base64
import Scim.Digest.Sha256

/-! # Versions

A version is a weak entity tag made of the first eight octets of the content's digest, so that equal
contents have equal versions.
-/

set_option autoImplicit false

namespace Scim

def versionOf (content : List UInt8) : String :=
  let tag := Base64.encode ((Sha256.digest content).take 8)
  String.ofList ('W' :: '/' :: '"' :: tag ++ ['"'])

/-- Octets of a text in UTF-8. -/
def utf8 (s : String) : List UInt8 :=
  s.toUTF8.toList

end Scim
