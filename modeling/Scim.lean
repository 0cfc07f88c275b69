import Scim.Text.Blank
import Scim.Text.Case
import Scim.Text.Quoted
import Scim.Table
import Scim.Digest.Base64
import Scim.Digest.Sha256
import Scim.Binary64.Text
import Scim.Text.Numeral
import Scim.Time.Grammar
import Scim.Json.Text
import Scim.Json.Lexeme
import Scim.Json.Record
import Scim.Json.Reading
import Scim.Schema.Characteristic
import Scim.Error
import Scim.Schema.Document
import Scim.Value
import Scim.Version
import Scim.Meta
import Scim.Attribute.Assign
import Scim.Attribute.Render
import Scim.Resource.Basic
import Scim.Validator
import Scim.Main
import Scim.Proofs.Attribute.Conformance
import Scim.Proofs.Attribute.Visibility
import Scim.Proofs.Resource.Run
import Scim.Proofs.Text
import Scim.Proofs.Resource.Accessor
import Scim.Proofs.Resource.Lookup
import Scim.Proofs.Time.Calendar
import Scim.Proofs.Time.Reading
import Scim.Proofs.Binary64
import Scim.Proofs.Time.RoundTrip
import Scim.Proofs.Attribute.RoundTrip
import Scim.Proofs.Resource.Document
import Scim.Proofs.Attribute.Secrecy
import Scim.Proofs.Resource.Secrecy
import Scim.Proofs.Attribute.Representation
import Scim.Proofs.Attribute.Output
import Scim.Proofs.Json.Written
import Scim.Proofs.Schema.RoundTrip
import Scim.Proofs.Resource.Update
import Scim.Proofs.Schema.Structure
import Scim.Proofs.Resource.Authenticity
import Scim.Proofs.Attribute.Acceptance
import Scim.Proofs.Resource.Acceptance
import Scim.Proofs.Attribute.Coercion
import Scim.Proofs.Attribute.Problems
import Scim.Proofs.Resource.Validation
import Scim.Proofs.Resource.Declared
import Scim.Proofs.Attribute.Retention
import Scim.Proofs.Resource.Retention
import Scim.Proofs.Attribute.Readback
import Scim.Proofs.Resource.Filling
import Scim.Proofs.Attribute.LetterCase
import Scim.Proofs.Attribute.Numerals
import Scim.Proofs.Attribute.Decimals
import Scim.Proofs.Resource.Directory
import Scim.Proofs.Attribute.Children
import Scim.Proofs.Attribute.Spelling
import Scim.Proofs.Attribute.Failure
import Scim.Proofs.Conversion
import Scim.Proofs.Schema.Conditions
import Scim.Proofs.Registry
import Scim.Proofs.Time.Forms
import Scim.Proofs.Time.Stamp
import Scim.Proofs.Meta
import Scim.Proofs.Attribute.Digits
import Scim.Proofs.Attribute.Canonical
import Scim.Proofs.Schema.Warnings
import Scim.Proofs.Validator
