import BoundSelect.Text.Hex

/-!
# Universally unique identifiers

Sixteen bytes, written as hexadecimal digits in five groups with hyphens between them.
-/

set_option autoImplicit false

namespace BoundSelect

/-- Sixteen bytes that name something. -/
structure Uuid where
  bytes : List UInt8
  length_bytes : bytes.length = 16
  deriving DecidableEq

namespace Uuid

/-- The numbers of digits in the groups. -/
def groups : List Nat := [8, 4, 4, 4, 12]

/-- Cuts digits into groups; what is left over forms none. -/
def cut : List Nat → List Char → List (List Char)
  | [], _ => []
  | n :: ns, cs => cs.take n :: cut ns (cs.drop n)

/-- The written identifier, in lower case. -/
def text (u : Uuid) : List Char :=
  ['-'].intercalate (cut groups (Text.hexBytes u.bytes))

end Uuid

end BoundSelect
