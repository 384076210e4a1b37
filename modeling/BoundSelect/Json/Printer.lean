import BoundSelect.Json
import BoundSelect.Number.Shortest
import BoundSelect.Text.Hex

/-!
# Written JSON

A value is written without any space. In a string only the quote, the backslash and the control
characters below the space are escaped.
-/

set_option autoImplicit false

namespace BoundSelect.Json

open Number

/-- Reals are written positionally from `0.00001` up to below ten to the sixteenth, and with an
exponent outside. -/
def realLayout : DecimalLayout := ⟨-4, 16, 'e'⟩

/-- The text of a real number. JSON has no infinities and no NaN, and `null` stands for them. -/
def realText (x : Binary64) : List Char :=
  if !x.isFinite then ['n', 'u', 'l', 'l']
  else
    let m := if x.magnitude = 0 then ['0', '.', '0'] else realLayout.text (shortest x)
    if x.negative then '-' :: m else m

/-- The text of a whole number. -/
def wholeText : Int → List Char
  | .ofNat n => Nat.toDigits 10 n
  | .negSucc n => '-' :: Nat.toDigits 10 (n + 1)

/-- A character inside a string. -/
def escape (c : Char) : List Char :=
  if c = '"' then ['\\', '"']
  else if c = '\\' then ['\\', '\\']
  else if 0x20 ≤ c.toNat then [c]
  else if c = '\x08' then ['\\', 'b']
  else if c = '\t' then ['\\', 't']
  else if c = '\n' then ['\\', 'n']
  else if c = '\x0c' then ['\\', 'f']
  else if c = '\r' then ['\\', 'r']
  else ['\\', 'u', '0', '0', Text.hexDigit (c.toNat / 16), Text.hexDigit c.toNat]

/-- A string between quotes. -/
def stringText (s : String) : List Char :=
  '"' :: (s.toList.flatMap escape ++ ['"'])

mutual

/-- The text of a value. -/
def text : Json → List Char
  | .null => ['n', 'u', 'l', 'l']
  | .bool true => ['t', 'r', 'u', 'e']
  | .bool false => ['f', 'a', 'l', 's', 'e']
  | .whole n => wholeText n
  | .real x => realText x
  | .string s => stringText s
  | .array items => '[' :: (itemsText items ++ [']'])
  | .object members => '{' :: (membersText members ++ ['}'])

/-- Items with commas between them. -/
def itemsText : List Json → List Char
  | [] => []
  | [x] => text x
  | x :: xs => text x ++ ',' :: itemsText xs

/-- Members with commas between them. -/
def membersText : List (String × Json) → List Char
  | [] => []
  | [(k, x)] => stringText k ++ ':' :: text x
  | (k, x) :: ms => stringText k ++ ':' :: text x ++ ',' :: membersText ms

end

/-- The printed value. -/
def printed (j : Json) : String :=
  String.ofList j.text

end BoundSelect.Json
