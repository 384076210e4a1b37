import BoundSelect.Json.Token

/-!
# JSON documents

A document is the tree that the tokens of a JSON text form: its numbers are still digits, its
strings are still units, and its objects have all the members that were written, in their order. It
is what the grammar alone says about a text; what the text means is left to those who ask.

The tree is formed by a machine that takes one token at a time. Its state is what it waits for,
with the unfinished arrays and objects around that place, the innermost first.
-/

set_option autoImplicit false

namespace BoundSelect.Json

/-- The tree of a JSON text. -/
inductive Document where
  | null
  | bool (b : Bool)
  | numeral (n : Numeral)
  | string (s : List StringUnit)
  | array (items : List Document)
  | object (members : List (List StringUnit × Document))

namespace Document

/-- What the members with a name hold. -/
def valuesOf (name : String) (members : List (String × Document)) : List Document :=
  (members.filter fun m => m.1 = name).map fun m => m.2

/-- An unfinished array with its items so far, or an unfinished object with its members so far and
the name of the next one. -/
inductive Frame where
  | array (done : List Document)
  | object (done : List (List StringUnit × Document)) (name : List StringUnit)

/-- What may come next. -/
inductive State where
  /-- A value. -/
  | value (around : List Frame)
  /-- The first item of an array, or its end. -/
  | firstItem (around : List Frame)
  /-- The first name of an object, or its end. -/
  | firstName (around : List Frame)
  /-- A name, after a comma. -/
  | name (done : List (List StringUnit × Document)) (around : List Frame)
  /-- The colon after a name. -/
  | colon (done : List (List StringUnit × Document)) (name : List StringUnit) (around : List Frame)
  /-- A comma or an end, after a whole value; the end of the text if nothing is around it. -/
  | complete (d : Document) (around : List Frame)

/-- Takes the first token of a value. -/
def State.begin (around : List Frame) : Token → Option State
  | .null => some (.complete .null around)
  | .bool b => some (.complete (.bool b) around)
  | .numeral n => some (.complete (.numeral n) around)
  | .string s => some (.complete (.string s) around)
  -- an array or an object opens a place of its own, whose frame is added with its first part
  | .openBracket => some (.firstItem around)
  | .openBrace => some (.firstName around)
  | _ => none

/-- Takes one token. -/
def State.step : State → Token → Option State
  | .value around, t => State.begin around t
  | .firstItem around, .closeBracket => some (.complete (.array []) around)
  | .firstItem around, t => State.begin (.array [] :: around) t
  | .firstName around, .closeBrace => some (.complete (.object []) around)
  | .firstName around, .string k => some (.colon [] k around)
  | .name done around, .string k => some (.colon done k around)
  | .colon done k around, .colon => some (.value (.object done k :: around))
  | .complete d (.array done :: around), .comma => some (.value (.array (done ++ [d]) :: around))
  | .complete d (.array done :: around), .closeBracket =>
    some (.complete (.array (done ++ [d])) around)
  | .complete d (.object done k :: around), .comma => some (.name (done ++ [(k, d)]) around)
  | .complete d (.object done k :: around), .closeBrace =>
    some (.complete (.object (done ++ [(k, d)])) around)
  | _, _ => none

/-- The tree of a sequence of tokens, if they are one whole value. -/
def ofTokens? (ts : List Token) : Option Document :=
  match ts.foldlM State.step (State.value []) with
  | some (.complete d []) => some d
  | _ => none

/-- The tree of a text. -/
def ofText? (cs : List Char) : Option Document :=
  (tokens? cs).bind ofTokens?

end Document

/-! ## Strings and whole numbers -/

/-- The characters of a string. Two code units in a row make one character when the first is a high
and the second a low surrogate; a surrogate outside such a pair makes none. -/
def characters? : List StringUnit → Option (List Char)
  | [] => some []
  | .char c :: us => (characters? us).map (c :: ·)
  | .unit hi :: .unit lo :: us =>
    -- a pair of surrogates: ten bits from each
    if 0xD800 ≤ hi ∧ hi < 0xDC00 ∧ 0xDC00 ≤ lo ∧ lo < 0xE000 then
      (characters? us).map (Char.ofNat (0x10000 + 0x400 * (hi - 0xD800) + (lo - 0xDC00)) :: ·)
    else if 0xD800 ≤ hi ∧ hi < 0xE000 then none
    else (characters? (.unit lo :: us)).map (Char.ofNat hi :: ·)
  | .unit n :: us =>
    if 0xD800 ≤ n ∧ n < 0xE000 then none else (characters? us).map (Char.ofNat n :: ·)

/-- The text of a string. -/
def stringOf? (s : List StringUnit) : Option String :=
  (characters? s).map String.ofList

/-- The natural number that digits stand for. -/
def natOfDigits (ds : List Char) : Nat :=
  Nat.ofDigitChars 10 ds 0

/-- The largest natural number that fits a word. -/
def wordMax : Nat := UInt64.size - 1

end BoundSelect.Json
