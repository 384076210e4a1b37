import BoundSelect.Json.Document
import BoundSelect.Json.Library
import BoundSelect.Json.Printer

/-!
# A plain library for JSON

A form writes a value as a JSON value and reads it from a document. One of several values is read
from its name, or from an object whose one member has this name and holds null. A record is read
from an object with its members in any order, or from an array of their values. What is left out
takes its default, and members with other names are passed over; a field given twice is refused.
-/

set_option autoImplicit false

namespace BoundSelect.Json

/-- A form of values as JSON values and as documents. -/
structure PlainForm (α : Type) where
  json : α → Json
  ofDocument? : Document → Option α

namespace PlainForm

variable {α : Type}

/-- A word is read from digits alone. -/
def word : PlainForm UInt64 where
  json n := .whole n.toNat
  ofDocument?
    | .numeral ⟨false, digits, [], none⟩ =>
      if natOfDigits digits ≤ wordMax then some (UInt64.ofNat (natOfDigits digits)) else none
    | _ => none

/-- Null stands for no value. -/
def optional (form : PlainForm α) : PlainForm (Option α) where
  json
    | none => .null
    | some a => form.json a
  ofDocument?
    | .null => some none
    | d => (form.ofDocument? d).map some

/-- The value that has a name. -/
def find? (values : List α) (name : α → String) (aliases : α → List String) (s : String) :
    Option α :=
  values.find? fun a => s = name a ∨ s ∈ aliases a

def oneOf (values : List α) (name : α → String) (aliases : α → List String) : PlainForm α where
  json a := .string (name a)
  ofDocument?
    | .string s => (stringOf? s).bind (find? values name aliases)
    | .object [(k, .null)] => (stringOf? k).bind (find? values name aliases)
    | _ => none

/-! ## Records -/

/-- Members with their names as texts; all of them must be texts. -/
def namedMembers? : List (List StringUnit × Document) → Option (List (String × Document))
  | [] => some []
  | (k, d) :: ms => do
    let name ← stringOf? k
    let members ← namedMembers? ms
    return (name, d) :: members

/-- Sets the fields of a record that have a member. -/
def fill (members : List (String × Document)) : List (Field PlainForm α) → α → Option α
  | [], a => some a
  | field :: fields, a =>
    match Document.valuesOf field.name members with
    | [] => fill members fields a
    | [d] => (field.form.ofDocument? d).bind fun x => fill members fields (field.put a x)
    | _ => none

/-- Sets the first fields of a record, one for each item. -/
def fillInOrder : List (Field PlainForm α) → List Document → α → Option α
  | _, [], a => some a
  | field :: fields, d :: ds, a =>
    (field.form.ofDocument? d).bind fun x => fillInOrder fields ds (field.put a x)
  | [], _ :: _, _ => none

def record (dflt : α) (fields : List (Field PlainForm α)) : PlainForm α where
  json a := .object (fields.map fun field => (field.name, field.form.json (field.get a)))
  ofDocument?
    | .object ms => (namedMembers? ms).bind fun members => fill members fields dflt
    | .array items => fillInOrder fields items dflt
    | _ => none

end PlainForm

/-- The library of plain forms. -/
abbrev plain : Library where
  Form := PlainForm
  word := .word
  optional := .optional
  oneOf := .oneOf
  record := .record
  write form a := (form.json a).printed
  read? form text := (Document.ofText? text.toList).bind form.ofDocument?

end BoundSelect.Json
