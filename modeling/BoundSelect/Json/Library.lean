/-!
# Values in JSON

How the values of a type are put in JSON is described by a form. A library has forms for words, for
values that may be missing, for types of a few values with names, and for records, and by a form it
writes and reads texts. What its forms are and how it goes through a text is left open.
-/

set_option autoImplicit false

namespace BoundSelect.Json

/-- A field of a record: its name, the form of its values, and how it is looked up and set. -/
structure Field (Form : Type → Type) (α : Type) where
  {Value : Type}
  name : String
  form : Form Value
  get : α → Value
  put : α → Value → α

/-- A library for texts in JSON. -/
structure Library where
  /-- The forms of the values of a type. -/
  Form : Type → Type
  word : Form UInt64
  optional {α : Type} (form : Form α) : Form (Option α)
  /-- One of these values, by its name. Some of them have further names, which are only read. -/
  oneOf {α : Type} (values : List α) (name : α → String) (aliases : α → List String) : Form α
  /-- A record with these fields. A field that is left out is that of a default record. -/
  record {α : Type} (dflt : α) (fields : List (Field Form α)) : Form α
  write {α : Type} (form : Form α) (a : α) : String
  read? {α : Type} (form : Form α) (text : String) : Option α

end BoundSelect.Json
