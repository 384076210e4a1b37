import BoundSelect.Calendar.Timestamp
import BoundSelect.Json.Printer
import BoundSelect.Uuid

/-!
# Bound values

Every literal of a statement is a value: it is never part of the text, only bound to a placeholder
in it. Values of different kinds are never equal, and floating-point numbers are equal as numbers.
-/

set_option autoImplicit false

namespace BoundSelect

/-- A value that can be bound to a placeholder. -/
inductive Value where
  | null
  | bool (b : Bool)
  | int (n : Int64)
  | float (x : Binary64)
  | text (s : String)
  | bytes (bs : List UInt8)
  | timestamp (t : Timestamp)
  | date (d : Date)
  | uuid (u : Uuid)
  | json (j : Json)
  | array (members : List Value)

namespace Value

/-- Whether the value is null. -/
def isNull : Value → Bool
  | .null => true
  | _ => false

/-- The name of the kind of a value. -/
def kind : Value → String
  | .null => "null"
  | .bool _ => "bool"
  | .int _ => "int"
  | .float _ => "float"
  | .text _ => "text"
  | .bytes _ => "bytes"
  | .timestamp _ => "timestamp"
  | .date _ => "date"
  | .uuid _ => "uuid"
  | .json _ => "json"
  | .array _ => "array"

mutual

/-- Equality of values. -/
def same : Value → Value → Bool
  | .null, .null => true
  | .bool a, .bool b => a == b
  | .int m, .int n => m == n
  | .float x, .float y => x.same y
  | .text s, .text t => s == t
  | .bytes a, .bytes b => a == b
  | .timestamp s, .timestamp t => s == t
  | .date c, .date d => c == d
  | .uuid u, .uuid v => u == v
  | .json i, .json j => i.same j
  | .array xs, .array ys => sameAll xs ys
  | _, _ => false

/-- Equality of lists of values, one by one. -/
def sameAll : List Value → List Value → Bool
  | [], [] => true
  | x :: xs, y :: ys => same x y && sameAll xs ys
  | _, _ => false

end

mutual

/-- The value in JSON. Its kind is not kept: bytes become numbers, and instants, dates and
identifiers become strings. -/
def toJson : Value → Json
  | .null => .null
  | .bool b => .bool b
  | .int n => .whole n.toInt
  | .float x => .real x
  | .text s => .string s
  | .bytes bs => .array (bs.map fun b => .whole b.toNat)
  | .timestamp t => .string (String.ofList t.text)
  | .date d => .string (String.ofList d.text)
  | .uuid u => .string (String.ofList u.text)
  | .json j => j
  | .array members => .array (allToJson members)

/-- Values in JSON, one by one. -/
def allToJson : List Value → List Json
  | [] => []
  | v :: vs => toJson v :: allToJson vs

end

end Value

end BoundSelect
