import BoundSelect.Wire.Encoders

/-!
# The binary form of values

The kind of a value decides which encoder writes it, so a value that was bound to a placeholder of
another type is a fault and never bytes that the database would misread. Null fits every type and
has no bytes. A whole number is narrowed to the width of its type first, and the members of an array
are encoded in turn.
-/

set_option autoImplicit false

namespace BoundSelect

namespace Wire

variable {T : Type}

/-- A whole number as one of a shorter kind, which has the numbers from `-bound` to below
`bound`. -/
def narrow {N : Type} (bound : Int) (cut : Int64 → N) (n : Int64) : Except (EncodeFault T) N :=
  if -bound ≤ n.toInt ∧ n.toInt < bound then .ok (cut n) else .error .outOfRange

/-- Values are made for all types: which of them they fit is seen when they are written. -/
def accepts (_ : T) : Bool := true

mutual

/-- Writes a value as a type. -/
def write (encoders : Encoders T) : Value → T → Encoded T
  | .null, _ => .ok none
  | .bool b, type => encoders.bool.checked b type
  | .int n, type =>
    match encoders.kind type with
    | .int2 => (narrow 32768 Int64.toInt16 n).bind fun n => encoders.int16.checked n type
    | .int4 => (narrow 2147483648 Int64.toInt32 n).bind fun n => encoders.int32.checked n type
    | _ => encoders.int64.checked n type
  | .float x, type =>
    match encoders.kind type with
    | .float4 => encoders.single.checked x.toSingle type
    | _ => encoders.double.checked x type
  | .text s, type => encoders.text.checked s type
  | .bytes bs, type => encoders.bytes.checked bs type
  | .timestamp t, type =>
    match encoders.kind type with
    | .timestamp => encoders.naive.checked t type
    | _ => encoders.instant.checked t type
  | .date d, type => encoders.date.checked d type
  | .uuid u, type => encoders.uuid.checked u type
  | .json j, type => encoders.json.checked j type
  -- refuses types that are no array types; the members see to their own type
  | .array members, type => (encoders.list accepts).checked (writeAll encoders members) type

/-- What writes each of the values. -/
def writeAll (encoders : Encoders T) : List Value → List (T → Encoded T)
  | [] => []
  | v :: vs => write encoders v :: writeAll encoders vs

end

/-- The binary form of a value as a type. -/
def encode (encoders : Encoders T) (v : Value) (type : T) : Encoded T :=
  Encoder.checked ⟨accepts, write encoders⟩ v type

end Wire

end BoundSelect
