import BoundSelect.Value

/-!
# Encoders of a database

A value is sent to the database as bytes, by an encoder for values of its kind and as the type that
its placeholder was declared with. Types and encoders belong to a driver. What is used of them is
here: by which kinds types are told apart, and one encoder for each kind of value, which says for
which types it is made. What the encoders write is left open.
-/

set_option autoImplicit false

namespace BoundSelect

namespace Wire

/-- What a database type is for an encoder. The types of texts and of documents come in two forms,
one of which has the number of a version in front. -/
inductive TypeKind (T : Type) where
  | bool
  | int2 | int4 | int8
  | float4 | float8
  | text | versionedText
  | bytea
  | timestamp | timestamptz | date
  | uuid
  | json | jsonb
  | array (member : T)
  | other
  deriving DecidableEq

/-- Why a value has no binary form for a type. -/
inductive EncodeFault (T : Type) where
  /-- The kind of the value does not fit the type. -/
  | wrongType (type : T)
  /-- A whole number is too large or too small for the type. -/
  | outOfRange
  /-- An encoder has a cause of its own. -/
  | unwritable (reason : String)
  deriving DecidableEq

/-- The bytes of an encoded value; null has none. -/
abbrev Encoded (T : Type) := Except (EncodeFault T) (Option (List UInt8))

/-- An encoder of values of type `X`, and the types that it is made for. -/
structure Encoder (T X : Type) where
  accepts : T → Bool
  write : X → T → Encoded T

/-- Encodes a value as a type that the encoder is made for. -/
def Encoder.checked {T X : Type} (e : Encoder T X) (x : X) (type : T) : Encoded T :=
  if e.accepts type then e.write x type else .error (.wrongType type)

/-- The types of a driver and its encoders. Members of a list are given as what encodes them, since
the encoder of lists is made for members of all kinds: it takes the types that these are made
for. -/
structure Encoders (T : Type) where
  kind : T → TypeKind T
  /-- The number by which the database knows a type. -/
  oid : T → UInt32
  bool : Encoder T Bool
  int16 : Encoder T Int16
  int32 : Encoder T Int32
  int64 : Encoder T Int64
  /-- Numbers of single precision are given by their bits. -/
  single : Encoder T UInt32
  double : Encoder T Binary64
  text : Encoder T String
  bytes : Encoder T (List UInt8)
  /-- An instant as date and time of day in universal time. -/
  naive : Encoder T Timestamp
  instant : Encoder T Timestamp
  date : Encoder T Date
  uuid : Encoder T Uuid
  json : Encoder T Json
  list : (T → Bool) → Encoder T (List (T → Encoded T))

end Wire

end BoundSelect
