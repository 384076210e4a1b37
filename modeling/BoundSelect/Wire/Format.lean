import BoundSelect.Wire.Encoders

/-!
# The binary format

Numbers have their highest byte first, whole numbers are in two's complement, texts in UTF-8.
Instants and dates are counted from the start of 2000. An array has a header, and every member has
its length in front.

`Encoders.Documented` says that the encoders of a driver follow this format: which kinds of types
each is made for, and what it writes for them.
-/

set_option autoImplicit false

namespace BoundSelect

namespace Wire

/-! ## Bytes -/

/-- The lowest bytes of a natural number, the lowest first. -/
def lowBytes : Nat → Nat → List UInt8
  | 0, _ => []
  | width + 1, n => UInt8.ofNat n :: lowBytes width (n / 256)

/-- The lowest bytes of a natural number, the highest of them first. -/
def natBytes (width n : Nat) : List UInt8 :=
  (lowBytes width n).reverse

/-- A whole number in so many bytes, as its residue modulo the power of two. -/
def intBytes (width : Nat) (n : Int) : List UInt8 :=
  natBytes width (n % (Nat.pow 256 width : Nat)).toNat

/-- The UTF-8 form of a text. -/
def utf8 (s : String) : List UInt8 :=
  s.toUTF8.data.toList

/-- An instant in microseconds since the start of 2000, cut towards it. -/
def microBytes (t : Timestamp) : List UInt8 :=
  intBytes 8 ((t.nanosSince 2000).tdiv 1000)

/-- The length of an encoded member before its bytes; null has the length minus one. -/
def memberBytes : Option (List UInt8) → List UInt8
  | none => intBytes 4 (-1)
  | some bs => intBytes 4 bs.length ++ bs

/-- The bytes of an array: the number of dimensions, whether a member is null, the number of the
member type, the number of members, the index of the first, and the members. -/
def arrayBytes (oid : UInt32) (lowerBound : Int) (members : List (Option (List UInt8))) :
    List UInt8 :=
  intBytes 4 1 ++ intBytes 4 (if members.any Option.isNone then 1 else 0) ++
    natBytes 4 oid.toNat ++ intBytes 4 members.length ++ intBytes 4 lowerBound ++
    members.flatMap memberBytes

/-- Whether the bytes of a member, if it has any, are few enough for their number to be written. -/
def MemberFits (member : Option (List UInt8)) : Prop :=
  (member.getD []).length < 2147483648

instance (member : Option (List UInt8)) : Decidable (MemberFits member) :=
  inferInstanceAs (Decidable (_ < _))

/-! ## The forms of values -/

variable {T X : Type}

/-- What an encoder is made for, and what it then writes: a form for each such kind of types. -/
abbrev Forms (T X : Type) := TypeKind T → Option (X → List UInt8)

namespace Forms

def bool : Forms T Bool
  | .bool => some fun b => [if b then 1 else 0]
  | _ => none

def int16 : Forms T Int16
  | .int2 => some fun n => intBytes 2 n.toInt
  | _ => none

def int32 : Forms T Int32
  | .int4 => some fun n => intBytes 4 n.toInt
  | _ => none

def int64 : Forms T Int64
  | .int8 => some fun n => intBytes 8 n.toInt
  | _ => none

def single : Forms T UInt32
  | .float4 => some fun bits => natBytes 4 bits.toNat
  | _ => none

def double : Forms T Binary64
  | .float8 => some fun x => natBytes 8 x.bits.toNat
  | _ => none

def text : Forms T String
  | .text => some utf8
  | .versionedText => some fun s => 1 :: utf8 s
  | _ => none

def bytes : Forms T (List UInt8)
  | .bytea => some id
  | _ => none

def naive : Forms T Timestamp
  | .timestamp => some microBytes
  | _ => none

def instant : Forms T Timestamp
  | .timestamptz => some microBytes
  | _ => none

/-- Days since the start of 2000. -/
def date : Forms T Date
  | .date => some fun d => intBytes 4 (d.dayNumber - Calendar.yearStart 2000)
  | _ => none

def uuid : Forms T Uuid
  | .uuid => some Uuid.bytes
  | _ => none

/-- A document is written as the text that it is printed as. -/
def json (printed : Json → String) : Forms T Json
  | .json => some fun j => utf8 (printed j)
  | .jsonb => some fun j => 1 :: utf8 (printed j)
  | _ => none

end Forms

/-! ## Encoders that follow the format -/

/-- An encoder has certain forms: it is made for the types whose kind has one, and writes this. -/
structure Encoder.HasForms (e : Encoder T X) (kind : T → TypeKind T) (forms : Forms T X) :
    Prop where
  accepts : ∀ type, e.accepts type = (forms (kind type)).isSome
  write : ∀ x type form, forms (kind type) = some form → e.write x type = .ok (some (form x))

/-- Encodes members as a type, from the first to the last, up to the first fault. -/
def encodeMembers (type : T) :
    List (T → Encoded T) → Except (EncodeFault T) (List (Option (List UInt8)))
  | [] => .ok []
  | item :: items =>
    match item type with
    | .error fault => .error fault
    | .ok part => (encodeMembers type items).map (part :: ·)

/-- Whether the number of members, and of the bytes of each that is encoded as the type, can be
written as a signed number of four bytes. -/
structure MembersFit (type : T) (items : List (T → Encoded T)) : Prop where
  count : items.length < 2147483648
  parts : ∀ item ∈ items, ∀ part, item type = .ok part → MemberFits part

/-- The encoders follow the binary format, and documents are printed in a certain way. The encoder
of lists is made for the array types whose member type its members are made for. It encodes the
members in order and writes them behind a header; lengths that cannot be written are its only own
fault. -/
structure Encoders.Documented (encoders : Encoders T) (printed : Json → String) : Prop where
  bool : encoders.bool.HasForms encoders.kind Forms.bool
  int16 : encoders.int16.HasForms encoders.kind Forms.int16
  int32 : encoders.int32.HasForms encoders.kind Forms.int32
  int64 : encoders.int64.HasForms encoders.kind Forms.int64
  single : encoders.single.HasForms encoders.kind Forms.single
  double : encoders.double.HasForms encoders.kind Forms.double
  text : encoders.text.HasForms encoders.kind Forms.text
  bytes : encoders.bytes.HasForms encoders.kind Forms.bytes
  naive : encoders.naive.HasForms encoders.kind Forms.naive
  instant : encoders.instant.HasForms encoders.kind Forms.instant
  date : encoders.date.HasForms encoders.kind Forms.date
  uuid : encoders.uuid.HasForms encoders.kind Forms.uuid
  json : encoders.json.HasForms encoders.kind (Forms.json printed)
  list_accepts : ∀ (accepts : T → Bool) (type : T), (encoders.list accepts).accepts type = true ↔
    ∃ member, encoders.kind type = .array member ∧ accepts member = true
  list_write : ∀ (accepts : T → Bool) (type member : T) (items : List (T → Encoded T)),
    encoders.kind type = .array member → MembersFit member items →
    ∃ lowerBound : Int, (-2147483648 ≤ lowerBound ∧ lowerBound < 2147483648) ∧
      (encoders.list accepts).write items type = (encodeMembers member items).map
        fun parts => some (arrayBytes (encoders.oid member) lowerBound parts)
  list_fits : ∀ (accepts : T → Bool) (type member : T) (items : List (T → Encoded T))
    (part : Option (List UInt8)), encoders.kind type = .array member →
    (encoders.list accepts).write items type = .ok part → MembersFit member items

end Wire

end BoundSelect
