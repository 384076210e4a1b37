import BoundSelect.Proofs.Bytes
import BoundSelect.Proofs.Days
import BoundSelect.Wire.Standard

/-!
# The binary form is read back

`Wire.decode?` reads the bytes of a type without knowing which value they were made of. What it
gives is the value that was encoded (`Wire.decode?_encode`), as far as its binary form keeps it:
instants are cut to microseconds, numbers of single precision are rounded and documents are text.
The encoders may be any that follow the binary format.

Every number that is written fits its bytes: whole numbers are checked, instants and dates are
bounded by the years covered, and lengths that do not fit are refused.
-/

set_option autoImplicit false

namespace BoundSelect

/-! ## Instants -/

namespace Timestamp

open Calendar

/-- Cutting to microseconds loses less than one of them, and the microseconds are within the years
covered. -/
theorem micros_mem (t : Timestamp) :
    (t.nanosSince 2000 - (t.nanosSince 2000).tdiv 1000 * 1000).natAbs < 1000 ∧
      (yearSecond firstYear - yearSecond 2000) * 1000000 ≤ (t.nanosSince 2000).tdiv 1000 ∧
      (t.nanosSince 2000).tdiv 1000 <
        (yearSecond (lastYear + 1) + 1 - yearSecond 2000) * 1000000 := by
  obtain ⟨hfirst, hlast⟩ := t.covered
  have hnanos := t.nanos_lt
  have hnow : yearSecond 2000 < yearSecond (lastYear + 1) := by decide
  -- the last second may be a leap second
  have hmem : (yearSecond firstYear - yearSecond 2000) * 1000000000 ≤ t.nanosSince 2000 ∧
      t.nanosSince 2000 < (yearSecond (lastYear + 1) + 1 - yearSecond 2000) * 1000000000 := by
    unfold nanosSince
    constructor <;> omega
  have hsign : Int.sign 1000 = 1 := rfl
  generalize t.nanosSince 2000 = n at *
  rw [Int.tdiv_eq_ediv, hsign]
  -- before 2000 the cut is upwards
  split <;> omega

end Timestamp

namespace Wire

/-! ## Reading -/

/-- What bytes say in the form of a type. -/
inductive Reading where
  | null
  | bool (b : Bool)
  | int (n : Int)
  | single (bits : UInt32)
  | double (x : Binary64)
  | text (s : String)
  | bytes (bs : List UInt8)
  /-- An instant by the microseconds since the start of 2000. -/
  | instant (micros : Int)
  | date (d : Date)
  | uuid (u : Uuid)
  | array (members : List Reading)

/-- The text with this UTF-8 form. -/
def readText? (bs : List UInt8) : Option String :=
  String.fromUTF8? ⟨bs.toArray⟩

/-- The bytes, if there are just so many. -/
def exactly? (width : Nat) (bs : List UInt8) : Option (List UInt8) :=
  if bs.length = width then some bs else none

/-- The bytes behind the first, which is the number of the version. -/
def unversioned? : List UInt8 → Option (List UInt8)
  | [] => none
  | version :: bs => if version = 1 then some bs else none

variable {T : Type}

/-- Reads the form of a kind of types, if it is no array. A document is read as its text. -/
def readScalar? (kind : TypeKind T) (bs : List UInt8) : Option Reading :=
  match kind with
  | .bool => (exactly? 1 bs).map fun bs => .bool (readNat bs ≠ 0)
  | .int2 => (exactly? 2 bs).map fun bs => .int (readInt bs)
  | .int4 => (exactly? 4 bs).map fun bs => .int (readInt bs)
  | .int8 => (exactly? 8 bs).map fun bs => .int (readInt bs)
  | .float4 => (exactly? 4 bs).map fun bs => .single (.ofNat (readNat bs))
  | .float8 => (exactly? 8 bs).map fun bs => .double (.ofBits (readNat bs))
  | .text | .json => (readText? bs).map .text
  | .versionedText | .jsonb => (unversioned? bs >>= readText?).map .text
  | .bytea => some (.bytes bs)
  | .timestamp | .timestamptz => (exactly? 8 bs).map fun bs => .instant (readInt bs)
  | .date => do
    let bs ← exactly? 4 bs
    (Date.ofDayNumber? (Calendar.yearStart 2000 + readInt bs)).map .date
  | .uuid => if h : bs.length = 16 then some (.uuid ⟨bs, h⟩) else none
  | .array _ | .other => none

/-- Reads a member of an array, which is null if it has no bytes. -/
def readMember? (read : List UInt8 → Option Reading) : Option (List UInt8) → Option Reading
  | none => some .null
  | some bs => read bs

/-- Reads the form of a type in which arrays are in arrays less deep than `depth`. The header of an
array has the number of the member type, and its flag is set if and only if a member is null. -/
def decodeWithin (encoders : Encoders T) : Nat → T → List UInt8 → Option Reading
  | 0, _, _ => none
  | depth + 1, type, bs =>
    match encoders.kind type with
    | .array member => do
      let array ← readArray? bs
      if array.memberOid = (encoders.oid member).toNat ∧
          array.hasNull = array.members.any Option.isNone then
        (array.members.mapM (readMember? (decodeWithin encoders depth member))).map .array
      else none
    | kind => readScalar? kind bs

/-- Reads the form of a type. No array is deeper than it has bytes. -/
def decode? (encoders : Encoders T) (type : T) (bs : List UInt8) : Option Reading :=
  decodeWithin encoders (bs.length + 1) type bs

mutual

/-- Whether what was read is the value that was encoded as the type. An instant comes back up to
less than a microsecond, a number of single precision as the nearest one and a document as the text
that it is printed as; every other value is read as it was. -/
def Recovers (encoders : Encoders T) (printed : Json → String) : T → Value → Reading → Prop
  | _, .null, r => r = .null
  | _, .bool b, r => r = .bool b
  | _, .int n, r => r = .int n.toInt
  | type, .float x, r =>
    match encoders.kind type with
    | .float4 => r = .single x.toSingle
    | _ => r = .double x
  | _, .text s, r => r = .text s
  | _, .bytes bs, r => r = .bytes bs
  | _, .timestamp t, r =>
    ∃ micros, r = .instant micros ∧ (t.nanosSince 2000 - micros * 1000).natAbs < 1000
  | _, .date d, r => r = .date d
  | _, .uuid u, r => r = .uuid u
  | _, .json j, r => r = .text (printed j)
  | type, .array vs, r => ∃ member rs, encoders.kind type = .array member ∧ r = .array rs ∧
      RecoversAll encoders printed member vs rs

/-- Whether what was read are the values, one by one. -/
def RecoversAll (encoders : Encoders T) (printed : Json → String) :
    T → List Value → List Reading → Prop
  | _, [], [] => True
  | type, v :: vs, r :: rs =>
    Recovers encoders printed type v r ∧ RecoversAll encoders printed type vs rs
  | _, _, _ => False

end

/-! ## Scalars -/

theorem readText?_utf8 (s : String) : readText? (utf8 s) = some s := by
  have hbytes : (⟨(utf8 s).toArray⟩ : ByteArray) = s.toUTF8 := by simp [utf8]
  rw [readText?, hbytes, String.fromUTF8?]
  exact dif_pos s.isValidUTF8

theorem map_readText?_utf8 (s : String) :
    (readText? (utf8 s)).map Reading.text = some (.text s) := by
  rw [readText?_utf8, Option.map_some]

/-- A text behind the number of a version. -/
theorem map_unversioned?_utf8 (s : String) :
    (unversioned? (1 :: utf8 s) >>= readText?).map Reading.text = some (.text s) :=
  map_readText?_utf8 s

theorem exactly?_intBytes (width : Nat) (n : Int) :
    exactly? width (intBytes width n) = some (intBytes width n) :=
  if_pos (length_intBytes width n)

theorem exactly?_natBytes (width n : Nat) :
    exactly? width (natBytes width n) = some (natBytes width n) :=
  if_pos (length_natBytes width n)

/-- The microseconds between an instant and the start of 2000 fit eight bytes. -/
theorem readInt_microBytes (t : Timestamp) :
    readInt (microBytes t) = (t.nanosSince 2000).tdiv 1000 := by
  obtain ⟨-, hfirst, hlast⟩ := t.micros_mem
  have hspan : Calendar.yearSecond Calendar.firstYear - Calendar.yearSecond 2000 = -8335547913600 ∧
      Calendar.yearSecond (Calendar.lastYear + 1) + 1 - Calendar.yearSecond 2000 =
        8209320192001 := by
    decide
  have hpower : Nat.pow 256 8 = 18446744073709551616 := rfl
  exact readInt_intBytes (by omega) (by omega)

/-- The days between a date and the start of 2000 fit four bytes. -/
theorem readInt_intBytes_days (d : Date) :
    readInt (intBytes 4 (d.dayNumber - Calendar.yearStart 2000)) =
      d.dayNumber - Calendar.yearStart 2000 := by
  obtain ⟨hfirst, hlast⟩ := d.dayNumber_mem
  have hspan : Calendar.yearStart Calendar.firstYear - Calendar.yearStart 2000 = -96476249 ∧
      Calendar.yearStart (Calendar.lastYear + 1) - Calendar.yearStart 2000 = 95015280 := by
    decide
  have hpower : Nat.pow 256 4 = 4294967296 := rfl
  exact readInt_intBytes (by omega) (by omega)

section

variable {X : Type} {e : Encoder T X} {kind : T → TypeKind T} {forms : Forms T X} {x : X} {type : T}

/-- What an encoder writes is one of its forms. -/
theorem Encoder.HasForms.exists_of_checked (he : e.HasForms kind forms)
    {part : Option (List UInt8)} (h : e.checked x type = .ok part) :
    ∃ form, forms (kind type) = some form ∧ part = some (form x) := by
  rw [checked, he.accepts] at h
  cases hform : forms (kind type) with
  | none => simp [hform] at h
  | some form =>
      rw [hform, Option.isSome_some, if_pos rfl, he.write x type form hform] at h
      cases h
      exact ⟨form, rfl, rfl⟩

/-- An encoder writes the form of the type. -/
theorem Encoder.HasForms.checked_eq (he : e.HasForms kind forms) {form : X → List UInt8}
    (hform : forms (kind type) = some form) (x : X) : e.checked x type = .ok (some (form x)) := by
  rw [checked, he.accepts, hform, Option.isSome_some, if_pos rfl]
  exact he.write x type form hform

/-- Null alone has no bytes, and no encoder is asked about it. -/
theorem Encoder.HasForms.isNone_of_checked (he : e.HasForms kind forms)
    {part : Option (List UInt8)} (h : e.checked x type = .ok part) : part.isNone = false := by
  obtain ⟨form, -, rfl⟩ := he.exists_of_checked h
  rfl

/-- What an encoder writes of a number that was narrowed is a form of this number, which is in
range. -/
theorem Encoder.HasForms.exists_of_narrowed (he : e.HasForms kind forms) {bound : Int}
    {cut : Int64 → X} {n : Int64} {part : Option (List UInt8)}
    (h : (narrow bound cut n).bind (fun m => e.checked m type) = .ok part) :
    ∃ form, forms (kind type) = some form ∧ part = some (form (cut n)) ∧
      -bound ≤ n.toInt ∧ n.toInt < bound := by
  unfold narrow at h
  split at h
  · next hrange =>
      obtain ⟨form, hform, hpart⟩ := he.exists_of_checked h
      exact ⟨form, hform, hpart, hrange⟩
  · cases h

end

section Scalars

variable {encoders : Encoders T} {printed : Json → String} {type : T} {bs : List UInt8}

/-- A whole number is read from the width of its type. -/
theorem readScalar?_int (hencoders : encoders.Documented printed) {n : Int64}
    (h : write encoders (.int n) type = .ok (some bs)) :
    readScalar? (encoders.kind type) bs = some (.int n.toInt) := by
  rw [write] at h
  split at h
  · next hkind =>
      obtain ⟨form, hform, hbytes, hlow, hhigh⟩ := hencoders.int16.exists_of_narrowed h
      rw [hkind] at hform
      cases hform
      cases hbytes
      have hcut : n.toInt16.toInt = n.toInt := by
        rw [Int64.toInt_toInt16]
        exact Int.bmod_eq_of_le (by omega) (by omega)
      have hpower : Nat.pow 256 2 = 65536 := rfl
      rw [hkind, readScalar?, exactly?_intBytes, Option.map_some,
        readInt_intBytes (by omega) (by omega), hcut]
  · next hkind =>
      obtain ⟨form, hform, hbytes, hlow, hhigh⟩ := hencoders.int32.exists_of_narrowed h
      rw [hkind] at hform
      cases hform
      cases hbytes
      have hcut : n.toInt32.toInt = n.toInt := by
        rw [Int64.toInt_toInt32]
        exact Int.bmod_eq_of_le (by omega) (by omega)
      have hpower : Nat.pow 256 4 = 4294967296 := rfl
      rw [hkind, readScalar?, exactly?_intBytes, Option.map_some,
        readInt_intBytes (by omega) (by omega), hcut]
  · obtain ⟨form, hform, hbytes⟩ := hencoders.int64.exists_of_checked h
    cases hkind : encoders.kind type <;> rw [hkind] at hform <;> cases hform
    cases hbytes
    have hlow := n.le_toInt
    have hhigh := n.toInt_lt
    have hpower : Nat.pow 256 8 = 18446744073709551616 := rfl
    rw [readScalar?, exactly?_intBytes, Option.map_some, readInt_intBytes (by omega) (by omega)]

theorem recovers_float {x : Binary64} (hencoders : encoders.Documented printed)
    (h : write encoders (.float x) type = .ok (some bs)) :
    ∃ r, readScalar? (encoders.kind type) bs = some r ∧
      Recovers encoders printed type (.float x) r := by
  rw [write] at h
  split at h
  · next hkind =>
      obtain ⟨form, hform, hbytes⟩ := hencoders.single.exists_of_checked h
      rw [hkind] at hform
      cases hform
      cases hbytes
      refine ⟨.single x.toSingle, ?_, ?_⟩
      · have hread : readNat (natBytes 4 x.toSingle.toNat) = x.toSingle.toNat :=
          (readNat_natBytes 4 _).trans (Nat.mod_eq_of_lt x.toSingle.toNat_lt)
        rw [hkind, readScalar?, exactly?_natBytes, Option.map_some, hread, UInt32.ofNat_toNat]
      · simp only [Recovers, hkind]
  · obtain ⟨form, hform, hbytes⟩ := hencoders.double.exists_of_checked h
    cases hkind : encoders.kind type <;> rw [hkind] at hform <;> cases hform
    cases hbytes
    refine ⟨.double x, ?_, ?_⟩
    · have hread : readNat (natBytes 8 x.bits.toNat) = x.bits.toNat :=
        (readNat_natBytes 8 _).trans (Nat.mod_eq_of_lt x.bits.toNat_lt)
      rw [readScalar?, exactly?_natBytes, Option.map_some, hread, Binary64.ofBits,
        UInt64.ofNat_toNat]
    · simp only [Recovers, hkind]

/-- Both types of instants have the same eight bytes. -/
theorem kind_of_write_timestamp {t : Timestamp} (hencoders : encoders.Documented printed)
    (h : write encoders (.timestamp t) type = .ok (some bs)) :
    (encoders.kind type = .timestamp ∨ encoders.kind type = .timestamptz) ∧ bs = microBytes t := by
  rw [write] at h
  split at h
  · next hkind =>
      obtain ⟨form, hform, hbytes⟩ := hencoders.naive.exists_of_checked h
      rw [hkind] at hform
      cases hform
      cases hbytes
      exact ⟨.inl hkind, rfl⟩
  · obtain ⟨form, hform, hbytes⟩ := hencoders.instant.exists_of_checked h
    cases hkind : encoders.kind type <;> rw [hkind] at hform <;> cases hform
    cases hbytes
    exact ⟨.inr rfl, rfl⟩

theorem write_timestamp_of_kind (hencoders : encoders.Documented printed) (t : Timestamp)
    (h : encoders.kind type = .timestamp ∨ encoders.kind type = .timestamptz) :
    write encoders (.timestamp t) type = .ok (some (microBytes t)) := by
  rw [write]
  rcases h with hkind | hkind
  · simp only [hkind]
    exact hencoders.naive.checked_eq (by rw [hkind]; rfl) t
  · simp only [hkind]
    exact hencoders.instant.checked_eq (by rw [hkind]; rfl) t

/-- A value that is no array is read of the bytes that it was written as. -/
theorem recovers_scalar {v : Value} (hencoders : encoders.Documented printed)
    (hscalar : ∀ vs, v ≠ .array vs) (h : write encoders v type = .ok (some bs)) :
    ∃ r, readScalar? (encoders.kind type) bs = some r ∧ Recovers encoders printed type v r := by
  cases v with
  | null => cases h
  | bool b =>
      obtain ⟨form, hform, hbytes⟩ := hencoders.bool.exists_of_checked h
      cases hkind : encoders.kind type <;> rw [hkind] at hform <;> cases hform
      cases hbytes
      refine ⟨.bool b, ?_, rfl⟩
      cases b <;> rfl
  | int n => exact ⟨_, readScalar?_int hencoders h, rfl⟩
  | float x => exact recovers_float hencoders h
  | text s =>
      obtain ⟨form, hform, hbytes⟩ := hencoders.text.exists_of_checked h
      refine ⟨.text s, ?_, rfl⟩
      cases hkind : encoders.kind type <;> rw [hkind] at hform <;> cases hform <;> cases hbytes
      · exact map_readText?_utf8 s
      · exact map_unversioned?_utf8 s
  | bytes bytes =>
      obtain ⟨form, hform, hbytes⟩ := hencoders.bytes.exists_of_checked h
      cases hkind : encoders.kind type <;> rw [hkind] at hform <;> cases hform
      cases hbytes
      exact ⟨.bytes bytes, rfl, rfl⟩
  | timestamp t =>
      obtain ⟨hkind, rfl⟩ := kind_of_write_timestamp hencoders h
      refine ⟨.instant ((t.nanosSince 2000).tdiv 1000), ?_, _, rfl, t.micros_mem.1⟩
      have hlength : exactly? 8 (microBytes t) = some (microBytes t) := exactly?_intBytes 8 _
      rcases hkind with hkind | hkind <;>
        rw [hkind, readScalar?, hlength, Option.map_some, readInt_microBytes]
  | date d =>
      obtain ⟨form, hform, hbytes⟩ := hencoders.date.exists_of_checked h
      cases hkind : encoders.kind type <;> rw [hkind] at hform <;> cases hform
      cases hbytes
      refine ⟨.date d, ?_, rfl⟩
      have hday : Calendar.yearStart 2000 + (d.dayNumber - Calendar.yearStart 2000) =
          d.dayNumber := by omega
      rw [readScalar?, exactly?_intBytes]
      simp only [Option.bind_eq_bind, Option.bind_some, readInt_intBytes_days, hday,
        d.ofDayNumber?_dayNumber, Option.map_some]
  | uuid u =>
      obtain ⟨form, hform, hbytes⟩ := hencoders.uuid.exists_of_checked h
      cases hkind : encoders.kind type <;> rw [hkind] at hform <;> cases hform
      cases hbytes
      exact ⟨.uuid u, dif_pos u.length_bytes, rfl⟩
  | json j =>
      obtain ⟨form, hform, hbytes⟩ := hencoders.json.exists_of_checked h
      refine ⟨.text (printed j), ?_, rfl⟩
      cases hkind : encoders.kind type <;> rw [hkind] at hform <;> cases hform <;> cases hbytes
      · exact map_readText?_utf8 (printed j)
      · exact map_unversioned?_utf8 (printed j)
  | array vs => exact absurd rfl (hscalar vs)

/-- No array type has a scalar for its values. -/
theorem decodeWithin_of_readScalar? {r : Reading} {depth : Nat}
    (h : readScalar? (encoders.kind type) bs = some r) :
    decodeWithin encoders (depth + 1) type bs = some r := by
  cases hkind : encoders.kind type with
  | array member =>
      rw [hkind] at h
      cases h
  | _ =>
      rw [hkind] at h
      simp only [decodeWithin, hkind]
      exact h

end Scalars

/-! ## Arrays -/

section Arrays

variable {encoders : Encoders T} {printed : Json → String} {type member : T}

/-- What is written of an array: a header, and the members as the member type. -/
theorem exists_of_write_array (hencoders : encoders.Documented printed) {vs : List Value}
    {part : Option (List UInt8)} (h : write encoders (.array vs) type = .ok part) :
    ∃ (member : T) (lowerBound : Int) (parts : List (Option (List UInt8))),
      encoders.kind type = .array member ∧
      (-2147483648 ≤ lowerBound ∧ lowerBound < 2147483648) ∧
      MembersFit member (writeAll encoders vs) ∧
      encodeMembers member (writeAll encoders vs) = .ok parts ∧
      part = some (arrayBytes (encoders.oid member) lowerBound parts) := by
  rw [write, Encoder.checked] at h
  split at h
  · next haccepts =>
      obtain ⟨member, hkind, -⟩ := (hencoders.list_accepts _ _).1 haccepts
      have hfits := hencoders.list_fits _ _ _ _ _ hkind h
      obtain ⟨lowerBound, hbound, hwrite⟩ := hencoders.list_write accepts _ _ _ hkind hfits
      rw [hwrite] at h
      cases hparts : encodeMembers member (writeAll encoders vs) with
      | error fault =>
          rw [hparts] at h
          cases h
      | ok parts =>
          rw [hparts] at h
          cases h
          exact ⟨member, lowerBound, parts, hkind, hbound, hfits, hparts, rfl⟩
  · cases h

/-- Null alone has no bytes. -/
theorem isNone_eq_isNull {v : Value} {part : Option (List UInt8)}
    (hencoders : encoders.Documented printed) (h : write encoders v type = .ok part) :
    part.isNone = v.isNull := by
  cases v with
  | null =>
      cases h
      rfl
  | bool b => exact hencoders.bool.isNone_of_checked h
  | int n =>
      rw [write] at h
      split at h
      · obtain ⟨form, -, rfl, -⟩ := hencoders.int16.exists_of_narrowed h
        rfl
      · obtain ⟨form, -, rfl, -⟩ := hencoders.int32.exists_of_narrowed h
        rfl
      · exact hencoders.int64.isNone_of_checked h
  | float x =>
      rw [write] at h
      split at h
      · exact hencoders.single.isNone_of_checked h
      · exact hencoders.double.isNone_of_checked h
  | text s => exact hencoders.text.isNone_of_checked h
  | bytes bs => exact hencoders.bytes.isNone_of_checked h
  | timestamp t =>
      rw [write] at h
      split at h
      · exact hencoders.naive.isNone_of_checked h
      · exact hencoders.instant.isNone_of_checked h
  | date d => exact hencoders.date.isNone_of_checked h
  | uuid u => exact hencoders.uuid.isNone_of_checked h
  | json j => exact hencoders.json.isNone_of_checked h
  | array vs =>
      obtain ⟨member, lowerBound, parts, -, -, -, -, rfl⟩ := exists_of_write_array hencoders h
      rfl

theorem writeAll_eq_map (vs : List Value) : writeAll encoders vs = vs.map (write encoders) := by
  induction vs with
  | nil => rfl
  | cons v vs ih => rw [writeAll, ih, List.map_cons]

/-- The members of an array that are encoded, one by one. -/
theorem encodeMembers_cons {v : Value} {vs : List Value} {parts : List (Option (List UInt8))}
    (h : encodeMembers member (writeAll encoders (v :: vs)) = .ok parts) :
    ∃ part rest, write encoders v member = .ok part ∧
      encodeMembers member (writeAll encoders vs) = .ok rest ∧ parts = part :: rest := by
  rw [writeAll, encodeMembers] at h
  split at h
  · cases h
  · next part hpart =>
      cases hrest : encodeMembers member (writeAll encoders vs) with
      | error fault =>
          rw [hrest] at h
          cases h
      | ok rest =>
          rw [hrest] at h
          cases h
          exact ⟨part, rest, hpart, rfl, rfl⟩

theorem map_isNone (hencoders : encoders.Documented printed) {vs : List Value}
    {parts : List (Option (List UInt8))}
    (h : encodeMembers member (writeAll encoders vs) = .ok parts) :
    parts.map Option.isNone = vs.map Value.isNull := by
  induction vs generalizing parts with
  | nil =>
      rw [writeAll, encodeMembers] at h
      cases h
      rfl
  | cons v vs ih =>
      obtain ⟨part, rest, hpart, hrest, rfl⟩ := encodeMembers_cons h
      rw [List.map_cons, List.map_cons, isNone_eq_isNull hencoders hpart, ih hrest]

theorem memberFits_of_encodeMembers {items : List (T → Encoded T)}
    {parts : List (Option (List UInt8))}
    (hfits : ∀ item ∈ items, ∀ part, item member = .ok part → MemberFits part)
    (h : encodeMembers member items = .ok parts) : ∀ part ∈ parts, MemberFits part := by
  induction items generalizing parts with
  | nil =>
      cases h
      exact List.forall_mem_nil _
  | cons item items ih =>
      obtain ⟨hitem, hitems⟩ := List.forall_mem_cons.1 hfits
      rw [encodeMembers] at h
      split at h
      · cases h
      · next part hpart =>
          cases hrest : encodeMembers member items with
          | error fault =>
              rw [hrest] at h
              cases h
          | ok rest =>
              rw [hrest] at h
              cases h
              exact List.forall_mem_cons.2 ⟨hitem part hpart, ih hitems hrest⟩

/-- The header of an array tells its member type, its length and whether a member is null. -/
theorem readArray?_write (hencoders : encoders.Documented printed) {vs : List Value}
    {bs : List UInt8} (h : write encoders (.array vs) type = .ok (some bs)) :
    ∃ (member : T) (lowerBound : Int) (parts : List (Option (List UInt8))),
      encoders.kind type = .array member ∧
      encodeMembers member (writeAll encoders vs) = .ok parts ∧
      parts.any Option.isNone = vs.any Value.isNull ∧
      (∀ part, some part ∈ parts → part.length < bs.length) ∧
      readArray? bs = some ⟨vs.any Value.isNull, (encoders.oid member).toNat, vs.length, lowerBound,
        parts⟩ := by
  obtain ⟨member, lowerBound, parts, hkind, hbound, hfits, hparts, hbytes⟩ :=
    exists_of_write_array hencoders h
  cases hbytes
  have hnulls := map_isNone hencoders hparts
  have hany : parts.any Option.isNone = vs.any Value.isNull := by
    simpa using congrArg (List.any · id) hnulls
  have hlength : parts.length = vs.length := by simpa using congrArg List.length hnulls
  have hcount : parts.length < 2147483648 := by
    have hitems := hfits.count
    rwa [writeAll_eq_map, List.length_map, ← hlength] at hitems
  refine ⟨member, lowerBound, parts, hkind, hparts, hany, ?_, ?_⟩
  · intro part hpart
    exact length_lt_arrayBytes _ _ hpart
  · rw [readArray?_arrayBytes _ hbound hcount (memberFits_of_encodeMembers hfits.parts hparts),
      hany, hlength]

end Arrays

mutual

/-- What was written of a value is read as this value. -/
theorem decodeWithin_write {encoders : Encoders T} {printed : Json → String}
    (hencoders : encoders.Documented printed) (v : Value) {type : T} {bs : List UInt8}
    {depth : Nat} (h : write encoders v type = .ok (some bs)) (hdepth : bs.length < depth) :
    ∃ r, decodeWithin encoders depth type bs = some r ∧ Recovers encoders printed type v r := by
  match v, depth with
  | _, 0 => cases hdepth
  | .array vs, depth + 1 =>
      obtain ⟨member, lowerBound, parts, hkind, hparts, hany, hshorter, hread⟩ :=
        readArray?_write hencoders h
      have hdepths : ∀ part, some part ∈ parts → part.length < depth := fun part hpart =>
        Nat.lt_of_lt_of_le (hshorter part hpart) (Nat.le_of_lt_succ hdepth)
      obtain ⟨rs, hrs, hall⟩ := mapM_readMember? hencoders vs hparts hdepths
      refine ⟨.array rs, ?_, member, rs, hkind, rfl, hall⟩
      simp [decodeWithin, hkind, hread, hany, hrs]
  | .null, _ + 1 | .bool _, _ + 1 | .int _, _ + 1 | .float _, _ + 1 | .text _, _ + 1
  | .bytes _, _ + 1 | .timestamp _, _ + 1 | .date _, _ + 1 | .uuid _, _ + 1 | .json _, _ + 1 =>
      obtain ⟨r, hread, hr⟩ := recovers_scalar hencoders (by rintro vs ⟨⟩) h
      exact ⟨r, decodeWithin_of_readScalar? hread, hr⟩

/-- Members that were written one by one are read one by one. -/
theorem mapM_readMember? {encoders : Encoders T} {printed : Json → String}
    (hencoders : encoders.Documented printed) (vs : List Value) {member : T}
    {parts : List (Option (List UInt8))} {depth : Nat}
    (h : encodeMembers member (writeAll encoders vs) = .ok parts)
    (hdepth : ∀ part, some part ∈ parts → part.length < depth) :
    ∃ rs, parts.mapM (readMember? (decodeWithin encoders depth member)) = some rs ∧
      RecoversAll encoders printed member vs rs := by
  match vs with
  | [] =>
      rw [writeAll, encodeMembers] at h
      cases h
      exact ⟨[], rfl, trivial⟩
  | v :: vs =>
      obtain ⟨part, rest, hpart, hrest, rfl⟩ := encodeMembers_cons h
      obtain ⟨rs, hrs, hall⟩ := mapM_readMember? hencoders vs hrest
        fun part hpart => hdepth part (List.mem_cons_of_mem _ hpart)
      cases part with
      | none =>
          have hnull : v = .null := by
            have hnone := isNone_eq_isNull hencoders hpart
            cases v <;> first | rfl | cases hnone
          subst hnull
          refine ⟨.null :: rs, ?_, rfl, hall⟩
          simp [readMember?, hrs]
      | some bs =>
          obtain ⟨r, hr, hv⟩ := decodeWithin_write hencoders v hpart
            (hdepth bs List.mem_cons_self)
          refine ⟨r :: rs, ?_, hv, hall⟩
          simp [readMember?, hr, hrs]

end

/-! ## Values -/

/-- For encoders that follow the binary format, the binary form of a value is read back: by itself,
or in an array with the members in their order, also if these are arrays. The header of an array has
the number of the member type, the number of members and whether one of them is null, and an instant
has the same eight bytes for both of its types. -/
theorem decode?_encode {encoders : Encoders T} {printed : Json → String}
    (hencoders : encoders.Documented printed) {v : Value} {type : T} {bs : List UInt8}
    (h : encode encoders v type = .ok (some bs)) :
    (∃ r, decode? encoders type bs = some r ∧ Recovers encoders printed type v r) ∧
      (∀ vs, v = .array vs → ∃ (member : T) (lowerBound : Int) (parts : List (Option (List UInt8))),
        encoders.kind type = .array member ∧
        readArray? bs = some ⟨vs.any Value.isNull, (encoders.oid member).toNat, vs.length,
          lowerBound, parts⟩) ∧
      (∀ t, v = .timestamp t → bs.length = 8 ∧ ∀ other : T,
        encoders.kind other = .timestamp ∨ encoders.kind other = .timestamptz →
        encode encoders v other = .ok (some bs)) := by
  refine ⟨decodeWithin_write hencoders v h (Nat.lt_succ_self _), ?_, ?_⟩
  · rintro vs rfl
    obtain ⟨member, lowerBound, parts, hkind, -, -, -, hread⟩ := readArray?_write hencoders h
    exact ⟨member, lowerBound, parts, hkind, hread⟩
  · rintro t rfl
    obtain ⟨-, rfl⟩ := kind_of_write_timestamp hencoders h
    exact ⟨length_intBytes 8 _, fun other hother => write_timestamp_of_kind hencoders t hother⟩

/-- Small numbers with a null between them, as a member of an array. -/
def shorts : Value := .array [.array [.int 7, .null, .int (-2)]]

/-- The type of arrays of vectors. These are themselves arrays, of numbers of two bytes. -/
def vectors : SqlType :=
  .array "_int2vector" 1006 (.array "int2vector" 22 (.base "int2" 21))

/-- The small numbers as an array of one vector. -/
def shortsBytes : List UInt8 :=
  [0, 0, 0, 1, 0, 0, 0, 0, 0, 0, 0, 22, 0, 0, 0, 1, 0, 0, 0, 1, 0, 0, 0, 36] ++
    [0, 0, 0, 1, 0, 0, 0, 1, 0, 0, 0, 21, 0, 0, 0, 3, 0, 0, 0, 0] ++
    [0, 0, 0, 2, 0, 7, 255, 255, 255, 255, 0, 0, 0, 2, 255, 254]

theorem decode?_encode_shorts :
    standard.Documented Json.printed ∧ encode standard shorts vectors = .ok (some shortsBytes) ∧
      ∃ r, decode? standard vectors shortsBytes = some r ∧
        Recovers standard Json.printed vectors shorts r := by
  have hbytes : encode standard shorts vectors = .ok (some shortsBytes) := by rfl
  exact ⟨standard_documented, hbytes, (decode?_encode standard_documented hbytes).1⟩

end Wire

end BoundSelect
