import Mathlib.Tactic.ByContra
import Mathlib.Tactic.Push
import BoundSelect.Proofs.Decoding

/-!
# Which values fit a type

A value is encoded as a type exactly when it fits the type (`Wire.Fits`, one rule for each kind of
value). A value that does not fit has one fault: an array has that of its first member that does not
fit, and any other value its own (`Wire.Refused`). The main statement, `Wire.encode_iff`, is about
all encoders that follow the binary format and all values whose lengths can be written.
-/

set_option autoImplicit false

namespace BoundSelect

namespace Wire

variable {T : Type}

/-! ## Fitting and being refused -/

/-- Whether a value fits a type. Null fits every type, a whole number the types that are wide enough
for it, and an array the array types whose member type all its members fit. The values that have one
encoder fit the types that this is made for. -/
inductive Fits (encoders : Encoders T) : T → Value → Prop where
  | null (type : T) : Fits encoders type .null
  | bool {type : T} (b : Bool) (htype : encoders.bool.accepts type = true) :
      Fits encoders type (.bool b)
  | int2 {type : T} (n : Int64) (htype : encoders.kind type = .int2) (hlow : -32768 ≤ n.toInt)
      (hhigh : n.toInt < 32768) : Fits encoders type (.int n)
  | int4 {type : T} (n : Int64) (htype : encoders.kind type = .int4)
      (hlow : -2147483648 ≤ n.toInt) (hhigh : n.toInt < 2147483648) : Fits encoders type (.int n)
  | int8 {type : T} (n : Int64) (htype : encoders.kind type = .int8) : Fits encoders type (.int n)
  | float {type : T} (x : Binary64)
      (htype : encoders.kind type = .float4 ∨ encoders.kind type = .float8) :
      Fits encoders type (.float x)
  | text {type : T} (s : String) (htype : encoders.text.accepts type = true) :
      Fits encoders type (.text s)
  | bytes {type : T} (bs : List UInt8) (htype : encoders.bytes.accepts type = true) :
      Fits encoders type (.bytes bs)
  | timestamp {type : T} (t : Timestamp)
      (htype : encoders.kind type = .timestamp ∨ encoders.kind type = .timestamptz) :
      Fits encoders type (.timestamp t)
  | date {type : T} (d : Date) (htype : encoders.date.accepts type = true) :
      Fits encoders type (.date d)
  | uuid {type : T} (u : Uuid) (htype : encoders.uuid.accepts type = true) :
      Fits encoders type (.uuid u)
  | json {type : T} (j : Json) (htype : encoders.json.accepts type = true) :
      Fits encoders type (.json j)
  | array {type member : T} {vs : List Value} (htype : encoders.kind type = .array member)
      (hmembers : ∀ v ∈ vs, Fits encoders member v) : Fits encoders type (.array vs)

/-- The fault of a value that does not fit a type by itself. Whole numbers are narrowed to the two
shorter of their types, so there they are out of range; all else is of the wrong type. -/
def leafFault (encoders : Encoders T) (type : T) : Value → EncodeFault T
  | .int _ =>
    match encoders.kind type with
    | .int2 | .int4 => .outOfRange
    | _ => .wrongType type
  | _ => .wrongType type

/-- Whether a type is an array type. -/
def IsArray (encoders : Encoders T) (type : T) : Prop :=
  ∃ member, encoders.kind type = .array member

/-- Whether a value is refused as a type with a fault. A leaf is a value that no array type takes
apart: every value but an array, and an array where the type is not an array type. -/
inductive Refused (encoders : Encoders T) : T → Value → EncodeFault T → Prop where
  | leaf {type : T} {v : Value} (hleaf : ∀ vs, v = .array vs → ¬ IsArray encoders type)
      (hmisfit : ¬ Fits encoders type v) : Refused encoders type v (leafFault encoders type v)
  | member {type member : T} {front : List Value} {v : Value} {fault : EncodeFault T}
      (htype : encoders.kind type = .array member) (hfront : ∀ u ∈ front, Fits encoders member u)
      (hmember : Refused encoders member v fault) (back : List Value) :
      Refused encoders type (.array (front ++ v :: back)) fault

/-- Whether the number of members of an array, and of the bytes of each, can be written as a signed
number of four bytes, also in the arrays inside it. -/
inductive LengthsFit (encoders : Encoders T) : T → Value → Prop where
  | leaf {type : T} {v : Value} (hleaf : ∀ vs, v = .array vs → ¬ IsArray encoders type) :
      LengthsFit encoders type v
  | array {type member : T} {vs : List Value} (htype : encoders.kind type = .array member)
      (hcount : vs.length < 2147483648)
      (hparts : ∀ v ∈ vs, ∀ part, encode encoders v member = .ok part → MemberFits part)
      (hmembers : ∀ v ∈ vs, LengthsFit encoders member v) : LengthsFit encoders type (.array vs)

section

variable {encoders : Encoders T} {printed : Json → String} {type member : T} {v : Value}
  {fault : EncodeFault T}

/-! ## Leaves -/

section

variable {X : Type} {e : Encoder T X} {kind : T → TypeKind T} {forms : Forms T X}

theorem Encoder.HasForms.exists_checked (he : e.HasForms kind forms)
    (h : e.accepts type = true) (x : X) : ∃ part, e.checked x type = .ok part := by
  rw [he.accepts] at h
  obtain ⟨form, hform⟩ := Option.isSome_iff_exists.1 h
  exact ⟨_, he.checked_eq hform x⟩

theorem Encoder.checked_of_not_accepts (h : ¬ e.accepts type = true) (x : X) :
    e.checked x type = .error (.wrongType type) :=
  if_neg h

/-- An encoder refuses the types whose kind has no form. -/
theorem Encoder.HasForms.checked_of_none (he : e.HasForms kind forms)
    (h : forms (kind type) = none) (x : X) : e.checked x type = .error (.wrongType type) := by
  apply checked_of_not_accepts
  rw [he.accepts, h]
  exact Bool.false_ne_true

end

/-- The range of the whole numbers that fit a type. -/
theorem fits_int_iff {n : Int64} :
    Fits encoders type (.int n) ↔
      match encoders.kind type with
      | .int2 => -32768 ≤ n.toInt ∧ n.toInt < 32768
      | .int4 => -2147483648 ≤ n.toInt ∧ n.toInt < 2147483648
      | .int8 => True
      | _ => False := by
  constructor
  · intro h
    cases h with
    | int2 _ htype hlow hhigh =>
        rw [htype]
        exact ⟨hlow, hhigh⟩
    | int4 _ htype hlow hhigh =>
        rw [htype]
        exact ⟨hlow, hhigh⟩
    | int8 _ htype => simp only [htype]
  · intro h
    split at h
    · next htype => exact .int2 n htype h.1 h.2
    · next htype => exact .int4 n htype h.1 h.2
    · next htype => exact .int8 n htype
    · exact h.elim

theorem fits_float_iff {x : Binary64} : Fits encoders type (.float x) ↔
    encoders.kind type = .float4 ∨ encoders.kind type = .float8 := by
  constructor
  · rintro ⟨⟩
    assumption
  · exact .float x

theorem fits_timestamp_iff {t : Timestamp} : Fits encoders type (.timestamp t) ↔
    encoders.kind type = .timestamp ∨ encoders.kind type = .timestamptz := by
  constructor
  · rintro ⟨⟩
    assumption
  · exact .timestamp t

/-- A whole number is encoded as the types that it fits. Where it was to be narrowed, it is out of
range otherwise. -/
theorem write_int (hencoders : encoders.Documented printed) (n : Int64) :
    (Fits encoders type (.int n) → ∃ part, write encoders (.int n) type = .ok part) ∧
      (¬ Fits encoders type (.int n) →
        write encoders (.int n) type = .error (leafFault encoders type (.int n))) := by
  rw [fits_int_iff]
  cases hkind : encoders.kind type with
  | int2 =>
      have hform : Forms.int16 (encoders.kind type) = some fun n => intBytes 2 n.toInt := by
        rw [hkind, Forms.int16]
      simp only [write, leafFault, hkind]
      refine ⟨fun hrange => ?_, fun hrange => by rw [narrow, if_neg hrange]; rfl⟩
      rw [narrow, if_pos hrange]
      exact ⟨_, hencoders.int16.checked_eq hform n.toInt16⟩
  | int4 =>
      have hform : Forms.int32 (encoders.kind type) = some fun n => intBytes 4 n.toInt := by
        rw [hkind, Forms.int32]
      simp only [write, leafFault, hkind]
      refine ⟨fun hrange => ?_, fun hrange => by rw [narrow, if_neg hrange]; rfl⟩
      rw [narrow, if_pos hrange]
      exact ⟨_, hencoders.int32.checked_eq hform n.toInt32⟩
  | int8 =>
      have hform : Forms.int64 (encoders.kind type) = some fun n => intBytes 8 n.toInt := by
        rw [hkind, Forms.int64]
      simp only [write, hkind]
      exact ⟨fun _ => ⟨_, hencoders.int64.checked_eq hform n⟩, fun h => absurd trivial h⟩
  | _ =>
      simp only [write, leafFault, hkind]
      exact ⟨False.elim, fun _ => hencoders.int64.checked_of_none (by rw [hkind]; rfl) n⟩

theorem write_float (hencoders : encoders.Documented printed) (x : Binary64) :
    (Fits encoders type (.float x) → ∃ part, write encoders (.float x) type = .ok part) ∧
      (¬ Fits encoders type (.float x) →
        write encoders (.float x) type = .error (leafFault encoders type (.float x))) := by
  rw [fits_float_iff]
  cases hkind : encoders.kind type with
  | float4 =>
      have hform : Forms.single (encoders.kind type) = some fun bits => natBytes 4 bits.toNat := by
        rw [hkind, Forms.single]
      simp only [write, hkind]
      refine ⟨fun _ => ⟨_, hencoders.single.checked_eq hform x.toSingle⟩, fun h => ?_⟩
      exact absurd (.inl trivial) h
  | float8 =>
      have hform : Forms.double (encoders.kind type) = some fun x => natBytes 8 x.bits.toNat := by
        rw [hkind, Forms.double]
      simp only [write, hkind]
      refine ⟨fun _ => ⟨_, hencoders.double.checked_eq hform x⟩, fun h => ?_⟩
      exact absurd (.inr trivial) h
  | _ =>
      simp only [write, leafFault, hkind]
      refine ⟨fun h => ?_, fun _ => hencoders.double.checked_of_none (by rw [hkind]; rfl) x⟩
      rcases h with h | h <;> cases h

theorem write_timestamp (hencoders : encoders.Documented printed) (t : Timestamp) :
    (Fits encoders type (.timestamp t) → ∃ part, write encoders (.timestamp t) type = .ok part) ∧
      (¬ Fits encoders type (.timestamp t) →
        write encoders (.timestamp t) type = .error (leafFault encoders type (.timestamp t))) := by
  rw [fits_timestamp_iff]
  refine ⟨fun h => ⟨_, write_timestamp_of_kind hencoders t h⟩, ?_⟩
  cases hkind : encoders.kind type with
  | timestamp => exact fun h => absurd (.inl rfl) h
  | timestamptz => exact fun h => absurd (.inr rfl) h
  | _ =>
      simp only [write, leafFault, hkind]
      exact fun _ => hencoders.instant.checked_of_none (by rw [hkind]; rfl) t

theorem exists_write_of_leaf (hencoders : encoders.Documented printed)
    (hleaf : ∀ vs, v ≠ .array vs) (h : Fits encoders type v) :
    ∃ part, write encoders v type = .ok part := by
  cases h with
  | null => exact ⟨none, rfl⟩
  | bool b htype => exact hencoders.bool.exists_checked htype b
  | int2 n htype hlow hhigh => exact (write_int hencoders n).1 (.int2 n htype hlow hhigh)
  | int4 n htype hlow hhigh => exact (write_int hencoders n).1 (.int4 n htype hlow hhigh)
  | int8 n htype => exact (write_int hencoders n).1 (.int8 n htype)
  | float x htype => exact (write_float hencoders x).1 (.float x htype)
  | text s htype => exact hencoders.text.exists_checked htype s
  | bytes bs htype => exact hencoders.bytes.exists_checked htype bs
  | timestamp t htype => exact (write_timestamp hencoders t).1 (.timestamp t htype)
  | date d htype => exact hencoders.date.exists_checked htype d
  | uuid u htype => exact hencoders.uuid.exists_checked htype u
  | json j htype => exact hencoders.json.exists_checked htype j
  | array htype hmembers => exact absurd rfl (hleaf _)

/-- Whatever does not fit by itself is refused with its own fault. -/
theorem write_of_leaf_misfit (hencoders : encoders.Documented printed)
    (hleaf : ∀ vs, v = .array vs → ¬ IsArray encoders type) (h : ¬ Fits encoders type v) :
    write encoders v type = .error (leafFault encoders type v) := by
  cases v with
  | null => exact absurd (.null type) h
  | bool b => exact Encoder.checked_of_not_accepts (fun htype => h (.bool b htype)) b
  | int n => exact (write_int hencoders n).2 h
  | float x => exact (write_float hencoders x).2 h
  | text s => exact Encoder.checked_of_not_accepts (fun htype => h (.text s htype)) s
  | bytes bs => exact Encoder.checked_of_not_accepts (fun htype => h (.bytes bs htype)) bs
  | timestamp t => exact (write_timestamp hencoders t).2 h
  | date d => exact Encoder.checked_of_not_accepts (fun htype => h (.date d htype)) d
  | uuid u => exact Encoder.checked_of_not_accepts (fun htype => h (.uuid u htype)) u
  | json j => exact Encoder.checked_of_not_accepts (fun htype => h (.json j htype)) j
  | array vs =>
      rw [write]
      apply Encoder.checked_of_not_accepts
      intro haccepts
      obtain ⟨member, htype, -⟩ := (hencoders.list_accepts _ _).1 haccepts
      exact hleaf vs rfl ⟨member, htype⟩

/-! ## Members -/

/-- Members that fit are encoded one by one. -/
theorem exists_encodeMembers {vs : List Value}
    (h : ∀ v ∈ vs, ∃ part, write encoders v member = .ok part) :
    ∃ parts, encodeMembers member (writeAll encoders vs) = .ok parts := by
  induction vs with
  | nil => exact ⟨[], rfl⟩
  | cons v vs ih =>
      obtain ⟨⟨part, hpart⟩, hvs⟩ := List.forall_mem_cons.1 h
      obtain ⟨parts, hparts⟩ := ih hvs
      refine ⟨part :: parts, ?_⟩
      rw [writeAll, encodeMembers, hpart, hparts]
      rfl

/-- Behind members that are encoded, the first fault is that of the whole list. -/
theorem encodeMembers_append_cons {front : List Value}
    (hfront : ∀ u ∈ front, ∃ part, write encoders u member = .ok part)
    (hv : write encoders v member = .error fault) (back : List Value) :
    encodeMembers member (writeAll encoders (front ++ v :: back)) = .error fault := by
  induction front with
  | nil =>
      rw [List.nil_append, writeAll, encodeMembers, hv]
  | cons u front ih =>
      obtain ⟨⟨part, hpart⟩, hfront⟩ := List.forall_mem_cons.1 hfront
      rw [List.cons_append, writeAll, encodeMembers, hpart, ih hfront]
      rfl

/-! ## Values -/

/-- An array of a length that can be written is encoded from its members. -/
theorem exists_write_array (hencoders : encoders.Documented printed) {vs : List Value}
    (htype : encoders.kind type = .array member) (hcount : vs.length < 2147483648)
    (hparts : ∀ v ∈ vs, ∀ part, encode encoders v member = .ok part → MemberFits part) :
    ∃ lowerBound : Int, write encoders (.array vs) type =
      (encodeMembers member (writeAll encoders vs)).map fun parts =>
        some (arrayBytes (encoders.oid member) lowerBound parts) := by
  have hfits : MembersFit member (writeAll encoders vs) := by
    rw [writeAll_eq_map]
    refine ⟨by rwa [List.length_map], ?_⟩
    intro item hitem part hpart
    obtain ⟨v, hv, rfl⟩ := List.mem_map.1 hitem
    exact hparts v hv part hpart
  have haccepts : (encoders.list accepts).accepts type = true :=
    (hencoders.list_accepts _ _).2 ⟨member, htype, rfl⟩
  obtain ⟨lowerBound, -, hwrite⟩ := hencoders.list_write accepts _ _ _ htype hfits
  exact ⟨lowerBound, by rw [write, Encoder.checked, if_pos haccepts, hwrite]⟩

/-- What fits is encoded, by induction on why it fits. -/
theorem exists_write (hencoders : encoders.Documented printed) (h : Fits encoders type v)
    (hlengths : LengthsFit encoders type v) : ∃ part, write encoders v type = .ok part := by
  have hfits := h
  induction h with
  | @array type member vs htype hmembers ih =>
      cases hlengths with
      | leaf hleaf => exact absurd ⟨member, htype⟩ (hleaf vs rfl)
      | @array _ member' _ htype' hcount hparts hlengths =>
          cases htype.symm.trans htype'
          obtain ⟨lowerBound, hwrite⟩ := exists_write_array hencoders htype hcount hparts
          obtain ⟨parts, hparts'⟩ := exists_encodeMembers fun v hv =>
            ih v hv (hlengths v hv) (hmembers v hv)
          exact ⟨_, by rw [hwrite, hparts']; rfl⟩
  | _ => exact exists_write_of_leaf hencoders nofun hfits

/-- Each refused value has the fault that it is refused with. -/
theorem write_of_refused (hencoders : encoders.Documented printed)
    (h : Refused encoders type v fault) (hlengths : LengthsFit encoders type v) :
    write encoders v type = .error fault := by
  induction h with
  | leaf hleaf hmisfit => exact write_of_leaf_misfit hencoders hleaf hmisfit
  | @member type member front v fault htype hfront _ back ih =>
      cases hlengths with
      | leaf hleaf => exact absurd ⟨member, htype⟩ (hleaf _ rfl)
      | @array _ member' _ htype' hcount hparts hlengths =>
          cases htype.symm.trans htype'
          obtain ⟨lowerBound, hwrite⟩ := exists_write_array hencoders htype hcount hparts
          have hfront' : ∀ u ∈ front, ∃ part, write encoders u member = .ok part := fun u hu =>
            exists_write hencoders (hfront u hu) (hlengths u (List.mem_append_left _ hu))
          have hv := ih (hlengths v (List.mem_append_right _ List.mem_cons_self))
          rw [hwrite, encodeMembers_append_cons hfront' hv back]
          rfl

theorem exists_first_misfit {vs : List Value} (h : ∃ v ∈ vs, ¬ Fits encoders type v) :
    ∃ front v back, vs = front ++ v :: back ∧ (∀ u ∈ front, Fits encoders type u) ∧
      ¬ Fits encoders type v := by
  classical
  obtain ⟨v, hfound⟩ : ∃ v, vs.find? (fun v => ¬ Fits encoders type v) = some v := by
    rw [← Option.isSome_iff_exists, List.find?_isSome]
    simpa using h
  obtain ⟨hv, front, back, hsplit, hfront⟩ := List.find?_eq_some_iff_append.1 hfound
  exact ⟨front, v, back, hsplit, by simpa using hfront, by simpa using hv⟩

/-- What does not fit is refused: of the members of an array, the first that does not fit. -/
theorem exists_refused (v : Value) {type : T} (h : ¬ Fits encoders type v) :
    ∃ fault, Refused encoders type v fault := by
  by_cases hleaf : ∀ vs, v = .array vs → ¬ IsArray encoders type
  · exact ⟨_, .leaf hleaf h⟩
  push Not at hleaf
  obtain ⟨vs, harray, member, htype⟩ := hleaf
  have hmisfit : ∃ v ∈ vs, ¬ Fits encoders member v := by
    by_contra hall
    push Not at hall
    exact h (harray ▸ .array htype hall)
  obtain ⟨front, u, back, hsplit, hfront, hu⟩ := exists_first_misfit hmisfit
  have hmember : u ∈ vs := hsplit ▸ List.mem_append_right _ List.mem_cons_self
  obtain ⟨fault, hfault⟩ := exists_refused u hu
  rw [harray, hsplit]
  exact ⟨fault, .member htype hfront hfault back⟩
termination_by v
decreasing_by
  have hsmaller := List.sizeOf_lt_of_mem hmember
  rw [harray, Value.array.sizeOf_spec]
  omega

/-- For encoders that follow the binary format, a value whose lengths can be written is encoded as a
type exactly when it fits the type, and otherwise fails with the fault that it is refused with. An
empty array fits every array type, and no array fits the member type of one unless this is an array
type itself. -/
theorem encode_iff (hencoders : encoders.Documented printed)
    (hlengths : LengthsFit encoders type v) :
    ((∃ part, encode encoders v type = .ok part) ↔ Fits encoders type v) ∧
      (∀ fault, encode encoders v type = .error fault ↔ Refused encoders type v fault) ∧
      ∀ member, encoders.kind type = .array member →
        Fits encoders type (.array []) ∧
        (¬ IsArray encoders member → ∀ vs, ¬ Fits encoders member (.array vs)) := by
  refine ⟨⟨?_, ?_⟩, fun fault => ⟨?_, ?_⟩, ?_⟩
  · rintro ⟨part, hpart⟩
    by_contra hmisfit
    obtain ⟨fault, hrefused⟩ := exists_refused v hmisfit
    cases hpart.symm.trans (write_of_refused hencoders hrefused hlengths)
  · intro hfits
    exact exists_write hencoders hfits hlengths
  · intro hfault
    by_cases hfits : Fits encoders type v
    · obtain ⟨part, hpart⟩ := exists_write hencoders hfits hlengths
      cases hpart.symm.trans hfault
    · obtain ⟨fault', hrefused⟩ := exists_refused v hfits
      cases hfault.symm.trans (write_of_refused hencoders hrefused hlengths)
      exact hrefused
  · intro hrefused
    exact write_of_refused hencoders hrefused hlengths
  · intro member htype
    refine ⟨.array htype fun v hv => absurd hv List.not_mem_nil, ?_⟩
    rintro hscalar vs (_ | _)
    exact hscalar ⟨_, ‹_›⟩

end

/-- A null, two whole numbers and a text, as the members of an array. -/
def mixed : Value := .array [.null, .int 7, .int 40000, .text "x"]

/-- The type of arrays of numbers of two bytes. -/
def smallNumbers : SqlType := .array "_int2" 1005 (.base "int2" 21)

/-- The type of arrays of object numbers. Only null is a member of such an array. -/
def objectNumbers : SqlType := .array "_oid" 1028 (.base "oid" 26)

theorem encode_iff_mixed :
    standard.Documented Json.printed ∧ LengthsFit standard smallNumbers mixed ∧
      ¬ Fits standard smallNumbers mixed ∧ Refused standard smallNumbers mixed .outOfRange ∧
      Fits standard objectNumbers (.array [.null]) := by
  have hkind : standard.kind smallNumbers = .array (.base "int2" 21) := by rfl
  have hmember : ¬ IsArray standard (.base "int2" 21) := by
    rintro ⟨member, hmember⟩
    cases hmember
  have hseven : encode standard (.int 7) (.base "int2" 21) = .ok (some [0, 7]) := by rfl
  have hlarge : encode standard (.int 40000) (.base "int2" 21) = .error .outOfRange := by rfl
  have htext : encode standard (.text "x") (.base "int2" 21) =
      .error (.wrongType (.base "int2" 21)) := by rfl
  have hnull : encode standard .null (.base "int2" 21) = .ok none := by rfl
  have hlengths : LengthsFit standard smallNumbers mixed := by
    refine .array hkind (by decide) ?_ fun v _ => .leaf fun _ _ => hmember
    -- only two of the members have a form to measure
    simp [hseven, hlarge, htext, hnull, MemberFits]
  have hfault : encode standard mixed smallNumbers = .error .outOfRange := by rfl
  have hobjects : standard.kind objectNumbers = .array (.base "oid" 26) := by rfl
  have hnulls : LengthsFit standard objectNumbers (.array [.null]) := by
    refine .array hobjects (by decide) ?_ ?_
    · intro v hv part hpart
      cases List.mem_singleton.1 hv
      cases hpart
      decide
    · intro v hv
      cases List.mem_singleton.1 hv
      exact .leaf nofun
  obtain ⟨hfits, hrefused, -⟩ := encode_iff standard_documented hlengths
  obtain ⟨hnullsFit, -, -⟩ := encode_iff standard_documented hnulls
  refine ⟨standard_documented, hlengths, fun h => ?_, (hrefused _).1 hfault, ?_⟩
  · obtain ⟨part, hpart⟩ := hfits.2 h
    cases hfault.symm.trans hpart
  · exact hnullsFit.1 ⟨_, rfl⟩

end Wire

end BoundSelect
