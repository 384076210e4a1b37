import BoundSelect.Wire.Encoding
import BoundSelect.Wire.Format

/-!
# Encoders that follow the format

A type is known by its name and its number, and an array type also by its member type. The built-in
types are told apart by their numbers, those of extensions by their names. The encoders here write
the binary format and nothing else (`standard_documented`).
-/

set_option autoImplicit false

namespace BoundSelect

namespace Wire

/-- A type of the database. -/
inductive SqlType where
  | base (name : String) (oid : UInt32)
  | array (name : String) (oid : UInt32) (member : SqlType)
  deriving DecidableEq

namespace SqlType

def name : SqlType → String
  | base name _ => name
  | array name _ _ => name

def oid : SqlType → UInt32
  | base _ oid => oid
  | array _ oid _ => oid

def kind : SqlType → TypeKind SqlType
  | base name oid =>
    match oid.toNat with
    | 16 => .bool
    | 21 => .int2
    | 23 => .int4
    | 20 => .int8
    | 700 => .float4
    | 701 => .float8
    -- name, text, unknown, and the two with a length
    | 19 | 25 | 705 | 1042 | 1043 => .text
    | 17 => .bytea
    | 1114 => .timestamp
    | 1184 => .timestamptz
    | 1082 => .date
    | 2950 => .uuid
    | 114 => .json
    | 3802 => .jsonb
    | _ =>
      if name = "citext" then .text
      else if name ∈ ["ltree", "lquery", "ltxtquery"] then .versionedText
      else .other
  | array _ _ member => .array member

/-- The index of the first member of an array. The two vectors count from zero. -/
def lowerBound (type : SqlType) : Int :=
  if type.oid = 22 ∨ type.oid = 30 then 0 else 1

end SqlType

/-! ## Encoders -/

variable {T X : Type}

/-- The encoder with certain forms. -/
def Encoder.ofForms (kind : T → TypeKind T) (forms : Forms T X) : Encoder T X where
  accepts type := (forms (kind type)).isSome
  write x type :=
    match forms (kind type) with
    | some form => .ok (some (form x))
    | none => .error (.wrongType type)

theorem Encoder.hasForms_ofForms (kind : T → TypeKind T) (forms : Forms T X) :
    (ofForms kind forms).HasForms kind forms where
  accepts _ := rfl
  write x type form h := by simp only [ofForms, h]

/-- Encodes members one after the other, up to the first fault or the first that is too long. -/
def fittingMembers (type : T) :
    List (T → Encoded T) → Except (EncodeFault T) (List (Option (List UInt8)))
  | [] => .ok []
  | item :: items =>
    match item type with
    | .error fault => .error fault
    | .ok part =>
      if MemberFits part then (fittingMembers type items).map (part :: ·)
      else .error (.unwritable "value too large to transmit")

/-- The encoder of lists whose members are made for certain types. -/
def listEncoder (accepts : SqlType → Bool) : Encoder SqlType (List (SqlType → Encoded SqlType))
    where
  accepts type :=
    match type.kind with
    | .array member => accepts member
    | _ => false
  write items type :=
    match type.kind with
    | .array member =>
      if items.length < 2147483648 then
        (fittingMembers member items).map fun parts =>
          some (arrayBytes member.oid type.lowerBound parts)
      else .error (.unwritable "value too large to transmit")
    | _ => .error (.wrongType type)

/-- The types of the database and their encoders. -/
def standard : Encoders SqlType where
  kind := SqlType.kind
  oid := SqlType.oid
  bool := .ofForms SqlType.kind Forms.bool
  int16 := .ofForms SqlType.kind Forms.int16
  int32 := .ofForms SqlType.kind Forms.int32
  int64 := .ofForms SqlType.kind Forms.int64
  single := .ofForms SqlType.kind Forms.single
  double := .ofForms SqlType.kind Forms.double
  text := .ofForms SqlType.kind Forms.text
  bytes := .ofForms SqlType.kind Forms.bytes
  naive := .ofForms SqlType.kind Forms.naive
  instant := .ofForms SqlType.kind Forms.instant
  date := .ofForms SqlType.kind Forms.date
  uuid := .ofForms SqlType.kind Forms.uuid
  json := .ofForms SqlType.kind (Forms.json Json.printed)
  list := listEncoder

/-! ## They follow the format -/

section

variable {type : T} {items : List (T → Encoded T)}

/-- Members that fit are encoded as if their lengths were not looked at. -/
theorem fittingMembers_eq
    (h : ∀ item ∈ items, ∀ part, item type = .ok part → MemberFits part) :
    fittingMembers type items = encodeMembers type items := by
  induction items with
  | nil => rfl
  | cons item items ih =>
      obtain ⟨hitem, hitems⟩ := List.forall_mem_cons.1 h
      rw [fittingMembers, encodeMembers, ih hitems]
      cases hencoded : item type with
      | error fault => rfl
      | ok part => exact if_pos (hitem part hencoded)

theorem memberFits_of_fittingMembers {parts : List (Option (List UInt8))}
    (h : fittingMembers type items = .ok parts) :
    ∀ item ∈ items, ∀ part, item type = .ok part → MemberFits part := by
  induction items generalizing parts with
  | nil => exact List.forall_mem_nil _
  | cons item items ih =>
      rw [fittingMembers] at h
      split at h
      · cases h
      · next part hpart =>
          split at h
          · next hfits =>
              refine List.forall_mem_cons.2 ⟨?_, ?_⟩
              · intro part' hpart'
                cases hpart.symm.trans hpart'
                exact hfits
              · cases hrest : fittingMembers type items with
                | error fault =>
                    rw [hrest] at h
                    cases h
                | ok rest => exact ih hrest
          · cases h

end

theorem standard_documented : standard.Documented Json.printed where
  bool := Encoder.hasForms_ofForms _ _
  int16 := Encoder.hasForms_ofForms _ _
  int32 := Encoder.hasForms_ofForms _ _
  int64 := Encoder.hasForms_ofForms _ _
  single := Encoder.hasForms_ofForms _ _
  double := Encoder.hasForms_ofForms _ _
  text := Encoder.hasForms_ofForms _ _
  bytes := Encoder.hasForms_ofForms _ _
  naive := Encoder.hasForms_ofForms _ _
  instant := Encoder.hasForms_ofForms _ _
  date := Encoder.hasForms_ofForms _ _
  uuid := Encoder.hasForms_ofForms _ _
  json := Encoder.hasForms_ofForms _ _
  list_accepts := by
    intro accepts type
    change (listEncoder accepts).accepts type = true ↔ ∃ member, type.kind = .array member ∧ _
    simp only [listEncoder]
    cases type.kind <;> simp
  list_write := by
    intro accepts type member items hkind hfits
    have hkind' : type.kind = .array member := hkind
    refine ⟨type.lowerBound, ?_, ?_⟩
    · unfold SqlType.lowerBound
      split <;> decide
    · change (listEncoder accepts).write items type = _
      simp only [listEncoder, hkind', if_pos hfits.count, fittingMembers_eq hfits.parts]
      rfl
  list_fits := by
    intro accepts type member items part hkind h
    have hkind' : type.kind = .array member := hkind
    change (listEncoder accepts).write items type = _ at h
    simp only [listEncoder, hkind'] at h
    split at h
    · next hcount =>
        cases hmembers : fittingMembers member items with
        | error fault =>
            rw [hmembers] at h
            cases h
        | ok parts => exact ⟨hcount, memberFits_of_fittingMembers hmembers⟩
    · cases h

end Wire

end BoundSelect
