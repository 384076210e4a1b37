import BoundSelect.Wire.Format

/-!
# Reading bytes

The format in the other direction. Numbers are read with their highest byte first, whole numbers in
two's complement (`readInt_intBytes`), and an array of one dimension is taken apart into what its
header says and the bytes of its members (`readArray?_arrayBytes`).
-/

set_option autoImplicit false

namespace BoundSelect

namespace Wire

/-! ## Numbers -/

/-- The natural number with these bytes, the highest first. -/
def readNat (bs : List UInt8) : Nat :=
  bs.foldl (fun n b => 256 * n + b.toNat) 0

/-- The whole number with these bytes in two's complement. The upper half of the numbers that fit
are the negative ones. -/
def readInt (bs : List UInt8) : Int :=
  let n := readNat bs
  if 2 * n < Nat.pow 256 bs.length then n else n - (Nat.pow 256 bs.length : Nat)

theorem length_lowBytes (width n : Nat) : (lowBytes width n).length = width := by
  induction width generalizing n with
  | zero => rfl
  | succ width ih => rw [lowBytes, List.length_cons, ih]

theorem length_natBytes (width n : Nat) : (natBytes width n).length = width := by
  rw [natBytes, List.length_reverse, length_lowBytes]

theorem length_intBytes (width : Nat) (n : Int) : (intBytes width n).length = width :=
  length_natBytes width _

/-- A number is read back as far as the bytes reach. -/
theorem readNat_natBytes (width n : Nat) : readNat (natBytes width n) = n % Nat.pow 256 width := by
  rw [readNat, natBytes, List.foldl_reverse]
  induction width generalizing n with
  | zero => exact (Nat.mod_one n).symm
  | succ width ih =>
      have hlow : (UInt8.ofNat n).toNat = n % 256 := by simp
      have hpower : Nat.pow 256 (width + 1) = 256 * Nat.pow 256 width :=
        Nat.mul_comm (Nat.pow 256 width) 256
      rw [lowBytes, List.foldr_cons, ih, hlow, hpower, Nat.mod_mul]
      omega

/-- A whole number that fits is read back. -/
theorem readInt_intBytes {width : Nat} {n : Int} (hlow : -(Nat.pow 256 width : Nat) ≤ 2 * n)
    (hhigh : 2 * n < (Nat.pow 256 width : Nat)) : readInt (intBytes width n) = n := by
  have hpositive : 0 < Nat.pow 256 width := Nat.pow_pos (by decide)
  have hresidue : readNat (intBytes width n) = (n % (Nat.pow 256 width : Nat)).toNat := by
    have hlt : n % (Nat.pow 256 width : Nat) < (Nat.pow 256 width : Nat) :=
      Int.emod_lt_of_pos n (by omega)
    rw [intBytes, readNat_natBytes]
    exact Nat.mod_eq_of_lt (by omega)
  simp only [readInt, hresidue, length_intBytes]
  by_cases hn : 0 ≤ n
  · have hself : n % (Nat.pow 256 width : Nat) = n := Int.emod_eq_of_lt hn (by omega)
    rw [hself, if_pos (by omega)]
    omega
  · -- a negative number is that far below the power
    have hshift : n % (Nat.pow 256 width : Nat) = n + (Nat.pow 256 width : Nat) := by
      rw [← Int.add_emod_right]
      exact Int.emod_eq_of_lt (by omega) (by omega)
    rw [hshift, if_neg (by omega)]
    omega

/-! ## Arrays -/

/-- So many bytes off the front, if there are as many, and what is left. -/
def take? (n : Nat) (bs : List UInt8) : Option (List UInt8 × List UInt8) :=
  if n ≤ bs.length then some (bs.take n, bs.drop n) else none

theorem take?_append {front : List UInt8} {n : Nat} (h : front.length = n) (rest : List UInt8) :
    take? n (front ++ rest) = some (front, rest) := by
  subst h
  simp [take?]

/-- A whole number of four bytes off the front. -/
def takeInt? (bs : List UInt8) : Option (Int × List UInt8) :=
  (take? 4 bs).map fun (front, rest) => (readInt front, rest)

theorem takeInt?_append {n : Int} (hlow : -2147483648 ≤ n) (hhigh : n < 2147483648)
    (rest : List UInt8) : takeInt? (intBytes 4 n ++ rest) = some (n, rest) := by
  have hpower : Nat.pow 256 4 = 4294967296 := rfl
  have hread : readInt (intBytes 4 n) = n := readInt_intBytes (by omega) (by omega)
  rw [takeInt?, take?_append (length_intBytes 4 n)]
  simp only [Option.map_some, hread]

/-- A number of four bytes without a sign off the front. -/
def takeWord? (bs : List UInt8) : Option (Nat × List UInt8) :=
  (take? 4 bs).map fun (front, rest) => (readNat front, rest)

theorem takeWord?_append (word : UInt32) (rest : List UInt8) :
    takeWord? (natBytes 4 word.toNat ++ rest) = some (word.toNat, rest) := by
  have hread : readNat (natBytes 4 word.toNat) = word.toNat :=
    (readNat_natBytes 4 _).trans (Nat.mod_eq_of_lt word.toNat_lt)
  rw [takeWord?, take?_append (length_natBytes 4 _)]
  simp only [Option.map_some, hread]

/-- A member off the front: its length and so many bytes. The length minus one stands for null. -/
def takeMember? (bs : List UInt8) : Option (Option (List UInt8) × List UInt8) := do
  let (length, bs) ← takeInt? bs
  if length = -1 then return (none, bs)
  if length < 0 then none
  let (member, bs) ← take? length.toNat bs
  return (some member, bs)

/-- So many members off the front. -/
def takeMembers? : Nat → List UInt8 → Option (List (Option (List UInt8)) × List UInt8)
  | 0, bs => some ([], bs)
  | n + 1, bs => do
    let (member, bs) ← takeMember? bs
    let (members, bs) ← takeMembers? n bs
    return (member :: members, bs)

/-- What the bytes of an array say. -/
structure ArrayReading where
  hasNull : Bool
  memberOid : Nat
  count : Int
  lowerBound : Int
  members : List (Option (List UInt8))
  deriving DecidableEq

/-- Reads an array of one dimension. The flag for null members is zero or one, there are as many
members as the header says, and nothing is left behind them. -/
def readArray? (bs : List UInt8) : Option ArrayReading := do
  let (dimensions, bs) ← takeInt? bs
  let (flag, bs) ← takeInt? bs
  let (memberOid, bs) ← takeWord? bs
  let (count, bs) ← takeInt? bs
  let (lowerBound, bs) ← takeInt? bs
  let (members, rest) ← takeMembers? count.toNat bs
  if dimensions = 1 ∧ (flag = 0 ∨ flag = 1) ∧ 0 ≤ count ∧ rest = [] then
    some ⟨flag = 1, memberOid, count, lowerBound, members⟩
  else none

theorem takeMember?_append {member : Option (List UInt8)} (h : MemberFits member)
    (rest : List UInt8) : takeMember? (memberBytes member ++ rest) = some (member, rest) := by
  cases member with
  | none => simp [takeMember?, memberBytes, takeInt?_append]
  | some bs =>
      have hlength : bs.length < 2147483648 := h
      have hnumber : takeInt? (intBytes 4 bs.length ++ (bs ++ rest)) =
          some ((bs.length : Int), bs ++ rest) := takeInt?_append (by omega) (by omega) _
      have hnull : ¬ ((bs.length : Int) = -1) := by omega
      have hsign : ¬ ((bs.length : Int) < 0) := by omega
      simp [takeMember?, memberBytes, hnumber, hnull, hsign, take?_append]

theorem takeMembers?_append {members : List (Option (List UInt8))}
    (h : ∀ member ∈ members, MemberFits member) (rest : List UInt8) :
    takeMembers? members.length (members.flatMap memberBytes ++ rest) = some (members, rest) := by
  induction members with
  | nil => rfl
  | cons member members ih =>
      obtain ⟨hmember, hmembers⟩ := List.forall_mem_cons.1 h
      rw [List.flatMap_cons, List.append_assoc, List.length_cons, takeMembers?,
        takeMember?_append hmember]
      simp [ih hmembers]

/-- An array that was written is read with its header and its members. -/
theorem readArray?_arrayBytes (oid : UInt32) {lowerBound : Int}
    (hbound : -2147483648 ≤ lowerBound ∧ lowerBound < 2147483648)
    {members : List (Option (List UInt8))} (hcount : members.length < 2147483648)
    (hmembers : ∀ member ∈ members, MemberFits member) :
    readArray? (arrayBytes oid lowerBound members) =
      some ⟨members.any Option.isNone, oid.toNat, members.length, lowerBound, members⟩ := by
  have hread := takeMembers?_append hmembers []
  rw [List.append_nil] at hread
  have hflag : -2147483648 ≤ (if members.any Option.isNone then (1 : Int) else 0) ∧
      (if members.any Option.isNone then (1 : Int) else 0) < 2147483648 := by
    split <;> decide
  simp only [readArray?, arrayBytes, List.append_assoc]
  rw [takeInt?_append (by decide) (by decide)]
  simp only [Option.bind_eq_bind, Option.bind_some]
  rw [takeInt?_append hflag.1 hflag.2]
  simp only [Option.bind_some, takeWord?_append]
  rw [takeInt?_append (by omega) (by omega)]
  simp only [Option.bind_some]
  rw [takeInt?_append hbound.1 hbound.2]
  simp only [Option.bind_some, Int.toNat_natCast, hread]
  cases members.any Option.isNone <;> simp

/-- A member takes fewer bytes than the array that it is in. -/
theorem length_lt_arrayBytes (oid : UInt32) (lowerBound : Int)
    {members : List (Option (List UInt8))} {bs : List UInt8} (h : some bs ∈ members) :
    bs.length < (arrayBytes oid lowerBound members).length := by
  obtain ⟨front, back, rfl⟩ := List.append_of_mem h
  simp only [arrayBytes, memberBytes, List.flatMap_append, List.flatMap_cons, List.length_append,
    length_intBytes]
  omega

end Wire

end BoundSelect
