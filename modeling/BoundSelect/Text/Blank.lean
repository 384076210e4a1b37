/-!
# Blanks and words

A blank is a character with Unicode's property `White_Space`. A text is blank when all of it is,
and its words are the longest runs of other characters. Cutting a text at a kind of character is
stated first, because names are cut at their dots in the same way.
-/

set_option autoImplicit false

namespace BoundSelect.Text

/-! ## Cutting -/

/-- The stretches of a text between the characters that `p` picks. There is always one more stretch
than there are such characters, and a stretch may be empty. -/
def cutAt (p : Char → Bool) : List Char → List (List Char)
  | [] => [[]]
  | c :: cs =>
    if p c then [] :: cutAt p cs
    else match cutAt p cs with
      | [] => [[c]]
      | w :: ws => (c :: w) :: ws

/-- Cutting a text is splitting it as a list. -/
theorem cutAt_eq_splitOnP (p : Char → Bool) (cs : List Char) : cutAt p cs = cs.splitOnP p := by
  induction cs with
  | nil => rfl
  | cons c cs ih =>
    rw [cutAt, ih, List.splitOnP_cons_eq_if_modifyHead]
    split
    · rfl
    · cases hws : cs.splitOnP p with
      | nil => exact absurd hws (List.splitOnP_ne_nil p cs)
      | cons w ws => rfl

/-! ## Stretches of one kind -/

section

variable {p : Char → Bool} {front rest : List Char}

/-- A stretch of one kind of character ends where another kind follows. -/
theorem takeWhile_append_stop (hfront : ∀ c ∈ front, p c = true)
    (hrest : ∀ c ∈ rest.head?, p c = false) : (front ++ rest).takeWhile p = front := by
  rw [List.takeWhile_append_of_pos hfront]
  cases rest with
  | nil => exact List.append_nil front
  | cons c rest =>
      rw [List.takeWhile_cons, hrest c rfl, if_neg Bool.false_ne_true]
      exact List.append_nil front

theorem dropWhile_append_stop (hfront : ∀ c ∈ front, p c = true)
    (hrest : ∀ c ∈ rest.head?, p c = false) : (front ++ rest).dropWhile p = rest := by
  rw [List.dropWhile_append_of_pos hfront]
  cases rest with
  | nil => rfl
  | cons c rest => rw [List.dropWhile_cons, hrest c rfl, if_neg Bool.false_ne_true]

end

/-! ## Blanks -/

/-- The code points with the property `White_Space`, as closed ranges in increasing order. -/
def blankRanges : List (Nat × Nat) :=
  [(0x09, 0x0D), (0x20, 0x20), (0x85, 0x85), (0xA0, 0xA0), (0x1680, 0x1680), (0x2000, 0x200A),
    (0x2028, 0x2029), (0x202F, 0x202F), (0x205F, 0x205F), (0x3000, 0x3000)]

/-- Whether a character is white space. -/
def isBlank (c : Char) : Bool :=
  blankRanges.any fun r => r.1 ≤ c.toNat && c.toNat ≤ r.2

/-- A text without the blanks at its two ends. -/
def trim (cs : List Char) : List Char :=
  ((cs.dropWhile isBlank).reverse.dropWhile isBlank).reverse

/-- The longest runs of characters that are not blank, in order. -/
def words (cs : List Char) : List (List Char) :=
  (cutAt isBlank cs).filter (!·.isEmpty)

/-- The words of a text with one space between two of them. -/
def spaced (cs : List Char) : List Char :=
  [' '].intercalate (words cs)

/-- The visible characters of ASCII are no blanks. -/
theorem isBlank_of_visible {c : Char} (h : 0x21 ≤ c.toNat ∧ c.toNat ≤ 0x7E) :
    isBlank c = false := by
  simp only [isBlank, blankRanges, List.any_cons, List.any_nil, Bool.or_false, Bool.or_eq_false_iff,
    Bool.and_eq_false_iff, decide_eq_false_iff_not]
  omega

theorem isBlank_toUpper (c : Char) : isBlank c.toUpper = isBlank c := by
  unfold Char.toUpper
  split
  · next h =>
      rw [UInt32.le_iff_toNat_le, UInt32.le_iff_toNat_le] at h
      have hlower : 97 ≤ c.toNat ∧ c.toNat ≤ 122 := h
      have hshift : (c.val + ('A'.val - 'a'.val)).toNat = c.toNat - 32 := by
        rw [UInt32.toNat_add]
        change (c.toNat + 4294967264) % 4294967296 = _
        omega
      have hupper : 0x21 ≤ (c.val + ('A'.val - 'a'.val)).toNat ∧
          (c.val + ('A'.val - 'a'.val)).toNat ≤ 0x7E := by
        rw [hshift]
        omega
      rw [@isBlank_of_visible c (by omega)]
      exact isBlank_of_visible hupper
  · rfl

theorem isBlank_toLower (c : Char) : isBlank c.toLower = isBlank c := by
  unfold Char.toLower
  split
  · next h =>
      rw [ge_iff_le, UInt32.le_iff_toNat_le, UInt32.le_iff_toNat_le] at h
      have hupper : 65 ≤ c.toNat ∧ c.toNat ≤ 90 := h
      have hshift : (c.val + ('a'.val - 'A'.val)).toNat = c.toNat + 32 := by
        rw [UInt32.toNat_add]
        change (c.toNat + 32) % 4294967296 = _
        omega
      have hlower : 0x21 ≤ (c.val + ('a'.val - 'A'.val)).toNat ∧
          (c.val + ('a'.val - 'A'.val)).toNat ≤ 0x7E := by
        rw [hshift]
        omega
      rw [@isBlank_of_visible c (by omega)]
      exact isBlank_of_visible hlower
  · rfl

end BoundSelect.Text
