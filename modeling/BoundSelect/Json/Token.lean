import BoundSelect.Text.Hex

/-!
# JSON tokens

A JSON text is a sequence of tokens with spaces, tabs and line ends between them. A token keeps what
its text says and no more: a number keeps its digits, and a string keeps its characters and its
escaped code units, so that a unit of half a character can be met without being refused.
-/

set_option autoImplicit false

namespace BoundSelect.Json

/-- One piece of a string: a character, or a code unit of sixteen bits given by its digits. -/
inductive StringUnit where
  | char (c : Char)
  | unit (n : Nat)
  deriving DecidableEq

/-- The digits of a number. A fraction without digits is none at all; an exponent has a sign and
digits. -/
structure Numeral where
  negative : Bool
  whole : List Char
  fraction : List Char
  exponent : Option (Bool × List Char)
  deriving DecidableEq

/-- A token. -/
inductive Token where
  | openBrace | closeBrace | openBracket | closeBracket | comma | colon
  | null
  | bool (b : Bool)
  | numeral (n : Numeral)
  | string (s : List StringUnit)
  deriving DecidableEq

/-- The characters allowed between tokens. -/
def isSpace (c : Char) : Bool :=
  c = ' ' || c = '\t' || c = '\n' || c = '\r'

/-! ## Strings -/

/-- The character that an escape of one letter stands for. -/
def simpleEscape? (c : Char) : Option Char :=
  if c = '"' ∨ c = '\\' ∨ c = '/' then some c
  else if c = 'b' then some '\x08'
  else if c = 'f' then some '\x0c'
  else if c = 'n' then some '\n'
  else if c = 'r' then some '\r'
  else if c = 't' then some '\t'
  else none

/-- Reads the inside of a string and the quote that ends it. A control character has to be
escaped. -/
def scanString : List Char → Option (List StringUnit × List Char)
  | [] => none
  | '"' :: rest => some ([], rest)
  | '\\' :: 'u' :: a :: b :: c :: d :: rest => do
    -- the unit is kept as it is: whether it is half a character is asked later
    let n ← Text.hexNumber? [a, b, c, d]
    let (us, rest) ← scanString rest
    return (.unit n :: us, rest)
  | '\\' :: e :: rest => do
    let c ← simpleEscape? e
    let (us, rest) ← scanString rest
    return (.char c :: us, rest)
  | c :: rest =>
    if c = '\\' ∨ c.toNat < 0x20 then none
    else do
      let (us, rest) ← scanString rest
      return (.char c :: us, rest)

/-! ## Numbers -/

/-- Reads a run of digits, which must not be empty. -/
def scanDigits (cs : List Char) : Option (List Char × List Char) :=
  if cs.takeWhile Char.isDigit = [] then none
  else some (cs.takeWhile Char.isDigit, cs.dropWhile Char.isDigit)

/-- Reads the digits before the point: a lone zero, or a run that starts with none. -/
def scanWhole : List Char → Option (List Char × List Char)
  -- a zero ends here: digits behind it are refused by whatever reads on
  | '0' :: rest => some (['0'], rest)
  | cs => scanDigits cs

/-- Reads the point and the digits after it, if there is a point. -/
def scanFraction : List Char → Option (List Char × List Char)
  | '.' :: rest => scanDigits rest
  | cs => some ([], cs)

/-- Reads the digits of an exponent after its letter, with or without a sign. -/
def scanSigned : List Char → Option ((Bool × List Char) × List Char)
  | '-' :: rest => (scanDigits rest).map fun (ds, rest) => ((true, ds), rest)
  | '+' :: rest => (scanDigits rest).map fun (ds, rest) => ((false, ds), rest)
  | cs => (scanDigits cs).map fun (ds, rest) => ((false, ds), rest)

/-- Reads an exponent, if there is one. -/
def scanExponent : List Char → Option (Option (Bool × List Char) × List Char)
  | 'e' :: rest | 'E' :: rest => (scanSigned rest).map fun (x, rest) => (some x, rest)
  | cs => some (none, cs)

/-- Reads a number after its sign. -/
def scanNumeral (negative : Bool) (cs : List Char) : Option (Numeral × List Char) := do
  let (ds, cs) ← scanWhole cs
  let (fs, cs) ← scanFraction cs
  let (x, cs) ← scanExponent cs
  return (⟨negative, ds, fs, x⟩, cs)

/-! ## Texts -/

/-- Reads one token from the front of a text that starts with no space. -/
def scanToken : List Char → Option (Token × List Char)
  | '{' :: rest => some (.openBrace, rest)
  | '}' :: rest => some (.closeBrace, rest)
  | '[' :: rest => some (.openBracket, rest)
  | ']' :: rest => some (.closeBracket, rest)
  | ',' :: rest => some (.comma, rest)
  | ':' :: rest => some (.colon, rest)
  | 'n' :: 'u' :: 'l' :: 'l' :: rest => some (.null, rest)
  | 't' :: 'r' :: 'u' :: 'e' :: rest => some (.bool true, rest)
  | 'f' :: 'a' :: 'l' :: 's' :: 'e' :: rest => some (.bool false, rest)
  | '"' :: rest => (scanString rest).map fun (s, rest) => (.string s, rest)
  | '-' :: rest => (scanNumeral true rest).map fun (n, rest) => (.numeral n, rest)
  | cs => (scanNumeral false cs).map fun (n, rest) => (.numeral n, rest)

/-! ## Every token takes something

So that reading a text ends, each of the readers above leaves less than it was given. -/

theorem length_dropWhile_le (p : Char → Bool) (cs : List Char) :
    (cs.dropWhile p).length ≤ cs.length :=
  (List.dropWhile_sublist p).length_le

theorem scanString_length {cs rest : List Char} {s : List StringUnit}
    (h : scanString cs = some (s, rest)) : rest.length < cs.length := by
  fun_induction scanString cs generalizing s rest <;>
    simp_all [Option.bind_eq_some_iff] <;> grind

theorem scanDigits_length {cs ds rest : List Char} (h : scanDigits cs = some (ds, rest)) :
    rest.length < cs.length := by
  unfold scanDigits at h
  split at h
  · contradiction
  · rename_i some_digit
    simp only [Option.some.injEq, Prod.mk.injEq] at h
    obtain ⟨rfl, rfl⟩ := h
    cases cs with
    | nil => simp at some_digit
    | cons c cs =>
      have hc : c.isDigit = true := by
        cases hd : c.isDigit <;> simp_all [List.takeWhile]
      have := length_dropWhile_le Char.isDigit cs
      simp only [List.dropWhile_cons, hc, if_true, List.length_cons]
      omega

theorem scanWhole_length {cs ds rest : List Char} (h : scanWhole cs = some (ds, rest)) :
    rest.length < cs.length := by
  unfold scanWhole at h
  split at h
  · simp_all
  · exact scanDigits_length h

theorem scanFraction_length {cs ds rest : List Char} (h : scanFraction cs = some (ds, rest)) :
    rest.length ≤ cs.length := by
  unfold scanFraction at h
  split at h
  · have := scanDigits_length h
    simp only [List.length_cons]
    omega
  · simp_all

theorem scanSigned_length {cs rest : List Char} {x : Bool × List Char}
    (h : scanSigned cs = some (x, rest)) : rest.length < cs.length := by
  unfold scanSigned at h
  split at h <;>
  · obtain ⟨⟨ds, r⟩, hd, he⟩ := Option.map_eq_some_iff.1 h
    have shorter := scanDigits_length hd
    simp only [Prod.mk.injEq] at he
    obtain ⟨-, rfl⟩ := he
    grind

theorem scanExponent_length {cs rest : List Char} {x : Option (Bool × List Char)}
    (h : scanExponent cs = some (x, rest)) : rest.length ≤ cs.length := by
  unfold scanExponent at h
  split at h
  case h_3 => simp_all
  all_goals
    obtain ⟨⟨s, r⟩, hd, he⟩ := Option.map_eq_some_iff.1 h
    have shorter := scanSigned_length hd
    simp only [Prod.mk.injEq] at he
    obtain ⟨-, rfl⟩ := he
    simp only [List.length_cons]
    omega

theorem scanNumeral_length {negative : Bool} {cs rest : List Char} {n : Numeral}
    (h : scanNumeral negative cs = some (n, rest)) : rest.length < cs.length := by
  simp only [scanNumeral, bind, Option.bind_eq_some_iff, Prod.exists, pure] at h
  obtain ⟨w, r₁, h₁, f, r₂, h₂, x, r₃, h₃, h⟩ := h
  simp only [Option.some.injEq, Prod.mk.injEq] at h
  have := scanWhole_length h₁
  have := scanFraction_length h₂
  have := scanExponent_length h₃
  obtain ⟨-, rfl⟩ := h
  omega

theorem scanToken_length {cs rest : List Char} {t : Token}
    (h : scanToken cs = some (t, rest)) : rest.length < cs.length := by
  unfold scanToken at h
  split at h
  case h_10 =>
    -- a string: the quote is gone already
    simp only [Option.map_eq_some_iff, Prod.mk.injEq, Prod.exists] at h
    obtain ⟨s, r, hs, -, rfl⟩ := h
    have := scanString_length hs
    simp only [List.length_cons]
    omega
  case h_11 =>
    -- a number with a sign
    simp only [Option.map_eq_some_iff, Prod.mk.injEq, Prod.exists] at h
    obtain ⟨s, r, hs, -, rfl⟩ := h
    have := scanNumeral_length hs
    simp only [List.length_cons]
    omega
  case h_12 =>
    -- a number without one
    simp only [Option.map_eq_some_iff, Prod.mk.injEq, Prod.exists] at h
    obtain ⟨s, r, hs, -, rfl⟩ := h
    exact scanNumeral_length hs
  all_goals
    simp only [Option.some.injEq, Prod.mk.injEq] at h
    obtain ⟨-, rfl⟩ := h
    simp only [List.length_cons]
    omega

/-- The tokens of a text. -/
def tokens? (cs : List Char) : Option (List Token) :=
  match cs with
  | [] => some []
  | c :: rest =>
    if isSpace c then tokens? rest
    else match _taken : scanToken (c :: rest) with
      | none => none
      | some (t, rest') => (tokens? rest').map (t :: ·)
termination_by cs.length
decreasing_by
  · simp
  · exact scanToken_length _taken

end BoundSelect.Json
