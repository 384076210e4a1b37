import BoundSelect.Json.Token
import BoundSelect.Text.Blank
import Mathlib.Data.List.Chain

/-!
# How JSON tokens are written

The grammar of the tokens of JSON texts, said without a reader: strings as sequences of characters
and escapes, numbers as their parts, and a text as tokens with spaces, tabs and line ends around
them. A text that writes tokens is read as these tokens, provided that a mark follows on every
number that is not the last token (`tokens?_of_writes`).
-/

set_option autoImplicit false

namespace BoundSelect.Json

/-! ## The grammar -/

/-- The characters that an escape of one letter stands for, behind the letters. -/
def shortEscapes : List (Char × Char) :=
  [('"', '"'), ('\\', '\\'), ('/', '/'), ('b', '\x08'), ('f', '\x0c'), ('n', '\n'), ('r', '\r'),
    ('t', '\t')]

/-- How a piece of a string is written. -/
inductive StringUnit.Written : StringUnit → List Char → Prop where
  | plain {c : Char} (hquote : c ≠ '"') (hslash : c ≠ '\\') (hcontrol : 0x20 ≤ c.toNat) :
      Written (.char c) [c]
  | short {letter c : Char} (h : (letter, c) ∈ shortEscapes) : Written (.char c) ['\\', letter]
  | unit {a b c d : Char} {n : Nat} (h : Text.hexNumber? [a, b, c, d] = some n) :
      Written (.unit n) ['\\', 'u', a, b, c, d]

/-- How the inside of a string is written. -/
inductive StringUnit.WrittenAll : List StringUnit → List Char → Prop where
  | nil : WrittenAll [] []
  | cons {u : StringUnit} {us : List StringUnit} {cs ds : List Char} (hu : u.Written cs)
      (hus : WrittenAll us ds) : WrittenAll (u :: us) (cs ++ ds)

/-- A run of digits. -/
def IsDigits (ds : List Char) : Prop :=
  ds ≠ [] ∧ ∀ c ∈ ds, c.isDigit = true

/-- The digits of a whole number: only a lone zero starts with a zero. -/
def IsWhole (ds : List Char) : Prop :=
  ds = ['0'] ∨ IsDigits ds ∧ ds.head? ≠ some '0'

/-- How the fraction of a number is written. -/
inductive FractionWritten : List Char → List Char → Prop where
  | absent : FractionWritten [] []
  | present {ds : List Char} (h : IsDigits ds) : FractionWritten ds ('.' :: ds)

/-- How the exponent of a number is written. -/
inductive ExponentWritten : Option (Bool × List Char) → List Char → Prop where
  | absent : ExponentWritten none []
  | plain {e : Char} {ds : List Char} (he : e = 'e' ∨ e = 'E') (h : IsDigits ds) :
      ExponentWritten (some (false, ds)) (e :: ds)
  | plus {e : Char} {ds : List Char} (he : e = 'e' ∨ e = 'E') (h : IsDigits ds) :
      ExponentWritten (some (false, ds)) (e :: '+' :: ds)
  | minus {e : Char} {ds : List Char} (he : e = 'e' ∨ e = 'E') (h : IsDigits ds) :
      ExponentWritten (some (true, ds)) (e :: '-' :: ds)

/-- How a number is written. -/
inductive Numeral.Written : Numeral → List Char → Prop where
  | positive {whole fraction fs xs : List Char} {exponent : Option (Bool × List Char)}
      (hwhole : IsWhole whole) (hfraction : FractionWritten fraction fs)
      (hexponent : ExponentWritten exponent xs) :
      Written ⟨false, whole, fraction, exponent⟩ (whole ++ (fs ++ xs))
  | negative {whole fraction fs xs : List Char} {exponent : Option (Bool × List Char)}
      (hwhole : IsWhole whole) (hfraction : FractionWritten fraction fs)
      (hexponent : ExponentWritten exponent xs) :
      Written ⟨true, whole, fraction, exponent⟩ ('-' :: (whole ++ (fs ++ xs)))

/-- How a token is written. -/
inductive Token.Written : Token → List Char → Prop where
  | openBrace : Written .openBrace ['{']
  | closeBrace : Written .closeBrace ['}']
  | openBracket : Written .openBracket ['[']
  | closeBracket : Written .closeBracket [']']
  | comma : Written .comma [',']
  | colon : Written .colon [':']
  | null : Written .null ['n', 'u', 'l', 'l']
  | yes : Written (.bool true) ['t', 'r', 'u', 'e']
  | no : Written (.bool false) ['f', 'a', 'l', 's', 'e']
  | numeral {n : Numeral} {cs : List Char} (h : n.Written cs) : Written (.numeral n) cs
  | string {us : List StringUnit} {cs : List Char} (h : StringUnit.WrittenAll us cs) :
      Written (.string us) ('"' :: (cs ++ ['"']))

/-- A text writes tokens: one after the other, with spaces around them. -/
inductive Writes : List Token → List Char → Prop where
  | nil {gap : List Char} (hgap : ∀ c ∈ gap, isSpace c = true) : Writes [] gap
  | cons {gap cs rest : List Char} {t : Token} {ts : List Token}
      (hgap : ∀ c ∈ gap, isSpace c = true) (ht : t.Written cs) (hrest : Writes ts rest) :
      Writes (t :: ts) (gap ++ (cs ++ rest))

theorem Writes.token {ts : List Token} {t : Token} {cs rest : List Char} (hrest : Writes ts rest)
    (ht : t.Written cs) : Writes (t :: ts) (cs ++ rest) :=
  @Writes.cons [] cs rest t ts (by simp) ht hrest

theorem Writes.space {ts : List Token} {cs : List Char} {c : Char} (h : Writes ts cs)
    (hc : isSpace c = true) : Writes ts (c :: cs) := by
  cases h with
  | @nil gap hgap => exact .nil (List.forall_mem_cons.2 ⟨hc, hgap⟩)
  | cons hgap ht hrest => exact .cons (List.forall_mem_cons.2 ⟨hc, hgap⟩) ht hrest

/-! ## Strings -/

theorem simpleEscape?_of_mem {letter c : Char} (h : (letter, c) ∈ shortEscapes) :
    letter ≠ 'u' ∧ simpleEscape? letter = some c := by
  have hall : shortEscapes.all fun e => e.1 ≠ 'u' ∧ simpleEscape? e.1 = some e.2 := by decide
  simpa using List.all_eq_true.1 hall _ h

/-- The pieces of a string are read one by one. -/
theorem scanString_written {u : StringUnit} {cs : List Char} (h : u.Written cs)
    (rest : List Char) :
    scanString (cs ++ rest) = (scanString rest).map fun x => (u :: x.1, x.2) := by
  cases h with
  | @plain c hquote hslash hcontrol =>
      have hnot : ¬ (c = '\\' ∨ c.toNat < 0x20) := by
        rintro (rfl | hlt)
        · exact hslash rfl
        · omega
      rw [List.singleton_append, scanString, if_neg hnot]
      · cases scanString rest <;> rfl
      · exact hquote
      · rintro a b c d tail rfl
        exact absurd rfl hslash
      · rintro e tail rfl
        exact absurd rfl hslash
  | @short letter c hmem =>
      obtain ⟨hu, hescape⟩ := simpleEscape?_of_mem hmem
      rw [List.cons_append, List.singleton_append, scanString, hescape]
      · cases scanString rest <;> rfl
      · rintro a b c d tail rfl
        exact absurd rfl hu
  | unit hn =>
      simp only [List.cons_append, List.nil_append]
      rw [scanString, hn]
      cases scanString rest <;> rfl

theorem scanString_writtenAll {us : List StringUnit} {cs : List Char}
    (h : StringUnit.WrittenAll us cs) (rest : List Char) :
    scanString (cs ++ '"' :: rest) = some (us, rest) := by
  induction h with
  | nil => rw [List.nil_append, scanString]
  | cons hu _ ih =>
      rw [List.append_assoc, scanString_written hu, ih]
      rfl

/-! ## Numbers -/

/-- Behind a number nothing may follow that would belong to it. -/
def EndsNumber (rest : List Char) : Prop :=
  ∀ c ∈ rest.head?, c.isDigit = false ∧ c ≠ '.' ∧ c ≠ 'e' ∧ c ≠ 'E'

theorem endsNumber_of_isSpace {c : Char} (h : isSpace c = true) :
    c.isDigit = false ∧ c ≠ '.' ∧ c ≠ 'e' ∧ c ≠ 'E' := by
  simp only [isSpace, Bool.or_eq_true, decide_eq_true_eq] at h
  rcases h with ((rfl | rfl) | rfl) | rfl <;> decide

theorem scanDigits_append {ds rest : List Char} (h : IsDigits ds)
    (hrest : ∀ c ∈ rest.head?, c.isDigit = false) : scanDigits (ds ++ rest) = some (ds, rest) := by
  rw [scanDigits, Text.takeWhile_append_stop h.2 hrest, Text.dropWhile_append_stop h.2 hrest,
    if_neg h.1]

theorem scanWhole_append {ds rest : List Char} (h : IsWhole ds)
    (hrest : ∀ c ∈ rest.head?, c.isDigit = false) : scanWhole (ds ++ rest) = some (ds, rest) := by
  rcases h with rfl | ⟨hdigits, hzero⟩
  · rfl
  · rw [scanWhole]
    · exact scanDigits_append hdigits hrest
    · intro tail htail
      cases ds with
      | nil => exact hdigits.1 rfl
      | cons d ds =>
          obtain ⟨rfl, -⟩ := List.cons.inj htail
          exact hzero rfl

theorem scanFraction_append {ds fs rest : List Char} (h : FractionWritten ds fs)
    (hrest : ∀ c ∈ rest.head?, c.isDigit = false ∧ c ≠ '.') :
    scanFraction (fs ++ rest) = some (ds, rest) := by
  cases h with
  | absent =>
      rw [List.nil_append, scanFraction]
      rintro tail rfl
      exact (hrest '.' rfl).2 rfl
  | present hdigits => exact scanDigits_append hdigits fun c hc => (hrest c hc).1

/-- Digits without a sign are positive. -/
theorem scanSigned_digits {ds rest : List Char} (h : IsDigits ds)
    (hrest : ∀ c ∈ rest.head?, c.isDigit = false) :
    scanSigned (ds ++ rest) = some ((false, ds), rest) := by
  have hsign : ∀ sign, sign.isDigit = false → ∀ tail, ds ++ rest ≠ sign :: tail := by
    rintro sign hsign tail heq
    cases ds with
    | nil => exact h.1 rfl
    | cons d ds =>
        obtain ⟨rfl, -⟩ := List.cons.inj heq
        rw [h.2 d List.mem_cons_self] at hsign
        cases hsign
  rw [scanSigned, scanDigits_append h hrest]
  · rfl
  · exact hsign '-' rfl
  · exact hsign '+' rfl

theorem scanExponent_append {x : Option (Bool × List Char)} {xs rest : List Char}
    (h : ExponentWritten x xs) (hrest : EndsNumber rest) :
    scanExponent (xs ++ rest) = some (x, rest) := by
  have hdigit : ∀ c ∈ rest.head?, c.isDigit = false := fun c hc => (hrest c hc).1
  -- both letters are read alike
  have hletter : ∀ {e : Char}, e = 'e' ∨ e = 'E' → ∀ cs,
      scanExponent (e :: cs) = (scanSigned cs).map fun x => (some x.1, x.2) := by
    rintro e (rfl | rfl) cs <;> rfl
  cases h with
  | absent =>
      rw [List.nil_append, scanExponent]
      · rintro tail rfl
        exact (hrest 'e' rfl).2.2.1 rfl
      · rintro tail rfl
        exact (hrest 'E' rfl).2.2.2 rfl
  | plain he hdigits =>
      rw [List.cons_append, hletter he, scanSigned_digits hdigits hdigit]
      rfl
  | plus he hdigits =>
      rw [List.cons_append, hletter he, List.cons_append, scanSigned,
        scanDigits_append hdigits hdigit]
      rfl
  | minus he hdigits =>
      rw [List.cons_append, hletter he, List.cons_append, scanSigned,
        scanDigits_append hdigits hdigit]
      rfl

/-- A number is read part by part: none of its parts goes on with what the next one starts with. -/
theorem scanNumeral_append {whole fraction fs xs rest : List Char}
    {exponent : Option (Bool × List Char)} (hwhole : IsWhole whole)
    (hfraction : FractionWritten fraction fs) (hexponent : ExponentWritten exponent xs)
    (hrest : EndsNumber rest) (negative : Bool) :
    scanNumeral negative (whole ++ (fs ++ xs) ++ rest) =
      some (⟨negative, whole, fraction, exponent⟩, rest) := by
  have hx : ∀ c ∈ (xs ++ rest).head?, c.isDigit = false ∧ c ≠ '.' := by
    intro c hc
    cases hexponent with
    | absent => exact ⟨(hrest c hc).1, (hrest c hc).2.1⟩
    | plain he _ | plus he _ | minus he _ =>
        obtain rfl : _ = c := Option.some.inj hc
        rcases he with rfl | rfl <;> decide
  have hf : ∀ c ∈ (fs ++ (xs ++ rest)).head?, c.isDigit = false := by
    intro c hc
    cases hfraction with
    | absent => exact (hx c hc).1
    | present _ =>
        obtain rfl : '.' = c := Option.some.inj hc
        rfl
  rw [List.append_assoc, List.append_assoc, scanNumeral, scanWhole_append hwhole hf]
  simp only [bind, Option.bind, pure]
  rw [scanFraction_append hfraction hx]
  simp only
  rw [scanExponent_append hexponent hrest]

/-! ## Tokens -/

/-- A number starts with a digit or a sign, which starts no other token. -/
theorem scanToken_digit {c : Char} (hc : c.isDigit = true) (cs : List Char) :
    scanToken (c :: cs) = (scanNumeral false (c :: cs)).map fun x => (.numeral x.1, x.2) := by
  unfold scanToken
  split
  case h_12 => rfl
  all_goals
    next heq =>
      obtain ⟨rfl, -⟩ := List.cons.inj heq
      exact absurd hc (by decide)

theorem IsWhole.exists_cons {ds : List Char} (h : IsWhole ds) :
    ∃ c cs, ds = c :: cs ∧ c.isDigit = true := by
  rcases h with rfl | ⟨⟨hne, hdigits⟩, -⟩
  · exact ⟨'0', [], rfl, rfl⟩
  · obtain ⟨c, cs, rfl⟩ := List.exists_cons_of_ne_nil hne
    exact ⟨c, cs, rfl, hdigits c List.mem_cons_self⟩

/-- What may stand behind a token as it is written. -/
def Token.MayPrecede : Token → List Char → Prop
  | .numeral _, rest => EndsNumber rest
  | _, _ => True

theorem scanToken_append {t : Token} {cs rest : List Char} (h : t.Written cs)
    (hrest : t.MayPrecede rest) : scanToken (cs ++ rest) = some (t, rest) := by
  cases h with
  | string hus =>
      rw [List.cons_append, List.append_assoc, List.singleton_append, scanToken,
        scanString_writtenAll hus]
      rfl
  | numeral hn =>
      cases hn with
      | positive hwhole hfraction hexponent =>
          have hscan := scanNumeral_append hwhole hfraction hexponent hrest false
          obtain ⟨c, tail, hcons, hc⟩ := hwhole.exists_cons
          rw [hcons, List.cons_append, List.cons_append] at hscan ⊢
          rw [scanToken_digit hc, hscan]
          rfl
      | negative hwhole hfraction hexponent =>
          rw [List.cons_append, scanToken, scanNumeral_append hwhole hfraction hexponent hrest]
          rfl
  | _ => rfl

theorem Token.Written.exists_cons {t : Token} {cs : List Char} (h : t.Written cs) :
    ∃ c tail, cs = c :: tail ∧ isSpace c = false := by
  cases h with
  | numeral hn =>
      cases hn with
      | positive hwhole _ _ =>
          obtain ⟨c, tail, rfl, hc⟩ := hwhole.exists_cons
          refine ⟨c, _, rfl, ?_⟩
          cases hspace : isSpace c with
          | false => rfl
          | true => exact absurd hc (by simp [(endsNumber_of_isSpace hspace).1])
      | negative _ _ _ => exact ⟨'-', _, rfl, rfl⟩
  | _ => exact ⟨_, _, rfl, rfl⟩

/-! ## Texts -/

/-- The marks that may follow on a value. -/
def Token.closes : Token → Bool
  | .comma | .closeBracket | .closeBrace => true
  | _ => false

/-- Whether a token is told apart from the one before it where no space is between them: behind a
number there must be a mark. -/
def Token.Touches : Token → Token → Prop
  | .numeral _, u => u.closes = true
  | _, _ => True

theorem Writes.endsNumber {n : Numeral} {ts : List Token} {cs : List Char} (h : Writes ts cs)
    (hts : ∀ u ∈ ts.head?, Token.Touches (.numeral n) u) : EndsNumber cs := by
  have hspace : ∀ {gap rest : List Char}, (∀ c ∈ gap, isSpace c = true) →
      EndsNumber rest → EndsNumber (gap ++ rest) := by
    intro gap rest hgap hrest
    cases gap with
    | nil => exact hrest
    | cons c gap =>
        intro d hd
        obtain rfl : c = d := Option.some.inj hd
        exact endsNumber_of_isSpace (hgap c List.mem_cons_self)
  cases h with
  | @nil gap hgap =>
      rw [← List.append_nil cs]
      exact hspace hgap (by simp [EndsNumber])
  | @cons gap cs rest u ts hgap hu _ =>
      refine hspace hgap ?_
      have hcloses : u.closes = true := hts u rfl
      cases hu with
      | comma | closeBracket | closeBrace =>
          intro c hc
          obtain rfl : _ = c := Option.some.inj hc
          decide
      | _ => cases hcloses

theorem tokens?_gap_append {gap : List Char} (hgap : ∀ c ∈ gap, isSpace c = true)
    (cs : List Char) : tokens? (gap ++ cs) = tokens? cs := by
  induction gap with
  | nil => rfl
  | cons c gap ih =>
      obtain ⟨hc, hgap⟩ := List.forall_mem_cons.1 hgap
      rw [List.cons_append, tokens?, if_pos hc, ih hgap]

theorem tokens?_of_scanToken {c : Char} {cs rest : List Char} {t : Token}
    (hc : isSpace c = false) (hscan : scanToken (c :: cs) = some (t, rest)) :
    tokens? (c :: cs) = (tokens? rest).map (t :: ·) := by
  rw [tokens?, if_neg (Bool.eq_false_iff.1 hc)]
  split
  · next hnone => simp [hscan] at hnone
  · next hsome =>
      rw [hscan] at hsome
      cases hsome
      rfl

/-- A text that writes tokens is read as these tokens. -/
theorem tokens?_of_writes {ts : List Token} {cs : List Char} (h : Writes ts cs)
    (hts : ts.IsChain Token.Touches) : tokens? cs = some ts := by
  induction h with
  | @nil gap hgap =>
      have hread := tokens?_gap_append hgap []
      rw [List.append_nil] at hread
      rw [hread, tokens?]
  | @cons gap cs rest t ts hgap ht hrest ih =>
      obtain ⟨hnext, htail⟩ := List.isChain_cons.1 hts
      have hprecede : t.MayPrecede rest := by
        cases t with
        | numeral n => exact hrest.endsNumber hnext
        | _ => trivial
      have hscan := scanToken_append ht hprecede
      obtain ⟨c, tail, rfl, hc⟩ := ht.exists_cons
      rw [List.cons_append] at hscan ⊢
      rw [tokens?_gap_append hgap, tokens?_of_scanToken hc hscan, ih htail]
      rfl

end BoundSelect.Json
