import BoundSelect.Json.Document
import BoundSelect.Json.Printer
import BoundSelect.Proofs.JsonTokens

/-!
# Written documents are read

A document is written as a sequence of tokens, whatever spaces are put around them; strings may be
written with escapes or without. Every text that writes the tokens of a document is read as this
document (`Document.ofText?_of_writes`), however deep it is. Strings and whole numbers as they are
printed are among these texts.
-/

set_option autoImplicit false

namespace BoundSelect.Json

/-! ## The tokens of documents -/

mutual

/-- The tokens of a document. -/
def Document.tokens : Document → List Token
  | .null => [.null]
  | .bool b => [.bool b]
  | .numeral n => [.numeral n]
  | .string s => [.string s]
  | .array [] => [.openBracket, .closeBracket]
  | .array (d :: ds) => .openBracket :: (d.tokens ++ Document.itemTokens ds)
  | .object [] => [.openBrace, .closeBrace]
  | .object ((k, d) :: ms) =>
    .openBrace :: .string k :: .colon :: (d.tokens ++ Document.memberTokens ms)

/-- The tokens of the items after the first one, and the end of the array. -/
def Document.itemTokens : List Document → List Token
  | [] => [.closeBracket]
  | d :: ds => .comma :: (d.tokens ++ Document.itemTokens ds)

/-- The tokens of the members after the first one, and the end of the object. -/
def Document.memberTokens : List (List StringUnit × Document) → List Token
  | [] => [.closeBrace]
  | (k, d) :: ms => .comma :: .string k :: .colon :: (d.tokens ++ Document.memberTokens ms)

end

/-! ## Tokens form their document -/

/-- The first item of an array is read as any value: no value starts with the end of an array. -/
theorem Document.foldlM_firstItem (d : Document) (around : List Frame) (ts : List Token) :
    (d.tokens ++ ts).foldlM State.step (.firstItem around) =
      (d.tokens ++ ts).foldlM State.step (.value (.array [] :: around)) := by
  cases d with
  | array items => cases items <;> simp only [tokens, List.cons_append, List.foldlM_cons] <;> rfl
  | object members =>
      cases members <;> simp only [tokens, List.cons_append, List.foldlM_cons] <;> rfl
  | _ =>
      simp only [tokens, List.cons_append, List.foldlM_cons]
      rfl

mutual

/-- Where a value is awaited, the tokens of a document complete it. -/
theorem Document.foldlM_tokens (d : Document) (around : List Frame) (ts : List Token) :
    (d.tokens ++ ts).foldlM State.step (.value around) =
      ts.foldlM State.step (.complete d around) := by
  match d with
  | .null | .bool _ | .numeral _ | .string _ | .array [] | .object [] =>
      simp only [tokens, List.cons_append, List.foldlM_cons]
      rfl
  | .array (d :: ds) =>
      have hopen : State.step (.value around) .openBracket = some (.firstItem around) := rfl
      rw [tokens, List.cons_append, List.foldlM_cons, hopen, List.append_assoc]
      simp only [bind, Option.bind]
      rw [foldlM_firstItem, foldlM_tokens d, foldlM_itemTokens ds, List.nil_append]
  | .object ((k, d) :: ms) =>
      have hopen : State.step (.value around) .openBrace = some (.firstName around) := rfl
      have hname : State.step (.firstName around) (.string k) = some (.colon [] k around) := rfl
      have hcolon : State.step (.colon [] k around) .colon =
          some (.value (.object [] k :: around)) := rfl
      rw [tokens, List.cons_append, List.cons_append, List.cons_append, List.append_assoc]
      simp only [List.foldlM_cons, hopen, hname, hcolon, bind, Option.bind]
      rw [foldlM_tokens d, foldlM_memberTokens ms, List.nil_append]

theorem Document.foldlM_itemTokens (ds done : List Document) (d : Document) (around : List Frame)
    (ts : List Token) :
    (itemTokens ds ++ ts).foldlM State.step (.complete d (.array done :: around)) =
      ts.foldlM State.step (.complete (.array (done ++ d :: ds)) around) := by
  match ds with
  | [] => rfl
  | e :: ds =>
      have hcomma : State.step (.complete d (.array done :: around)) .comma =
          some (.value (.array (done ++ [d]) :: around)) := rfl
      rw [itemTokens, List.cons_append, List.foldlM_cons, hcomma, List.append_assoc]
      simp only [bind, Option.bind]
      rw [foldlM_tokens e, foldlM_itemTokens ds, List.append_assoc, List.singleton_append]

theorem Document.foldlM_memberTokens (ms done : List (List StringUnit × Document))
    (k : List StringUnit) (d : Document) (around : List Frame) (ts : List Token) :
    (memberTokens ms ++ ts).foldlM State.step (.complete d (.object done k :: around)) =
      ts.foldlM State.step (.complete (.object (done ++ (k, d) :: ms)) around) := by
  match ms with
  | [] => rfl
  | (l, e) :: ms =>
      have hcomma : State.step (.complete d (.object done k :: around)) .comma =
          some (.name (done ++ [(k, d)]) around) := rfl
      have hname : State.step (.name (done ++ [(k, d)]) around) (.string l) =
          some (.colon (done ++ [(k, d)]) l around) := rfl
      have hcolon : State.step (.colon (done ++ [(k, d)]) l around) .colon =
          some (.value (.object (done ++ [(k, d)]) l :: around)) := rfl
      rw [memberTokens, List.cons_append, List.cons_append, List.cons_append, List.append_assoc]
      simp only [List.foldlM_cons, hcomma, hname, hcolon, bind, Option.bind]
      rw [foldlM_tokens e, foldlM_memberTokens ms, List.append_assoc, List.singleton_append]

end

theorem Document.ofTokens?_tokens (d : Document) : ofTokens? d.tokens = some d := by
  have hrun := foldlM_tokens d [] []
  rw [List.append_nil, List.foldlM_nil] at hrun
  rw [ofTokens?, hrun]
  rfl

/-! ## No two tokens of a document run together -/

theorem isChain_cons_of_touches {t : Token} {ts : List Token}
    (ht : ∀ u, Token.Touches t u) (hts : ts.IsChain Token.Touches) :
    (t :: ts).IsChain Token.Touches :=
  List.isChain_cons.2 ⟨fun u _ => ht u, hts⟩

theorem Document.closes_itemTokens (ds : List Document) (ts : List Token) :
    ∀ u ∈ (itemTokens ds ++ ts).head?, u.closes = true := by
  intro u hu
  cases ds <;> · cases hu; rfl

theorem Document.closes_memberTokens (ms : List (List StringUnit × Document)) (ts : List Token) :
    ∀ u ∈ (memberTokens ms ++ ts).head?, u.closes = true := by
  intro u hu
  cases ms <;> · cases hu; rfl

mutual

theorem Document.isChain_tokens (d : Document) {ts : List Token}
    (hnext : ∀ u ∈ ts.head?, u.closes = true) (hts : ts.IsChain Token.Touches) :
    (d.tokens ++ ts).IsChain Token.Touches := by
  match d with
  | .numeral n => exact List.isChain_cons.2 ⟨hnext, hts⟩
  | .null | .bool _ | .string _ => exact isChain_cons_of_touches (fun _ => trivial) hts
  | .array [] | .object [] =>
      exact isChain_cons_of_touches (fun _ => trivial)
        (isChain_cons_of_touches (fun _ => trivial) hts)
  | .array (d :: ds) =>
      rw [tokens, List.cons_append, List.append_assoc]
      exact isChain_cons_of_touches (fun _ => trivial)
        (isChain_tokens d (closes_itemTokens ds ts) (isChain_itemTokens ds hts))
  | .object ((k, d) :: ms) =>
      rw [tokens, List.cons_append, List.cons_append, List.cons_append, List.append_assoc]
      refine isChain_cons_of_touches (fun _ => trivial) (isChain_cons_of_touches (fun _ => trivial)
        (isChain_cons_of_touches (fun _ => trivial) ?_))
      exact isChain_tokens d (closes_memberTokens ms ts) (isChain_memberTokens ms hts)

theorem Document.isChain_itemTokens (ds : List Document) {ts : List Token}
    (hts : ts.IsChain Token.Touches) : (itemTokens ds ++ ts).IsChain Token.Touches := by
  match ds with
  | [] => exact isChain_cons_of_touches (fun _ => trivial) hts
  | d :: ds =>
      rw [itemTokens, List.cons_append, List.append_assoc]
      exact isChain_cons_of_touches (fun _ => trivial)
        (isChain_tokens d (closes_itemTokens ds ts) (isChain_itemTokens ds hts))

theorem Document.isChain_memberTokens (ms : List (List StringUnit × Document)) {ts : List Token}
    (hts : ts.IsChain Token.Touches) : (memberTokens ms ++ ts).IsChain Token.Touches := by
  match ms with
  | [] => exact isChain_cons_of_touches (fun _ => trivial) hts
  | (k, d) :: ms =>
      rw [memberTokens, List.cons_append, List.cons_append, List.cons_append, List.append_assoc]
      refine isChain_cons_of_touches (fun _ => trivial) (isChain_cons_of_touches (fun _ => trivial)
        (isChain_cons_of_touches (fun _ => trivial) ?_))
      exact isChain_tokens d (closes_memberTokens ms ts) (isChain_memberTokens ms hts)

end

/-- A text that writes the tokens of a document is read as this document. -/
theorem Document.ofText?_of_writes {d : Document} {cs : List Char} (h : Writes d.tokens cs) :
    ofText? cs = some d := by
  have hchain : d.tokens.IsChain Token.Touches := by
    have happend := @isChain_tokens d [] (by simp) .nil
    rwa [List.append_nil] at happend
  rw [ofText?, tokens?_of_writes h hchain]
  exact ofTokens?_tokens d

/-! ## Strings -/

/-- What the pieces of a string say. A character may be given as itself or by its code units: one of
them, or two if its number takes more than sixteen bits. -/
inductive Says : List StringUnit → List Char → Prop where
  | nil : Says [] []
  | char (c : Char) {us : List StringUnit} {cs : List Char} (h : Says us cs) :
      Says (.char c :: us) (c :: cs)
  | unit {c : Char} (hc : c.toNat < 0x10000) {us : List StringUnit} {cs : List Char}
      (h : Says us cs) : Says (.unit c.toNat :: us) (c :: cs)
  | pair {c : Char} (hc : 0x10000 ≤ c.toNat) {us : List StringUnit} {cs : List Char}
      (h : Says us cs) :
      Says (.unit (0xD800 + (c.toNat - 0x10000) / 0x400) ::
        .unit (0xDC00 + (c.toNat - 0x10000) % 0x400) :: us) (c :: cs)

theorem characters?_of_says {us : List StringUnit} {cs : List Char} (h : Says us cs) :
    characters? us = some cs := by
  induction h with
  | nil => rfl
  | char c _ ih => rw [characters?, ih]; rfl
  | @unit c hc us cs _ ih =>
      -- no character has the number of a surrogate
      have hvalid : c.toNat < 0xD800 ∨ 0xDFFF < c.toNat ∧ c.toNat < 0x110000 := c.valid
      have hpair : ∀ lo, ¬ (0xD800 ≤ c.toNat ∧ c.toNat < 0xDC00 ∧ 0xDC00 ≤ lo ∧ lo < 0xE000) := by
        omega
      have hlone : ¬ (0xD800 ≤ c.toNat ∧ c.toNat < 0xE000) := by omega
      match us with
      | [] | .char _ :: _ =>
          rw [characters?, if_neg hlone, ih, Char.ofNat_toNat]
          · rfl
          · simp
      | .unit lo :: us =>
          rw [characters?, if_neg (hpair lo), if_neg hlone, ih, Char.ofNat_toNat]
          rfl
  | @pair c hc us cs _ ih =>
      have hmax : c.toNat < 0xD800 ∨ 0xDFFF < c.toNat ∧ c.toNat < 0x110000 := c.valid
      have hhalf : (0xD800 ≤ 0xD800 + (c.toNat - 0x10000) / 0x400 ∧
          0xD800 + (c.toNat - 0x10000) / 0x400 < 0xDC00 ∧
          0xDC00 ≤ 0xDC00 + (c.toNat - 0x10000) % 0x400 ∧
          0xDC00 + (c.toNat - 0x10000) % 0x400 < 0xE000) := by
        omega
      have hnumber : 0x10000 + 0x400 * (0xD800 + (c.toNat - 0x10000) / 0x400 - 0xD800) +
          (0xDC00 + (c.toNat - 0x10000) % 0x400 - 0xDC00) = c.toNat := by
        omega
      rw [characters?, if_pos hhalf, ih, hnumber, Char.ofNat_toNat]
      rfl

theorem stringOf?_of_says {us : List StringUnit} {s : String} (h : Says us s.toList) :
    stringOf? us = some s := by
  rw [stringOf?, characters?_of_says h]
  exact congrArg some String.ofList_toList

/-! ## What is printed -/

/-- The digits of a control character are those of its number. -/
theorem hexNumber?_control {n : Nat} (h : n < 0x20) :
    Text.hexNumber? ['0', '0', Text.hexDigit (n / 16), Text.hexDigit n] = some n := by
  have hall : (List.range 0x20).all fun n =>
      Text.hexNumber? ['0', '0', Text.hexDigit (n / 16), Text.hexDigit n] = some n := by
    decide
  simpa using List.all_eq_true.1 hall n (List.mem_range.2 h)

/-- The piece of a string that a character is printed as: a control character without a letter of
its own is given by its number. -/
def pieceOf (c : Char) : StringUnit :=
  if c.toNat < 0x20 ∧ c ∉ ['\x08', '\t', '\n', '\x0c', '\r'] then .unit c.toNat else .char c

/-- The pieces of a string that a text is printed as. -/
def pieces (s : String) : List StringUnit :=
  s.toList.map pieceOf

theorem says_pieces (s : String) : Says (pieces s) s.toList := by
  have hall : ∀ cs : List Char, Says (cs.map pieceOf) cs := by
    intro cs
    induction cs with
    | nil => exact .nil
    | cons c cs ih =>
        rw [List.map_cons, pieceOf]
        split
        · next h => exact .unit (by omega) ih
        · exact .char c ih
  exact hall s.toList

theorem written_pieceOf (c : Char) : (pieceOf c).Written (escape c) := by
  unfold escape
  split
  · next h =>
      subst h
      exact .short (by decide)
  split
  · next h =>
      subst h
      exact .short (by decide)
  split
  · next hquote hslash hvisible =>
      rw [pieceOf, if_neg (by omega)]
      exact .plain hquote hslash hvisible
  -- below the space a character has a letter or is given by its number
  split
  · next h =>
      subst h
      exact .short (by decide)
  split
  · next h =>
      subst h
      exact .short (by decide)
  split
  · next h =>
      subst h
      exact .short (by decide)
  split
  · next h =>
      subst h
      exact .short (by decide)
  split
  · next h =>
      subst h
      exact .short (by decide)
  · next hcontrol hb ht hn hf hr =>
      have hnumber : c.toNat < 0x20 ∧ c ∉ ['\x08', '\t', '\n', '\x0c', '\r'] := by
        simp [hb, ht, hn, hf, hr]
        omega
      rw [pieceOf, if_pos hnumber]
      exact .unit (hexNumber?_control hnumber.1)

theorem written_stringText (s : String) : (Token.string (pieces s)).Written (stringText s) := by
  have hinside : ∀ cs : List Char, StringUnit.WrittenAll (cs.map pieceOf) (cs.flatMap escape) := by
    intro cs
    induction cs with
    | nil => exact .nil
    | cons c cs ih => exact .cons (written_pieceOf c) ih
  exact .string (hinside s.toList)

/-- Only zero is printed with a zero in front. -/
theorem head?_toDigits {n : Nat} (h : 0 < n) : (Nat.toDigits 10 n).head? ≠ some '0' := by
  induction n using Nat.strongRecOn with
  | ind n ih =>
      rw [Nat.toDigits_eq_if (by decide)]
      split
      · have hzero : n ≠ 0 := by omega
        simp [hzero]
      · next hge =>
          have hhead := ih (n / 10) (by omega) (by omega)
          rwa [List.head?_append_of_ne_nil _ Nat.toDigits_ne_nil]

theorem isWhole_toDigits (n : Nat) : IsWhole (Nat.toDigits 10 n) := by
  cases n with
  | zero => exact .inl (Nat.toDigits_zero 10)
  | succ n =>
      refine .inr ⟨⟨Nat.toDigits_ne_nil, fun c hc => ?_⟩, head?_toDigits (Nat.succ_pos n)⟩
      exact Nat.isDigit_of_mem_toDigits (by decide) (by decide) hc

/-- The digits of a natural number are written as a number without fraction and exponent. -/
theorem written_toDigits (n : Nat) :
    Numeral.Written ⟨false, Nat.toDigits 10 n, [], none⟩ (Nat.toDigits 10 n) := by
  have hwritten := Numeral.Written.positive (isWhole_toDigits n) .absent .absent
  rwa [List.append_nil, List.append_nil] at hwritten

end BoundSelect.Json
