import BoundSelect.Engine
import BoundSelect.Proofs.Alphabet
import BoundSelect.Proofs.Fence
import BoundSelect.Proofs.Lockstep

/-!
# Tokens of a written statement

A written statement is read in two stages. First the text and the parameters are put together again:
each placeholder becomes the value bound to it (`symbols_query`). Then the characters between breaks
are taken together as words (`lex`). The tokens of fragments one after the other are those of the
first and then those of the second, wherever the second begins with a break
(`Fragment.tokens_append`).
-/

set_option autoImplicit false

namespace BoundSelect

/-! ## Symbols -/

/-- A character of a statement, or a value in it. -/
inductive Symbol where
  | char (c : Char)
  | value (v : Value)

/-- The symbols of a fragment. -/
def Fragment.symbols : Fragment → List Symbol
  | [] => []
  | .text s :: f => s.toList.map .char ++ Fragment.symbols f
  | .value v :: f => .value v :: Fragment.symbols f

/-- Puts values in the places of placeholders: a sign that opens a placeholder becomes the next
value, and the digits behind it, which are passed over as long as `numbered` says, are dropped. -/
def symbolsOf (numbered : Bool) : List Char → List Value → List Symbol
  | [], _ => []
  | c :: cs, vs =>
    if numbered && c.isDigit then symbolsOf true cs vs
    else if c = '$' || c = '?' then (vs.take 1).map .value ++ symbolsOf true cs vs.tail
    else .char c :: symbolsOf false cs vs

/-- Text without placeholders. -/
theorem symbolsOf_append {cs : List Char} (hdollar : '$' ∉ cs) (hmark : '?' ∉ cs)
    (rest : List Char) (vs : List Value) :
    symbolsOf false (cs ++ rest) vs = cs.map .char ++ symbolsOf false rest vs := by
  induction cs with
  | nil => rfl
  | cons c cs ih =>
      rw [List.mem_cons, not_or] at hdollar hmark
      have hc : (c = '$' || c = '?') = false := by
        simp [Ne.symm hdollar.1, Ne.symm hmark.1]
      rw [List.cons_append, symbolsOf, Bool.false_and, if_neg Bool.false_ne_true, hc,
        if_neg Bool.false_ne_true, ih hdollar.2 hmark.2, List.map_cons, List.cons_append]

theorem symbolsOf_digits {cs : List Char} (h : ∀ c ∈ cs, c.isDigit = true) (rest : List Char)
    (vs : List Value) : symbolsOf true (cs ++ rest) vs = symbolsOf true rest vs := by
  induction cs with
  | nil => rfl
  | cons c cs ih =>
      rw [List.cons_append, symbolsOf, h c List.mem_cons_self, Bool.true_and, if_pos rfl]
      exact ih fun d hd => h d (List.mem_cons_of_mem c hd)

/-- A placeholder of an engine is a sign and digits behind it. -/
theorem Engine.toList_placeholder (e : Engine) (n : Nat) :
    ∃ sign digits, (e.dialect.placeholder n).toList = sign :: digits ∧
      (sign = '$' || sign = '?') = true ∧ ∀ c ∈ digits, c.isDigit = true := by
  cases e with
  | postgres =>
      refine ⟨'$', Nat.toDigits 10 n, Dialect.toList_placeholder_postgres n, rfl, fun c hc => ?_⟩
      exact Nat.isDigit_of_mem_toDigits (by decide) (by decide) hc
  | mysql => exact ⟨'?', [], by simp [Engine.dialect, Dialect.mysql], rfl, by simp⟩

/-- Text and values of a fragment give its symbols back. Behind a placeholder a break follows, so no
digit of the text is taken for one of its number. -/
theorem Fragment.symbolsOf_spell (e : Engine) {f : Fragment} (hdollar : f.Free '$')
    (hmark : f.Free '?') (hfenced : f.Fenced) (numbered : Bool)
    (hparted : numbered = true → f.Parted) (bound : Nat) :
    symbolsOf numbered (f.spell e.dialect.placeholder bound).toList f.values = f.symbols := by
  induction f generalizing numbered bound with
  | nil => cases numbered <;> rfl
  | cons p f ih =>
      have hdollars : Fragment.Free '$' f := fun s hs => hdollar s (List.mem_cons_of_mem _ hs)
      have hmarks : Fragment.Free '?' f := fun s hs => hmark s (List.mem_cons_of_mem _ hs)
      cases p with
      | text s =>
          have hs : '$' ∉ s.toList := hdollar s List.mem_cons_self
          have hs' : '?' ∉ s.toList := hmark s List.mem_cons_self
          rw [Fragment.spell, String.toList_append, Fragment.symbols, Fragment.values_text]
          cases numbered with
          | false =>
              rw [symbolsOf_append hs hs', ih hdollars hmarks hfenced false (by simp)]
          | true =>
              -- behind a placeholder: an empty text leaves the number open, any other ends it
              have hopen := hparted rfl
              unfold Fragment.Parted at hopen
              split at hopen
              · next hnil =>
                  rw [hnil, List.nil_append, List.map_nil, List.nil_append]
                  exact ih hdollars hmarks hfenced true (fun _ => hopen) bound
              · next c cs hcons =>
                  -- the text opens with a break, which ends the number
                  have hstart : ∀ rest vs, symbolsOf true (c :: rest) vs =
                      symbolsOf false (c :: rest) vs := by
                    intro rest vs
                    rw [symbolsOf, symbolsOf, isDigit_of_isBreak hopen, Bool.and_false,
                      Bool.and_false]
                  rw [hcons, List.cons_append, hstart, ← List.cons_append, ← hcons,
                    symbolsOf_append hs hs', ih hdollars hmarks hfenced false (by simp)]
      | value v =>
          obtain ⟨sign, digits, hplaceholder, hsign, hdigits⟩ :=
            e.toList_placeholder (bound + 1)
          -- the sign of the next placeholder is no digit of the one before
          have hnumber : sign.isDigit = false := by
            simp only [Bool.or_eq_true, decide_eq_true_eq] at hsign
            rcases hsign with rfl | rfl <;> rfl
          rw [Fragment.spell, String.toList_append, hplaceholder, List.cons_append, symbolsOf,
            hnumber, Bool.and_false, if_neg Bool.false_ne_true, hsign, if_pos rfl,
            Fragment.values_value]
          rw [List.take_succ_cons, List.take_zero, List.tail_cons, symbolsOf_digits hdigits,
            ih hdollars hmarks hfenced.2 true (fun _ => hfenced.1), Fragment.symbols]
          rfl

/-- Text and parameters of a query give back the symbols of the statement, if no text of the
statement has a sign that opens a placeholder. -/
theorem Select.symbols_query {s : Select} {e : Engine} (hdialect : s.dialect = e.dialect)
    (hdollar : s.Verbatim (Free '$')) (hmark : s.Verbatim (Free '?')) :
    symbolsOf false s.query.sql.toList s.query.params = s.fragment.symbols := by
  rw [Select.query_eq, hdialect, ← Select.values_fragment]
  exact Fragment.symbolsOf_spell e (Select.free_fragment rfl s hdollar)
    (Select.free_fragment rfl s hmark) (Select.fenced s) false (by simp) 0

/-! ## Tokens -/

/-- A token: a word, a mark that stands for itself, or a value. -/
inductive Token where
  | word (w : String)
  | opening
  | closing
  | comma
  | value (v : Value)

/-- The word that ends where a break stands, if there is one. -/
def endWord (w : List Char) : List Token :=
  if w = [] then [] else [.word (String.ofList w)]

/-- The token of a break. A blank has none. -/
def breakTokens (c : Char) : List Token :=
  if c = '(' then [.opening]
  else if c = ')' then [.closing]
  else if c = ',' then [.comma]
  else []

/-- The tokens of symbols behind the characters of a word that has begun. -/
def lex (w : List Char) : List Symbol → List Token
  | [] => endWord w
  | .value v :: xs => endWord w ++ .value v :: lex [] xs
  | .char c :: xs =>
    if isBreak c then endWord w ++ (breakTokens c ++ lex [] xs) else lex (w ++ [c]) xs

/-- Nothing, or symbols that begin with a break. -/
def OpensBreak : List Symbol → Prop
  | .char c :: _ => isBreak c = true
  | .value _ :: _ => False
  | [] => True

/-- A word does not go on over a break. -/
theorem lex_append {xs ys : List Symbol} (h : OpensBreak ys) (w : List Char) :
    lex w (xs ++ ys) = lex w xs ++ lex [] ys := by
  induction xs generalizing w with
  | nil =>
      -- the first symbols are used up: whatever word has begun ends at the break
      rcases ys with _ | ⟨⟨c⟩ | ⟨v⟩, ys⟩
      · rw [List.nil_append, lex, lex, endWord, endWord, if_pos rfl, List.append_nil]
      · have hc : isBreak c = true := h
        simp only [List.nil_append, lex, hc, if_pos, endWord]
      · exact h.elim
  | cons x xs ih =>
      cases x with
      | value v => rw [List.cons_append, lex, lex, ih, List.append_assoc, List.cons_append]
      | char c =>
          rw [List.cons_append, lex, lex]
          split
          · rw [ih, List.append_assoc, List.append_assoc]
          · exact ih _

/-- The characters of a word are taken together. -/
theorem lex_word {cs : List Char} (h : ∀ c ∈ cs, isBreak c = false) (w : List Char)
    (xs : List Symbol) : lex w (cs.map .char ++ xs) = lex (w ++ cs) xs := by
  induction cs generalizing w with
  | nil => rw [List.map_nil, List.nil_append, List.append_nil]
  | cons c cs ih =>
      have hc : isBreak c = false := h c List.mem_cons_self
      rw [List.map_cons, List.cons_append, lex, hc, if_neg Bool.false_ne_true,
        ih (fun d hd => h d (List.mem_cons_of_mem c hd)), List.append_assoc, List.singleton_append]

namespace Fragment

/-- The tokens of a fragment. -/
def tokens (f : Fragment) : List Token := lex [] f.symbols

theorem symbols_append (f g : Fragment) : symbols (f ++ g) = symbols f ++ symbols g := by
  induction f with
  | nil => rfl
  | cons p f ih =>
      cases p with
      | text s => rw [List.cons_append, symbols, symbols, ih, List.append_assoc]
      | value v => rw [List.cons_append, symbols, symbols, ih, List.cons_append]

theorem opensBreak_symbols {f : Fragment} (h : Parted f) : OpensBreak f.symbols := by
  induction f with
  | nil => trivial
  | cons p f ih =>
      cases p with
      | value v => exact h.elim
      | text s =>
          unfold Parted at h
          rw [symbols]
          split at h
          · next hs =>
              rw [hs]
              exact ih h
          · next c cs hs =>
              rw [hs]
              exact h

/-- Fragments one after the other, the second of which begins with a break. -/
theorem tokens_append (f : Fragment) {g : Fragment} (h : Parted g) :
    tokens (f ++ g) = tokens f ++ tokens g := by
  rw [tokens, symbols_append, lex_append (opensBreak_symbols h)]
  rfl

theorem tokens_text_append (s t : String) (f : Fragment) :
    tokens (.text (s ++ t) :: f) = tokens (.text s :: .text t :: f) := by
  simp only [tokens, symbols, String.toList_append, List.map_append, List.append_assoc]

end Fragment

/-! ## Texts and their tokens -/

/-- Before a break, or at the end, the text has these tokens. -/
def Lexes (s : String) (ts : List Token) : Prop :=
  ∀ f : Fragment, f.Parted → Fragment.tokens (.text s :: f) = ts ++ f.tokens

/-- Whatever comes after it, the text has these tokens. It ends with a break. -/
def LexesApart (s : String) (ts : List Token) : Prop :=
  ∀ f : Fragment, Fragment.tokens (.text s :: f) = ts ++ f.tokens

section Lexes

variable {s t : String} {ts us : List Token}

open Fragment

theorem LexesApart.append (hs : LexesApart s ts) (ht : Lexes t us) : Lexes (s ++ t) (ts ++ us) := by
  intro f hf
  rw [tokens_text_append, hs, ht f hf, List.append_assoc]

theorem Lexes.append (hs : Lexes s ts) (ht : Lexes t us) (hopen : OpensBlank t) :
    Lexes (s ++ t) (ts ++ us) := by
  intro f hf
  rw [tokens_text_append, hs _ (parted_text_of_opensBlank hopen hf), ht f hf, List.append_assoc]

/-- A text before one that begins and ends with a break. -/
theorem Lexes.append_apart (hs : Lexes s ts) {c : Char} (hc : t.toList.head? = some c)
    (hbreak : isBreak c = true) (ht : LexesApart t us) : LexesApart (s ++ t) (ts ++ us) := by
  intro f
  -- the first text is parted from the second by the break that the second begins with
  have hopen : Parted (.text t :: f) := by
    rw [Parted]
    split
    · next h => simp [h] at hc
    · next d ds h =>
        rw [h] at hc
        exact Option.some.inj hc ▸ hbreak
  rw [tokens_text_append, hs _ hopen, ht f, List.append_assoc]

theorem lexes_of_lex (h : lex [] (s.toList.map .char) = ts) : Lexes s ts := by
  intro f hf
  rw [tokens, symbols, lex_append (opensBreak_symbols hf), h]
  rfl

/-- A text of one word. -/
theorem lexes_word {w : String} (hw : w.toList ≠ []) (hbreak : ∀ c ∈ w.toList, isBreak c = false) :
    Lexes w [.word w] := by
  apply lexes_of_lex
  rw [← List.append_nil (w.toList.map _), lex_word hbreak, List.nil_append, lex, endWord, if_neg hw,
    String.ofList_toList]

theorem lexes_empty : Lexes "" [] := fun _ _ => rfl

/-- Runs of tokens with commas between them. -/
def commaSeparated : List (List Token) → List Token
  | [] => []
  | [ts] => ts
  | ts :: us :: rest => ts ++ .comma :: commaSeparated (us :: rest)

theorem lexesApart_blank : LexesApart " " [] := fun _ => rfl

theorem lexesApart_comma : LexesApart ", " [.comma] := fun _ => rfl

theorem lexes_intercalate {α : Type} {items : List α} {text : α → String}
    {tokensOf : α → List Token} (h : ∀ a ∈ items, Lexes (text a) (tokensOf a)) :
    Lexes (", ".intercalate (items.map text)) (commaSeparated (items.map tokensOf)) := by
  induction items with
  | nil => exact lexes_empty
  | cons a items ih =>
      have ha : Lexes (text a) (tokensOf a) := h a List.mem_cons_self
      have hitems := ih fun b hb => h b (List.mem_cons_of_mem _ hb)
      cases items with
      | nil => exact String.intercalate_singleton ▸ ha
      | cons b items =>
          rw [List.map_cons, List.map_cons, String.intercalate_cons_cons]
          have hcomma : LexesApart (text a ++ ", ") (tokensOf a ++ [.comma]) :=
            ha.append_apart rfl rfl lexesApart_comma
          have hall := hcomma.append hitems
          rwa [List.append_assoc] at hall

/-- Words with commas between them. -/
theorem lexes_words {ws : List String} (h : ∀ w ∈ ws, Lexes w [.word w]) :
    Lexes (", ".intercalate ws) (commaSeparated (ws.map fun w => [.word w])) := by
  have hwords : Lexes (", ".intercalate (ws.map id))
      (commaSeparated (ws.map fun w => [.word w])) := lexes_intercalate h
  rwa [List.map_id] at hwords

end Lexes

end BoundSelect
