import BoundSelect.Engine
import BoundSelect.Proofs.Conditions
import BoundSelect.Proofs.Marks
import BoundSelect.Proofs.Soundness
import BoundSelect.Proofs.Tokens

/-!
# Lexemes of a written filter

The marks of a filter are taken apart in two steps. The characters between breaks are words, and no
step looks into a statement. Then each word is a placeholder, which stands for the value bound to
it, or one of the words and signs that conditions are spelled with, or a name. The tokens of a whole
statement would not do here, for they come from the texts inside statements too.

The lexemes found in this way are those that the predicates are spelled with, group by group, if
every column and every raw condition is a single word that cannot be taken for anything else
(`Filter.lexemes_marks`).
-/

set_option autoImplicit false

namespace BoundSelect

/-! ## Words -/

/-- A stretch of a written filter: a word, a sign that is a lexeme of its own, or a statement. -/
inductive Stretch where
  | word (w : List Char)
  | sign (t : Lexeme)
  | query (s : Select)

/-- The sign that a break is. A blank is none. -/
def signOf (c : Char) : List Stretch :=
  if c = '(' then [.sign .opening]
  else if c = ')' then [.sign .closing]
  else if c = ',' then [.sign .comma]
  else []

/-- The word that ends where its characters end, if there are any. -/
def wordOf (w : List Char) : List Stretch :=
  if w = [] then [] else [.word w]

/-- The stretches of marks behind the characters of a word that has begun. -/
def stretches (w : List Char) : List Mark → List Stretch
  | [] => wordOf w
  | .query s _ :: ms => wordOf w ++ .query s :: stretches [] ms
  | .char c :: ms =>
    if isBreak c then wordOf w ++ (signOf c ++ stretches [] ms) else stretches (w ++ [c]) ms

/-! ## Lexemes of words -/

/-- The words and signs that conditions are spelled with. The constants are comparisons without a
blank, so each is a word. -/
def reserved : List (List Char × Lexeme) :=
  [("AND".toList, .connective .and), ("OR".toList, .connective .or), ("IS".toList, .is),
    ("NOT".toList, .not), ("NULL".toList, .null), ("IN".toList, .member),
    ("BETWEEN".toList, .between), ("EXISTS".toList, .existence), ("1=0".toList, .constant false),
    ("1=1".toList, .constant true)] ++
  (Operator.all.filter (·.shape = .single)).map fun op => (op.symbol.toList, .operator op)

/-- The lexeme of a word that is no placeholder. Reserved words may be in any case. -/
def lexemeOf (w : List Char) : Lexeme :=
  (reserved.lookup (w.map Char.toUpper)).getD (.name (String.ofList w))

/-- The parameter that a placeholder stands for, counted from zero, when `seen` placeholders were
seen before it: the next one, or the one that it gives the number of. -/
def parameterOf (seen : Nat) : List Char → Option Nat
  | ['?'] => some seen
  | '$' :: digits => some (Nat.ofDigitChars 10 digits 0 - 1)
  | _ => none

/-- The lexemes of stretches, with the parameters of the whole in the places of placeholders. A
placeholder without a parameter has none. -/
def lexemesOf (params : List Value) (seen : Nat) : List Stretch → List Lexeme
  | [] => []
  | .sign t :: us => t :: lexemesOf params seen us
  | .query s :: us => .query s :: lexemesOf params (seen + s.literals.length) us
  | .word w :: us =>
    match parameterOf seen w with
    | some k => params[k]?.toList.map .value ++ lexemesOf params (seen + 1) us
    | none => lexemeOf w :: lexemesOf params seen us

/-- The lexemes of marks when `seen` placeholders were seen before them. -/
def lexemes (params : List Value) (seen : Nat) (ms : List Mark) : List Lexeme :=
  lexemesOf params seen (stretches [] ms)

/-! ## Names -/

/-- A character of a name. All characters beyond ASCII are taken for letters. -/
def isNameChar (c : Char) : Bool := isWordChar c || 128 ≤ c.toNat

/-- A word of letters, digits, underscores and dots that begins with a letter and is not, in any
case, a word that conditions are spelled with. -/
def IsName (w : String) : Prop :=
  w.toList.head?.any (fun c => c.isAlpha || 128 ≤ c.toNat) = true ∧
    w.toList.all isNameChar = true ∧ (reserved.lookup (w.toList.map Char.toUpper)).isNone = true

instance (w : String) : Decidable (IsName w) := inferInstanceAs (Decidable (_ ∧ _ ∧ _))

theorem isNameChar_of_isBreak {c : Char} (h : isBreak c = true) : isNameChar c = false := by
  simp only [isBreak, Bool.or_eq_true, decide_eq_true_eq] at h
  rcases h with ((rfl | rfl) | rfl) | rfl <;> rfl

section IsName

variable {w : String} (h : IsName w)

include h

theorem IsName.toList_ne_nil : w.toList ≠ [] := by
  intro hw
  have hhead := h.1
  rw [hw] at hhead
  exact Bool.false_ne_true hhead

theorem IsName.isNameChar {c : Char} (hc : c ∈ w.toList) : isNameChar c = true :=
  List.all_eq_true.1 h.2.1 c hc

theorem IsName.isBreak_eq_false {c : Char} (hc : c ∈ w.toList) : isBreak c = false := by
  refine Bool.eq_false_iff.2 fun hbreak => ?_
  exact Bool.false_ne_true ((isNameChar_of_isBreak hbreak).symm.trans (h.isNameChar hc))

/-- A name does not open like a placeholder. -/
theorem IsName.parameterOf (seen : Nat) : parameterOf seen w.toList = none := by
  have hdollar : '$' ∉ w.toList := fun hc => Bool.false_ne_true (h.isNameChar hc)
  have hmark : '?' ∉ w.toList := fun hc => Bool.false_ne_true (h.isNameChar hc)
  rw [BoundSelect.parameterOf.eq_def]
  split
  · next hw => exact absurd (hw ▸ List.mem_cons_self) hmark
  · next hw => exact absurd (hw ▸ List.mem_cons_self) hdollar
  · rfl

theorem IsName.lexemeOf : lexemeOf w.toList = .name w := by
  rw [BoundSelect.lexemeOf, Option.isNone_iff_eq_none.1 h.2.2, Option.getD_none,
    String.ofList_toList]

end IsName

/-! ## Lexemes of texts -/

/-- The marks begin with a break or a statement, or there are none. -/
def OpensMark : List Mark → Prop
  | [] | .query _ _ :: _ => True
  | .char c :: _ => isBreak c = true

theorem stretches_word {cs : List Char} (h : ∀ c ∈ cs, isBreak c = false) (w : List Char)
    (ms : List Mark) : stretches w (cs.map .char ++ ms) = stretches (w ++ cs) ms := by
  induction cs generalizing w with
  | nil => rw [List.map_nil, List.nil_append, List.append_nil]
  | cons c cs ih =>
      have hc : isBreak c = false := h c List.mem_cons_self
      rw [List.map_cons, List.cons_append, stretches, hc, if_neg Bool.false_ne_true,
        ih (fun d hd => h d (List.mem_cons_of_mem c hd)), List.append_assoc, List.singleton_append]

/-- A word ends where marks open. -/
theorem stretches_of_opensMark {ms : List Mark} (h : OpensMark ms) (w : List Char) :
    stretches w ms = wordOf w ++ stretches [] ms := by
  rcases ms with _ | ⟨⟨c⟩ | ⟨s, text⟩, ms⟩
  · rw [stretches, stretches, wordOf, wordOf, if_pos rfl, List.append_nil]
  · have hc : isBreak c = true := h
    rw [stretches, stretches, if_pos hc, if_pos hc]
    rfl
  · rw [stretches, stretches]
    rfl

/-- A text that has these lexemes, whatever comes next. It ends with a break. -/
def TextLexes (t : String) (ts : List Lexeme) : Prop :=
  ∀ (params : List Value) (seen : Nat) (ms : List Mark),
    lexemes params seen (t.toList.map .char ++ ms) = ts ++ lexemes params seen ms

theorem textLexes_opening : TextLexes "(" [.opening] := fun _ _ _ => rfl

theorem textLexes_operator {op : Operator} (h : op.shape = .single) :
    TextLexes (" " ++ op.symbol ++ " ") [.operator op] := by
  -- no symbol of an operator with one operand has a blank in it
  cases op <;> first | exact fun _ _ _ => rfl | cases h

theorem textLexes_connective (c : Connective) :
    TextLexes (" " ++ c.keyword ++ " ") [.connective c] := by
  cases c <;> exact fun _ _ _ => rfl

theorem textLexes_membership (negated : Bool) :
    TextLexes (if negated then " NOT IN " else " IN ") (Lexeme.membership negated) := by
  cases negated <;> exact fun _ _ _ => rfl

section Lexemes

variable {params : List Value} {ms : List Mark} (hopen : OpensMark ms)

include hopen

theorem lexemes_word {w : List Char} (hw : w ≠ []) (hbreak : ∀ c ∈ w, isBreak c = false)
    (seen : Nat) :
    lexemes params seen (w.map .char ++ ms) =
      lexemesOf params seen (.word w :: stretches [] ms) := by
  rw [lexemes, stretches_word hbreak, List.nil_append, stretches_of_opensMark hopen, wordOf,
    if_neg hw, List.singleton_append]

theorem lexemes_name {w : String} (h : IsName w) (seen : Nat) :
    lexemes params seen (w.toList.map .char ++ ms) = .name w :: lexemes params seen ms := by
  rw [lexemes_word hopen h.toList_ne_nil fun c hc => h.isBreak_eq_false hc, lexemesOf,
    h.parameterOf, h.lexemeOf]
  rfl

/-- A placeholder is the value at its place. -/
theorem lexemes_placeholder (e : Engine) {seen : Nat} {v : Value} (h : params[seen]? = some v) :
    lexemes params seen ((e.dialect.placeholder (seen + 1)).toList.map .char ++ ms) =
      .value v :: lexemes params (seen + 1) ms := by
  have hdigit : ∀ c ∈ Nat.toDigits 10 (seen + 1), c.isDigit = true := fun c hc =>
    Nat.isDigit_of_mem_toDigits (by decide) (by decide) hc
  have hnumber : Nat.ofDigitChars 10 (Nat.toDigits 10 (seen + 1)) 0 - 1 = seen := by
    rw [Nat.ofDigitChars_toDigits (by decide) (by decide), Nat.add_sub_cancel]
  cases e with
  | mysql =>
      have hplain : (Engine.mysql.dialect.placeholder (seen + 1)).toList = ['?'] := by
        simp [Engine.dialect, Dialect.mysql]
      have hbreak : ∀ c ∈ ['?'], isBreak c = false := List.forall_mem_singleton.2 rfl
      rw [hplain, lexemes_word hopen (List.cons_ne_nil _ _) hbreak, lexemesOf, parameterOf]
      simp only [h]
      rfl
  | postgres =>
      have hnumbered : (Engine.postgres.dialect.placeholder (seen + 1)).toList =
          '$' :: Nat.toDigits 10 (seen + 1) := Dialect.toList_placeholder_postgres _
      have hbreak : ∀ c ∈ '$' :: Nat.toDigits 10 (seen + 1), isBreak c = false := by
        rintro c (_ | ⟨_, hc⟩)
        · rfl
        · refine Bool.eq_false_iff.2 fun hbreak => ?_
          exact Bool.false_ne_true ((isDigit_of_isBreak hbreak).symm.trans (hdigit c hc))
      rw [hnumbered, lexemes_word hopen (List.cons_ne_nil _ _) hbreak, lexemesOf, parameterOf,
        hnumber]
      simp only [h]
      rfl

end Lexemes

/-! ## Lexemes of outlines -/

/-- The parameters from the `k`-th on, counted from zero, begin with these values. -/
def ParamsAt (params : List Value) : Nat → List Value → Prop
  | _, [] => True
  | k, v :: vs => params[k]? = some v ∧ ParamsAt params (k + 1) vs

theorem paramsAt_append {params vs vs' : List Value} {k : Nat}
    (h : ParamsAt params k (vs ++ vs')) :
    ParamsAt params k vs ∧ ParamsAt params (k + vs.length) vs' := by
  induction vs generalizing k with
  | nil => exact ⟨trivial, h⟩
  | cons v vs ih =>
      have hrest := ih h.2
      rw [Nat.add_assoc, Nat.add_comm 1] at hrest
      exact ⟨⟨h.1, hrest.1⟩, hrest.2⟩

theorem paramsAt_length (before vs : List Value) : ParamsAt (before ++ vs) before.length vs := by
  induction vs generalizing before with
  | nil => trivial
  | cons v vs ih =>
      have hrest := ih (before ++ [v])
      rw [List.append_assoc, List.singleton_append, List.length_append] at hrest
      exact ⟨by simp, hrest⟩

section Outline

variable (e : Engine) (params : List Value)

/-- What is written of the outline begins with a break, if anything is written. -/
def Outline.Opens (o : Outline) : Prop :=
  ∀ (bound : Nat) (rest : List Mark), OpensMark rest →
    OpensMark (o.marks e.dialect.placeholder bound ++ rest)

/-- Before a break, or at the end, the outline has these lexemes, if its values are parameters. -/
def Outline.Yields (o : Outline) (ts : List Lexeme) : Prop :=
  ∀ (bound : Nat) (rest : List Mark), OpensMark rest → ParamsAt params bound o.values →
    lexemes params bound (o.marks e.dialect.placeholder bound ++ rest) =
      ts ++ lexemes params (bound + o.values.length) rest

end Outline

namespace Outline

variable {e : Engine} {params : List Value}

theorem opens_nil : Opens e [] := fun _ _ hrest => hrest

theorem opens_text {t : String} (ht : t.toList.head?.any isBreak = true) (o : Outline) :
    Opens e (.piece (.text t) :: o) := by
  intro bound rest _
  rw [marks]
  revert ht
  rcases t.toList with _ | ⟨c, cs⟩
  · exact fun ht => absurd ht Bool.false_ne_true
  · exact id

theorem yields_nil : Yields e params [] [] := fun _ _ _ _ => rfl

theorem yields_append {o o' : Outline} {ts us : List Lexeme} (ho : o.Yields e params ts)
    (ho' : o'.Yields e params us) (hopen : o'.Opens e) : Yields e params (o ++ o') (ts ++ us) := by
  intro bound rest hrest hparams
  rw [values_append] at hparams
  obtain ⟨hfirst, hsecond⟩ := paramsAt_append hparams
  rw [marks_append, List.append_assoc, ho bound _ (hopen _ rest hrest) hfirst,
    ho' _ rest hrest hsecond, values_append, List.length_append, Nat.add_assoc, List.append_assoc]

/-- Two texts that are written as one. -/
theorem yields_concat {s t : String} {o : Outline} {ts : List Lexeme}
    (h : Yields e params (.piece (.text s) :: .piece (.text t) :: o) ts) :
    Yields e params (.piece (.text (s ++ t)) :: o) ts := by
  intro bound rest hrest hparams
  have hwhole := h bound rest hrest hparams
  simp only [marks, String.toList_append, List.map_append, List.append_assoc] at hwhole ⊢
  exact hwhole

/-- A text with breaks around it. -/
theorem yields_text {t : String} {ts us : List Lexeme} {o : Outline} (ht : TextLexes t ts)
    (ho : o.Yields e params us) : Yields e params (.piece (.text t) :: o) (ts ++ us) := by
  intro bound rest hrest hparams
  rw [marks, List.append_assoc, ht, ho bound rest hrest hparams, List.append_assoc]
  rfl

theorem yields_name {w : String} (hw : IsName w) {o : Outline} {ts : List Lexeme}
    (ho : o.Yields e params ts) (hopen : o.Opens e) :
    Yields e params (.piece (.text w) :: o) (.name w :: ts) := by
  intro bound rest hrest hparams
  rw [marks, List.append_assoc, lexemes_name (hopen _ rest hrest) hw,
    ho bound rest hrest hparams]
  rfl

theorem yields_value (v : Value) {o : Outline} {ts : List Lexeme} (ho : o.Yields e params ts)
    (hopen : o.Opens e) : Yields e params (.piece (.value v) :: o) (.value v :: ts) := by
  intro bound rest hrest hparams
  rw [marks, List.append_assoc, lexemes_placeholder (hopen _ rest hrest) e hparams.1,
    ho _ rest hrest hparams.2, values, List.length_cons, Nat.add_assoc, Nat.add_comm 1,
    List.cons_append]

theorem yields_query (s : Select) : Yields e params [.query s] [.query s] := by
  intro bound rest _ _
  simp [marks, values, lexemes, stretches, wordOf, lexemesOf]

/-- A reserved word at the end of an outline. -/
theorem yields_reserved {w : String} {t : Lexeme} (hw : w.toList ≠ [])
    (hbreak : w.toList.any isBreak = false)
    (hlexeme : ∀ (seen : Nat) (us : List Stretch),
      lexemesOf params seen (.word w.toList :: us) = t :: lexemesOf params seen us) :
    Yields e params [.piece (.text w)] [t] := by
  intro bound rest hrest _
  have hword : ∀ c ∈ w.toList, isBreak c = false := fun c hc =>
    Bool.eq_false_iff.2 (List.any_eq_false.1 hbreak c hc)
  rw [marks, marks, List.append_nil, lexemes_word hrest hw hword, hlexeme]
  rfl

end Outline

/-! ## Lexemes of filters -/

mutual

/-- Every column and every raw condition of a filter is a name, group by group. The statements in it
may hold anything. -/
def Filter.Named : Filter → Prop
  | ⟨ts⟩ => Term.Named ts

/-- Every column and every raw condition of terms is a name. -/
def Term.Named : List Term → Prop
  | [] => True
  | ⟨_, p⟩ :: ts => p.Named ∧ Term.Named ts

/-- Every column and every raw condition of a predicate is a name. -/
def Predicate.Named : Predicate → Prop
  | .compare column _ _ => IsName column
  | .compareQuery column _ _ => IsName column
  | .isNull column _ => IsName column
  | .inList column members _ => members ≠ [] → IsName column
  | .inQuery column _ _ => IsName column
  | .between column _ _ => IsName column
  | .existence _ => True
  | .raw sql => IsName sql
  | .group inside => inside.Named

end

mutual

/-- The lexemes that a filter is spelled with. -/
def Filter.lexemes : Filter → List Lexeme
  | ⟨[]⟩ => []
  | ⟨⟨_, p⟩ :: ts⟩ => p.lexemes ++ Term.lexemes ts

/-- The lexemes of the terms after the first. -/
def Term.lexemes : List Term → List Lexeme
  | [] => []
  | ⟨c, p⟩ :: ts => .connective c :: (p.lexemes ++ Term.lexemes ts)

/-- The lexemes of a predicate. -/
def Predicate.lexemes : Predicate → List Lexeme
  | .compare column op v => [.name column, .operator op, .value v]
  | .compareQuery column op s => [.name column, .operator op, .query s]
  | .isNull column negated =>
    .name column :: .is :: if negated then [.not, .null] else [.null]
  | .inList _ [] negated => [.constant negated]
  | .inList column (v :: vs) negated =>
    .name column :: (Lexeme.membership negated ++ Lexeme.listing (v :: vs))
  | .inQuery column s negated => .name column :: (Lexeme.membership negated ++ [.query s])
  | .between column low high =>
    [.name column, .between, .value low, .connective .and, .value high]
  | .existence s => [.existence, .query s]
  | .raw sql => [.name sql]
  | .group inside => .opening :: (inside.lexemes ++ [.closing])

end

section Filters

open Outline

variable (e : Engine) (params : List Value)

theorem yields_closing : Yields e params [.piece (.text ")")] [.closing] := by
  have hclosing : TextLexes ")" [.closing] := fun _ _ _ => rfl
  exact yields_text hclosing yields_nil

theorem opens_closing : Opens e [.piece (.text ")")] := opens_text rfl []

/-- The members of a list, with the parenthesis behind the last of them. -/
theorem yields_members (v : Value) (vs : List Value) :
    Yields e params ((Fragment.join ", " ((v :: vs).map Fragment.ofValue)).map .piece ++
        [.piece (.text ")")])
      (((v :: vs).map Lexeme.value).intersperse .comma ++ [.closing]) := by
  induction vs generalizing v with
  | nil => exact yields_value v (yields_closing e params) (opens_closing e)
  | cons w vs ih =>
      rw [List.map_cons, List.map_cons, Fragment.join_cons_cons, ← List.map_cons]
      have hcomma : TextLexes ", " [.comma] := fun _ _ _ => rfl
      have hrest := yields_text hcomma (ih w)
      exact yields_value v hrest (opens_text rfl _)

theorem yields_listing (v : Value) (vs : List Value) :
    Yields e params ((Fragment.parens (Fragment.join ", " (Fragment.ofValue v ::
      vs.map Fragment.ofValue))).map .piece) (Lexeme.listing (v :: vs)) := by
  have hlist := yields_text textLexes_opening (yields_members e params v vs)
  rw [Fragment.parens, List.map_append]
  exact hlist

/-- A column, a text with blanks around it, and what comes next. -/
theorem yields_column {column t : String} {ts us : List Lexeme} {o : Outline}
    (hcolumn : IsName column) (ht : TextLexes t ts) (hopen : t.toList.head?.any isBreak = true)
    (ho : o.Yields e params us) :
    Yields e params (.piece (.text (column ++ t)) :: o) (.name column :: (ts ++ us)) :=
  yields_concat (yields_name hcolumn (yields_text ht ho) (opens_text hopen _))

/-- A column and an operator before its operand. -/
theorem yields_operator {column : String} {op : Operator} {us : List Lexeme} {o : Outline}
    (hcolumn : IsName column) (hop : op.shape = .single) (ho : o.Yields e params us) :
    Yields e params (.piece (.text (column ++ " " ++ op.symbol ++ " ")) :: o)
      (.name column :: .operator op :: us) := by
  have hopen : (" " ++ op.symbol ++ " ").toList.head?.any isBreak = true := by cases op <;> rfl
  have hall := yields_column e params hcolumn (textLexes_operator hop) hopen ho
  rwa [← String.append_assoc, ← String.append_assoc] at hall

/-- A column that is looked for in what comes next. -/
theorem yields_membership {column : String} {us : List Lexeme} {o : Outline}
    (hcolumn : IsName column) (negated : Bool) (ho : o.Yields e params us) :
    Yields e params (.piece (.text (column ++ if negated then " NOT IN " else " IN ")) :: o)
      (.name column :: (Lexeme.membership negated ++ us)) := by
  have hopen : (if negated then " NOT IN " else " IN ").toList.head?.any isBreak = true := by
    cases negated <;> rfl
  exact yields_column e params hcolumn (textLexes_membership negated) hopen ho

theorem yields_isNull {column : String} (hcolumn : IsName column) (negated : Bool) :
    Yields e params [.piece (.text (column ++ if negated then " IS NOT NULL" else " IS NULL"))]
      (.name column :: .is :: if negated then [.not, .null] else [.null]) := by
  have hnull : Yields e params [.piece (.text "NULL")] [.null] :=
    yields_reserved (by decide) rfl fun _ _ => rfl
  -- the last word ends only where the filter goes on or ends
  cases negated with
  | false =>
      have his : TextLexes " IS " [.is] := fun _ _ _ => rfl
      have hall := yields_concat (yields_text his hnull)
      exact yields_concat (yields_name hcolumn hall (opens_text rfl _))
  | true =>
      have his : TextLexes " IS NOT " [.is, .not] := fun _ _ _ => rfl
      have hall := yields_concat (yields_text his hnull)
      exact yields_concat (yields_name hcolumn hall (opens_text rfl _))

theorem opens_outline (ts : List Term) : Opens e (Term.outline ts) := by
  rcases ts with _ | ⟨⟨c, p⟩, ts⟩
  · exact opens_nil
  · cases c <;> exact opens_text rfl _

mutual

/-- A filter with terms is spelled with its lexemes. -/
theorem Filter.yields : (f : Filter) → f.Sound → f.Named → f.outline.Yields e params f.lexemes
  | ⟨[]⟩, _, _ => yields_nil
  | ⟨⟨_, p⟩ :: ts⟩, hsound, hnamed =>
    yields_append (Predicate.yields p hsound.1 hnamed.1) (Term.yields ts hsound.2 hnamed.2)
      (opens_outline e ts)

theorem Term.yields : (ts : List Term) → Term.Sound ts → Term.Named ts →
    (Term.outline ts).Yields e params (Term.lexemes ts)
  | [], _, _ => yields_nil
  | ⟨c, p⟩ :: ts, hsound, hnamed =>
    yields_text (textLexes_connective c)
      (yields_append (Predicate.yields p hsound.1 hnamed.1) (Term.yields ts hsound.2 hnamed.2)
        (opens_outline e ts))

theorem Predicate.yields : (p : Predicate) → p.Sound → p.Named →
    p.outline.Yields e params p.lexemes
  | .compare _ _ v, hop, hcolumn =>
    yields_operator e params hcolumn hop (yields_value v yields_nil opens_nil)
  | .compareQuery _ _ s, hsound, hcolumn =>
    yields_operator e params hcolumn hsound.1 (yields_query s)
  | .isNull column negated, _, hcolumn => yields_isNull e params hcolumn negated
  | .inList _ [] negated, _, _ => by
    cases negated with
    | false => exact yields_reserved (w := "1=0") (by decide) rfl fun _ _ => rfl
    | true => exact yields_reserved (w := "1=1") (by decide) rfl fun _ _ => rfl
  | .inList _ (v :: vs) negated, _, hcolumn =>
    yields_membership e params (hcolumn (List.cons_ne_nil v vs)) negated
      (yields_listing e params v vs)
  | .inQuery _ s negated, _, hcolumn =>
    yields_membership e params hcolumn negated (yields_query s)
  | .between column low high, _, hcolumn => by
    have hbetween : TextLexes " BETWEEN " [.between] := fun _ _ _ => rfl
    have hand : TextLexes " AND " [.connective .and] := fun _ _ _ => rfl
    have hhigh : Yields e params [.piece (.text " AND "), .piece (.value high)]
        [.connective .and, .value high] :=
      yields_text hand (yields_value high yields_nil opens_nil)
    -- this connective is part of the predicate
    have hrange := yields_value low hhigh (opens_text rfl _)
    exact yields_column e params hcolumn hbetween rfl hrange
  | .existence s, _, _ => by
    have hexists : TextLexes "EXISTS " [.existence] := fun _ _ _ => rfl
    exact yields_text hexists (yields_query s)
  | .raw _, _, hsql => yields_name hsql yields_nil opens_nil
  | .group inside, hsound, hnamed => by
    have hinside := Filter.yields inside hsound.2 hnamed
    -- the parentheses are breaks, so the last word of the group ends inside them
    exact yields_text textLexes_opening
      (yields_append hinside (yields_closing e params) (opens_closing e))

end

end Filters

/-- The marks of a filter have the lexemes that its predicates are spelled with. -/
theorem Filter.lexemes_marks (e : Engine) {f : Filter} (hsound : f.Sound) (hnamed : f.Named)
    {b : Bindings} (hdialect : b.dialect = e.dialect) :
    BoundSelect.lexemes (f.render b).2.values b.values.length (f.marks b) = f.lexemes := by
  have hvalues : (f.render b).2.values = b.values ++ f.outline.values := by
    rw [Filter.render_eq, Bindings.write_eq, ← Outline.values_fragment, f.fragment_outline]
  have hparams : ParamsAt (f.render b).2.values b.values.length f.outline.values :=
    hvalues ▸ paramsAt_length b.values _
  have hall := Filter.yields e _ f hsound hnamed b.values.length [] trivial hparams
  rw [List.append_nil] at hall
  rw [Filter.marks, hdialect, hall]
  exact List.append_nil _

end BoundSelect
