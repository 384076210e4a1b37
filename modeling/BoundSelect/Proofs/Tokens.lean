import BoundSelect.Proofs.Lexing

/-!
# Tokens clause by clause

The tokens of each kind of clause, of each predicate and of a whole statement, put together from
those of the parts. The texts of the statement have to be plain words, which cannot be mistaken for
anything that a clause is spelled with (`Safe`).
-/

set_option autoImplicit false

namespace BoundSelect

/-! ## Safe texts -/

/-- The words that clauses are spelled with. -/
def keywords : List String :=
  ["WITH", "RECURSIVE", "AS", "SELECT", "FROM", "INNER", "LEFT", "RIGHT", "JOIN", "ON", "WHERE",
    "AND", "OR", "IS", "NOT", "NULL", "IN", "BETWEEN", "EXISTS", "LIKE", "ILIKE", "GROUP", "BY",
    "HAVING", "UNION", "ALL", "ORDER", "ASC", "DESC", "LIMIT", "OFFSET"]

/-- A letter, digit, underscore or dot. -/
def isWordChar (c : Char) : Bool := c.isAlphanum || c = '_' || c = '.'

/-- A word of letters, digits, underscores and dots that begins with a letter and is not, in any
case, a word that clauses are spelled with. -/
def Safe (s : String) : Prop :=
  s.toList.head?.any Char.isAlpha = true ∧ s.toList.all isWordChar = true ∧
    String.ofList (s.toList.map Char.toUpper) ∉ keywords

instance (s : String) : Decidable (Safe s) := inferInstanceAs (Decidable (_ ∧ _ ∧ _))

section Safe

variable {s : String} (h : Safe s)

include h

theorem Safe.toList_ne_nil : s.toList ≠ [] := by
  intro hs
  have hhead := h.1
  rw [hs] at hhead
  exact Bool.false_ne_true hhead

theorem Safe.free {x : Char} (hx : isWordChar x = false) : Free x s := by
  intro hmem
  have hword := List.all_eq_true.1 h.2.1 x hmem
  rw [hx] at hword
  exact Bool.false_ne_true hword

theorem Safe.isBreak_eq_false : ∀ c ∈ s.toList, isBreak c = false := by
  intro c hc
  cases hbreak : isBreak c with
  | false => rfl
  | true =>
      -- each of the breaks is no character of a word
      refine absurd hc (h.free ?_)
      simp only [isBreak, Bool.or_eq_true, decide_eq_true_eq] at hbreak
      rcases hbreak with ((rfl | rfl) | rfl) | rfl <;> rfl

theorem Safe.lexes : Lexes s [.word s] := lexes_word h.toList_ne_nil h.isBreak_eq_false

/-- A safe text is none of the words that clauses are spelled with. -/
theorem Safe.ne_of_mem {w : String} (hw : String.ofList (w.toList.map Char.toUpper) ∈ keywords) :
    s ≠ w := by
  rintro rfl
  exact h.2.2 hw

/-- A safe text begins with a letter. -/
theorem Safe.ne_of_head {w : String} (hw : w.toList.head?.any Char.isAlpha = false) : s ≠ w := by
  rintro rfl
  exact Bool.false_ne_true (hw.symm.trans h.1)

end Safe

/-! ## Clauses without values -/

/-- The tokens of the columns. -/
def columnsTokens (columns : List String) : List Token :=
  if columns.isEmpty then [.word "*"] else commaSeparated (columns.map fun c => [.word c])

/-- The first word of a join. -/
def JoinType.word : JoinType → String
  | .inner => "INNER"
  | .left => "LEFT"
  | .right => "RIGHT"

/-- The tokens of a join. -/
def joinTokens (j : Join) : List Token :=
  [.word j.kind.word, .word "JOIN", .word j.table, .word "ON", .word j.left, .word "=",
    .word j.right]

/-- The tokens of the columns to group by. -/
def groupsTokens (groups : List String) : List Token :=
  if groups.isEmpty then []
  else .word "GROUP" :: .word "BY" :: commaSeparated (groups.map fun g => [.word g])

/-- The tokens of the sort keys. -/
def orderTokens (order : List SortKey) : List Token :=
  if order.isEmpty then []
  else .word "ORDER" :: .word "BY" ::
    commaSeparated (order.map fun k => [.word k.column, .word k.direction.keyword])

/-- The tokens of a bound. -/
def boundTokens (keyword : String) : Option UInt64 → List Token
  | none => []
  | some n => [.word keyword, .word (toString n.toNat)]

namespace Select

theorem lexes_columnsText {columns : List String} (h : ∀ c ∈ columns, Safe c) :
    Lexes (columnsText columns) (columnsTokens columns) := by
  rw [columnsText, columnsTokens]
  split
  · exact lexes_of_lex rfl
  · exact lexes_words fun c hc => (h c hc).lexes

theorem lexes_joinText {j : Join} (h : j.Verbatim Safe) :
    Lexes (" " ++ j.kind.keyword ++ " " ++ j.table ++ " ON " ++ j.left ++ " = " ++ j.right)
      (joinTokens j) := by
  obtain ⟨htable, hleft, hright⟩ := h
  -- the keyword of each kind is two words
  have hkeyword : Lexes j.kind.keyword [.word j.kind.word, .word "JOIN"] :=
    lexes_of_lex (by cases j.kind <;> rfl)
  have hon : LexesApart " ON " [.word "ON"] := fun _ => rfl
  have hequals : LexesApart " = " [.word "="] := fun _ => rfl
  have hkind := (lexesApart_blank.append hkeyword).append_apart rfl rfl lexesApart_blank
  have htables := (hkind.append htable.lexes).append_apart rfl rfl hon
  exact ((htables.append hleft.lexes).append_apart rfl rfl hequals).append hright.lexes

theorem lexes_joinsText {joins : List Join} (h : ∀ j ∈ joins, j.Verbatim Safe) :
    Lexes (joinsText joins) (joins.flatMap joinTokens) := by
  induction joins with
  | nil => exact lexes_empty
  | cons j joins ih =>
      have hj := lexes_joinText (h j List.mem_cons_self)
      have hjoins := ih fun k hk => h k (List.mem_cons_of_mem _ hk)
      have hcons : joinsText (j :: joins) = " " ++ j.kind.keyword ++ " " ++ j.table ++ " ON " ++
          j.left ++ " = " ++ j.right ++ joinsText joins := by
        simp [joinsText, String.join_cons]
      rw [hcons, List.flatMap_cons]
      exact hj.append hjoins (opensBlank_joinsText joins)

theorem lexes_groupsText {groups : List String} (h : ∀ g ∈ groups, Safe g) :
    Lexes (groupsText groups) (groupsTokens groups) := by
  rw [groupsText, groupsTokens]
  split
  · exact lexes_empty
  · have hkeyword : LexesApart " GROUP BY " [.word "GROUP", .word "BY"] := fun _ => rfl
    exact hkeyword.append (lexes_words fun g hg => (h g hg).lexes)

theorem lexes_orderText {order : List SortKey} (h : ∀ k ∈ order, Safe k.column) :
    Lexes (orderText order) (orderTokens order) := by
  rw [orderText, orderTokens]
  split
  · exact lexes_empty
  · have hkeyword : LexesApart " ORDER BY " [.word "ORDER", .word "BY"] := fun _ => rfl
    refine hkeyword.append (lexes_intercalate fun k hk => ?_)
    have hdirection : Lexes k.direction.keyword [.word k.direction.keyword] := by
      cases k.direction <;> exact lexes_of_lex rfl
    exact ((h k hk).lexes.append_apart rfl rfl lexesApart_blank).append hdirection

theorem lexes_toString (n : Nat) : Lexes (toString n) [.word (toString n)] := by
  -- the decimal numeral is not empty and has digits only, so it is one word
  have hn : (toString n).toList = Nat.toDigits 10 n := by
    rw [Nat.toString_eq_repr, Nat.toList_repr]
  apply lexes_word
  · exact hn ▸ Nat.toDigits_ne_nil
  · intro c hc
    cases hbreak : isBreak c with
    | false => rfl
    | true =>
        have hdigit : c.isDigit = true :=
          Nat.isDigit_of_mem_toDigits (by decide) (by decide) (hn ▸ hc)
        rw [isDigit_of_isBreak hbreak] at hdigit
        exact absurd hdigit Bool.false_ne_true

theorem lexes_boundText {text keyword : String} (h : LexesApart text [.word keyword])
    (bound : Option UInt64) : Lexes (boundText text bound) (boundTokens keyword bound) := by
  cases bound with
  | none => exact lexes_empty
  | some n => exact h.append (lexes_toString n.toNat)

end Select

/-! ## Fragments -/

namespace Fragment

theorem tokens_parens (f g : Fragment) :
    tokens (parens f ++ g) = .opening :: (tokens f ++ .closing :: tokens g) := by
  -- both parentheses are breaks, so the words inside end before the closing one
  have hclosed : parens f ++ g = .text "(" :: (f ++ .text ")" :: g) := by simp [parens]
  have hinside : tokens (f ++ .text ")" :: g) = tokens f ++ .closing :: tokens g :=
    tokens_append f (g := .text ")" :: g) rfl
  rw [hclosed, ← hinside]
  rfl

/-- The tokens of a fragment in parentheses. -/
def parensTokens (f : Fragment) : List Token :=
  .opening :: (f.tokens ++ [.closing])

theorem tokens_parens_nil (f : Fragment) : tokens (parens f) = parensTokens f := by
  have hparens := tokens_parens f []
  rwa [List.append_nil] at hparens

theorem tokens_join (fs : List Fragment) :
    tokens (join ", " fs) = commaSeparated (fs.map tokens) := by
  induction fs with
  | nil => rfl
  | cons f fs ih =>
      cases fs with
      | nil => rfl
      | cons g fs =>
          have hcomma : tokens (f ++ .text ", " :: join ", " (g :: fs)) =
              tokens f ++ .comma :: tokens (join ", " (g :: fs)) :=
            tokens_append f (g := .text ", " :: join ", " (g :: fs)) rfl
          rw [join_cons_cons, hcomma, ih]
          rfl

end Fragment

section Statements

open Fragment

/-! ## Predicates and filters -/

/-- The tokens before the members of a list or a statement. -/
def memberTokens (negated : Bool) : List Token :=
  if negated then [.word "NOT", .word "IN"] else [.word "IN"]

namespace Predicate

variable {column : String} (hcolumn : Safe column)

include hcolumn

theorem tokens_compare {op : Operator} (hop : op.shape = .single) (f : Fragment) :
    tokens (.text (column ++ " " ++ op.symbol ++ " ") :: f) =
      .word column :: .word op.symbol :: tokens f := by
  -- no symbol of an operator with one operand has a blank in it
  have hsymbol : Lexes op.symbol [.word op.symbol] := by
    cases op <;> first | exact lexes_of_lex rfl | cases hop
  have hfirst := hcolumn.lexes.append_apart rfl rfl lexesApart_blank
  exact ((hfirst.append hsymbol).append_apart rfl rfl lexesApart_blank) f

theorem tokens_isNull (negated : Bool) :
    (Predicate.isNull column negated).fragment.tokens =
      .word column :: .word "IS" :: if negated then [.word "NOT", .word "NULL"]
        else [.word "NULL"] := by
  have hnull : Lexes " IS NULL" [.word "IS", .word "NULL"] := lexes_of_lex rfl
  have hnotNull : Lexes " IS NOT NULL" [.word "IS", .word "NOT", .word "NULL"] := lexes_of_lex rfl
  cases negated with
  | false => exact (hcolumn.lexes.append hnull (by simp [OpensBlank])) [] trivial
  | true => exact (hcolumn.lexes.append hnotNull (by simp [OpensBlank])) [] trivial

theorem tokens_member (negated : Bool) (f : Fragment) :
    tokens (.text (column ++ if negated then " NOT IN " else " IN ") :: f) =
      .word column :: (memberTokens negated ++ tokens f) := by
  have hin : LexesApart " IN " (memberTokens false) := fun _ => rfl
  have hnotIn : LexesApart " NOT IN " (memberTokens true) := fun _ => rfl
  cases negated with
  | false => exact (hcolumn.lexes.append_apart rfl rfl hin) f
  | true => exact (hcolumn.lexes.append_apart rfl rfl hnotIn) f

theorem tokens_between (low high : Value) :
    (Predicate.between column low high).fragment.tokens =
      [.word column, .word "BETWEEN", .value low, .word "AND", .value high] := by
  have hbetween : LexesApart " BETWEEN " [.word "BETWEEN"] := fun _ => rfl
  exact (hcolumn.lexes.append_apart rfl rfl hbetween) _

theorem tokens_compareQuery {op : Operator} (hop : op.shape = .single) (s : Select) :
    (Predicate.compareQuery column op s).fragment.tokens =
      .word column :: .word op.symbol :: parensTokens s.fragment := by
  rw [Predicate.fragment, tokens_compare hcolumn hop, tokens_parens_nil]

theorem tokens_inQuery (s : Select) (negated : Bool) :
    (Predicate.inQuery column s negated).fragment.tokens =
      .word column :: (memberTokens negated ++ parensTokens s.fragment) := by
  rw [Predicate.fragment, tokens_member hcolumn, tokens_parens_nil]

theorem tokens_inList {members : List Value} (hmembers : members ≠ []) (negated : Bool) :
    (Predicate.inList column members negated).fragment.tokens =
      .word column :: (memberTokens negated ++
        .opening :: (commaSeparated (members.map fun v => [.value v]) ++ [.closing])) := by
  rcases members with _ | ⟨v, vs⟩
  · exact absurd rfl hmembers
  · have hjoin : tokens (join ", " (ofValue v :: vs.map ofValue)) =
        commaSeparated ((v :: vs).map fun v => [.value v]) := by
      rw [tokens_join, ← List.map_cons, List.map_map]
      rfl
    rw [Predicate.fragment, tokens_member hcolumn, tokens_parens_nil, parensTokens, hjoin]

end Predicate

theorem Predicate.tokens_existence (s : Select) :
    (Predicate.existence s).fragment.tokens = .word "EXISTS" :: parensTokens s.fragment := by
  rw [← tokens_parens_nil]
  rfl

theorem Predicate.tokens_group (inside : Filter) :
    (Predicate.group inside).fragment.tokens = parensTokens inside.fragment :=
  tokens_parens_nil _

/-- The predicates of a filter, the connective of each before it. -/
theorem Filter.tokens_cons (c : Connective) (p : Predicate) (ts : List Term) :
    (Filter.mk (⟨c, p⟩ :: ts)).fragment.tokens =
      p.fragment.tokens ++ (Term.fragments ts).tokens :=
  tokens_append _ (Term.parted_fragments ts)

/-- The tokens of a term behind the first. -/
def Term.tokens (t : Term) : List Token :=
  .word t.connective.keyword :: t.predicate.fragment.tokens

theorem Term.tokens_fragments (ts : List Term) :
    (Term.fragments ts).tokens = ts.flatMap Term.tokens := by
  induction ts with
  | nil => rfl
  | cons t ts ih =>
      obtain ⟨c, p⟩ := t
      -- the words before the predicate end with a blank, and the next term begins with one
      rw [List.flatMap_cons, ← ih, Term.tokens, List.cons_append,
        ← tokens_append _ (Term.parted_fragments ts)]
      cases c <;> rfl

/-- The tokens of a filter after its keyword. -/
def Filter.clauseTokens (keyword : String) (f : Filter) : List Token :=
  if f.terms.isEmpty then [] else .word keyword :: f.fragment.tokens

theorem Filter.tokens_clause {keyword : String} (h : Lexes keyword [.word keyword])
    (f : Filter) : (f.fragment.clause keyword).spaced.tokens = f.clauseTokens keyword := by
  rw [Filter.clauseTokens]
  cases hf : f.fragment with
  | nil =>
      rw [(Filter.fragment_eq_nil_iff f).1 hf]
      rfl
  | cons p g =>
      -- a filter with terms has pieces, so its keyword is written
      have hne : f.terms ≠ [] := fun hterms => by
        rw [(Filter.fragment_eq_nil_iff f).2 hterms] at hf
        cases hf
      have hkeyword : LexesApart (keyword ++ " ") [.word keyword] :=
        h.append_apart rfl rfl lexesApart_blank
      rw [if_neg (by simpa using hne)]
      exact (lexesApart_blank _).trans (hkeyword (p :: g))

/-! ## Statements -/

theorem Source.tokens_table {name : String} (h : Safe name) :
    (Source.table name).fragment.tokens = [.word name] :=
  h.lexes [] trivial

theorem Source.tokens_query {name : String} (h : Safe name) (s : Select) :
    (Source.query s name).fragment.tokens =
      .opening :: (s.fragment.tokens ++ [.closing, .word "AS", .word name]) := by
  have has : LexesApart " AS " [.word "AS"] := fun _ => rfl
  rw [Source.fragment, tokens_parens, (has.append h.lexes) [] trivial]
  rfl

/-- The tokens before an arm. -/
def armTokens (all : Bool) : List Token :=
  if all then [.word "UNION", .word "ALL"] else [.word "UNION"]

/-- The tokens of an arm. -/
def Arm.tokens (arm : Arm) : List Token :=
  armTokens arm.all ++ if arm.statement.needsParens then arm.statement.fragment.parensTokens
    else arm.statement.fragment.tokens

theorem Arm.tokens_fragments (arms : List Arm) :
    (Arm.fragments arms).tokens = arms.flatMap Arm.tokens := by
  have hunion : LexesApart " UNION " (armTokens false) := fun _ => rfl
  have hunionAll : LexesApart " UNION ALL " (armTokens true) := fun _ => rfl
  induction arms with
  | nil => rfl
  | cons arm arms ih =>
      obtain ⟨all, s⟩ := arm
      -- the parentheses are those of the statement, the words before them those of the union
      have hstatement : (parensIf s.needsParens s.fragment).tokens =
          if s.needsParens then s.fragment.parensTokens else s.fragment.tokens := by
        cases s.needsParens with
        | false => rfl
        | true => exact tokens_parens_nil _
      rw [List.flatMap_cons, ← ih, Arm.tokens, ← hstatement, List.append_assoc,
        ← tokens_append _ (Arm.parted_fragments arms)]
      cases all with
      | false => exact hunion _
      | true => exact hunionAll _

/-- The tokens of a common table. -/
def CommonTable.tokens (t : CommonTable) : List Token :=
  .word t.name :: .word "AS" :: parensTokens t.statement.fragment

theorem CommonTable.map_tokens_fragments {ts : List CommonTable}
    (h : CommonTable.Verbatim Safe ts) :
    (CommonTable.fragments ts).map Fragment.tokens = ts.map CommonTable.tokens := by
  have has : LexesApart " AS " [.word "AS"] := fun _ => rfl
  induction ts with
  | nil => rfl
  | cons t ts ih =>
      obtain ⟨name, s, recursive⟩ := t
      rw [CommonTable.fragments, List.map_cons, List.map_cons, ih h.2.2,
        (h.1.lexes.append_apart rfl rfl has) _, tokens_parens_nil]
      rfl

/-- The tokens of the common tables before a statement. -/
def CommonTable.clauseTokens (ts : List CommonTable) : List Token :=
  if ts.isEmpty then []
  else .word "WITH" :: ((if ts.any (·.recursive) then [.word "RECURSIVE"] else []) ++
    commaSeparated (ts.map CommonTable.tokens))

theorem CommonTable.tokens_withClause {ts : List CommonTable} (h : CommonTable.Verbatim Safe ts)
    (f : Fragment) :
    (withClause (ts.any (·.recursive)) (CommonTable.fragments ts) ++ f).tokens =
      CommonTable.clauseTokens ts ++ f.tokens := by
  rw [withClause, CommonTable.clauseTokens]
  have hempty : (CommonTable.fragments ts).isEmpty = ts.isEmpty := by
    rcases ts with _ | ⟨⟨name, s, recursive⟩, ts⟩ <;> rfl
  rw [hempty]
  split
  · rfl
  -- the blank behind the last table parts it from the statement
  · have hjoin : Fragment.tokens (join ", " (CommonTable.fragments ts) ++ .text " " :: f) =
        commaSeparated (ts.map CommonTable.tokens) ++ f.tokens := by
      rw [tokens_append _ (g := .text " " :: f) rfl, tokens_join,
        CommonTable.map_tokens_fragments h]
      rfl
    simp only [List.cons_append, List.append_assoc, List.nil_append]
    rw [← hjoin]
    cases ts.any (·.recursive) <;> rfl

theorem Select.tokens_pagingText {order : List SortKey} (h : ∀ k ∈ order, Safe k.column)
    (limit offset : Option UInt64) :
    Fragment.tokens [.text (pagingText order limit offset)] =
      orderTokens order ++ (boundTokens "LIMIT" limit ++ boundTokens "OFFSET" offset) := by
  have hlimit : Lexes (boundText " LIMIT " limit) (boundTokens "LIMIT" limit) :=
    lexes_boundText (fun _ => rfl) limit
  have hoffset : Lexes (boundText " OFFSET " offset) (boundTokens "OFFSET" offset) :=
    lexes_boundText (fun _ => rfl) offset
  -- each of the three texts is empty or begins with a blank
  have hbounds := ((lexes_orderText h).append hlimit (opensBlank_boundText rfl limit)).append
    hoffset (opensBlank_boundText rfl offset)
  rw [← List.append_assoc]
  exact (hbounds [] trivial).trans (List.append_nil _)

/-- The tokens of a whole statement, clause by clause. -/
theorem Select.tokens_eq {s : Select} (h : s.Verbatim Safe) :
    s.fragment.tokens = CommonTable.clauseTokens s.commonTables ++ .word "SELECT" ::
      (columnsTokens s.columns ++ .word "FROM" :: (s.source.fragment.tokens ++
        (s.joins.flatMap joinTokens ++ (s.filter.clauseTokens "WHERE" ++
          (groupsTokens s.groups ++ (s.having.clauseTokens "HAVING" ++
            ((Arm.fragments s.arms).tokens ++ (orderTokens s.order ++
              (boundTokens "LIMIT" s.effectiveLimit ++ boundTokens "OFFSET" s.offset))))))))) := by
  rcases s with ⟨dialect, columns, source, joins, filter, groups, having, arms, order, limit,
    offset, defaultLimit, commonTables⟩
  obtain ⟨htables, hcolumns, -, hjoins, -, hgroups, -, -, horder⟩ := h
  have hwhere : Lexes "WHERE" [.word "WHERE"] := lexes_of_lex rfl
  have hhaving : Lexes "HAVING" [.word "HAVING"] := lexes_of_lex rfl
  -- from the last clause to the first, each behind those before it
  have htail := tokens_append (having.fragment.clause "HAVING").spaced (Arm.parted_fragments arms)
  have hpartedTail := parted_append (parted_clause "HAVING" having.fragment)
    (Arm.parted_fragments arms)
  have hgroup := lexes_groupsText hgroups _ hpartedTail
  have hpartedGroup := parted_text_of_opensBlank (opensBlank_groupsText groups) hpartedTail
  have hfilter := tokens_append (filter.fragment.clause "WHERE").spaced hpartedGroup
  have hpartedFilter := parted_append (parted_clause "WHERE" filter.fragment) hpartedGroup
  have hjoin := lexes_joinsText hjoins _ hpartedFilter
  have hpartedJoin := parted_text_of_opensBlank (opensBlank_joinsText joins) hpartedFilter
  have hsource := tokens_append source.fragment hpartedJoin
  have hcolumn : ∀ f,
      tokens (.text "SELECT " :: .text (columnsText columns) :: .text " FROM " :: f) =
        .word "SELECT" :: (columnsTokens columns ++ .word "FROM" :: tokens f) := fun f =>
    congrArg (Token.word "SELECT" :: ·) (lexes_columnsText hcolumns (.text " FROM " :: f) rfl)
  have hpaging := parted_text_of_opensBlank
    (opensBlank_pagingText order (limit.or defaultLimit) offset) (f := []) trivial
  rw [Filter.tokens_clause hhaving] at htail
  rw [Filter.tokens_clause hwhere, hgroup, htail] at hfilter
  rw [hjoin, hfilter] at hsource
  rw [Select.fragment, tokens_append _ hpaging, CommonTable.tokens_withClause htables,
    Select.tokens_pagingText horder, hcolumn, hsource]
  simp only [List.append_assoc, List.cons_append]
  rfl

end Statements

end BoundSelect
