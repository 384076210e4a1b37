import BoundSelect.Proofs.Canonical
import BoundSelect.Proofs.Reading
import BoundSelect.Proofs.Soundness

/-!
# The round trip

The tokens of a sound statement with safe texts are read back as its canonical form
(`Select.read_tokens`). The proof is by induction on the number of nested calls that a reader is
given: a step reads one statement, filter or predicate, and everything inside it is smaller.
-/

set_option autoImplicit false

namespace BoundSelect

open Fragment Reader

/-! ## What is read back with a number of nested calls -/

/-- Statements that the number of calls is enough for are read back. A statement that stands plainly
needs no parentheses, and a union, a sort key or a bound may come behind it. -/
def Select.ReadBack (n : Nat) : Prop :=
  ∀ (s : Select) (plain : Bool) (rest : List Token), sizeOf s ≤ n → s.Sound → s.Verbatim Safe →
    (plain = true → s.needsParens = false) → (if plain then 6 else 10) ≤ rank rest →
      Select.read n plain (s.fragment.tokens ++ rest) = some (s.canonical, rest)

/-- Filters that the number of calls is enough for are read back. -/
def Filter.ReadBack (n : Nat) : Prop :=
  ∀ (f : Filter) (rest : List Token), sizeOf f ≤ n → f.terms ≠ [] → f.Sound → f.Verbatim Safe →
    2 ≤ rank rest → Filter.read n (f.fragment.tokens ++ rest) = some (f.canonical, rest)

/-- Predicates that the number of calls is enough for are read back. -/
def Predicate.ReadBack (n : Nat) : Prop :=
  ∀ (p : Predicate) (rest : List Token), sizeOf p ≤ n → p.Sound → p.Verbatim Safe →
    1 ≤ rank rest → Predicate.read n (p.fragment.tokens ++ rest) = some (p.canonical, rest)

/-! ## Sizes of the parts of a statement -/

theorem length_lt_sizeOf {α : Type} [SizeOf α] (as : List α) : as.length < sizeOf as := by
  induction as with
  | nil => simp
  | cons a as ih =>
      simp only [List.length_cons, List.cons.sizeOf_spec]
      omega

theorem Term.sizeOf_predicate_lt {t : Term} {ts : List Term} (h : t ∈ ts) :
    sizeOf t.predicate < sizeOf ts := by
  have hmem := List.sizeOf_lt_of_mem h
  obtain ⟨connective, p⟩ := t
  simp only [Term.mk.sizeOf_spec] at hmem ⊢
  omega

theorem CommonTable.sizeOf_statement_lt {t : CommonTable} {ts : List CommonTable} (h : t ∈ ts) :
    sizeOf t.statement < sizeOf ts := by
  have hmem := List.sizeOf_lt_of_mem h
  obtain ⟨name, s, recursive⟩ := t
  simp only [CommonTable.mk.sizeOf_spec] at hmem ⊢
  omega

theorem Arm.sizeOf_statement_lt {a : Arm} {arms : List Arm} (h : a ∈ arms) :
    sizeOf a.statement < sizeOf arms := by
  have hmem := List.sizeOf_lt_of_mem h
  obtain ⟨all, s⟩ := a
  simp only [Arm.mk.sizeOf_spec] at hmem ⊢
  omega

section Step

variable {n : Nat}

/-- A statement in parentheses. -/
theorem Select.ReadBack.parenthesised (h : Select.ReadBack n) {s : Select} (hsize : sizeOf s ≤ n)
    (hsound : s.Sound) (hsafe : s.Verbatim Safe) (rest : List Token) :
    Reader.parenthesised (Select.read n false) (s.fragment.parensTokens ++ rest) =
      some (s.canonical, rest) :=
  parenthesised_eq (h s false (.closing :: rest) hsize hsound hsafe (by simp) (Nat.le_refl 10))

/-- A statement begins with a word, so it cannot be taken for a value. -/
theorem Select.tokens_head {s : Select} (h : s.Verbatim Safe) :
    ∃ w ts, s.fragment.tokens = .word w :: ts := by
  rw [Select.tokens_eq h]
  rw [CommonTable.clauseTokens]
  split
  · exact ⟨_, _, rfl⟩
  · exact ⟨_, _, rfl⟩

/-! ## Predicates -/

/-- A safe text in front is a column, or a condition of its own. -/
theorem Predicate.read_column {column : String} (h : Safe column) (ts : List Token) :
    Predicate.read (n + 1) (.word column :: ts) = condition (Select.read n false) n column ts := by
  -- `EXISTS` is a keyword and the two constants begin with a digit: no safe text is one of them
  have hexists : column ≠ "EXISTS" := h.ne_of_mem (by decide)
  have htrue : column ≠ "1=1" := h.ne_of_head (by decide)
  have hfalse : column ≠ "1=0" := h.ne_of_head (by decide)
  rw [Predicate.read, if_neg hexists, if_neg htrue, if_neg hfalse]

theorem operator?_symbol {op : Operator} (h : op.shape = .single) :
    operator? op.symbol = some op := by
  cases op <;> first | rfl | cases h

theorem condition_operator {op : Operator} (h : op.shape = .single) (query : Reader Select)
    (column : String) (ts : List Token) :
    condition query n column (.word op.symbol :: ts) = operand query column op ts := by
  -- the words of the other comparisons are tried first, and no symbol is one of them
  have hwords : op.symbol ∉ ["IS", "IN", "NOT", "BETWEEN"] := by
    cases op <;> first | decide | cases h
  simp only [List.mem_cons, List.not_mem_nil, or_false, not_or] at hwords
  obtain ⟨his, hin, hnot, hbetween⟩ := hwords
  rw [condition, if_neg his, if_neg hin, if_neg hnot, if_neg hbetween, operator?_symbol h]

theorem condition_member (query : Reader Select) (column : String) (negated : Bool)
    (ts : List Token) :
    condition query n column (memberTokens negated ++ ts) = members query n column negated ts := by
  cases negated <;> rfl

/-- Behind a condition of its own comes none of the words that a column is asked with. -/
theorem condition_raw (query : Reader Select) (sql : String) {rest : List Token}
    (h : 1 ≤ rank rest) : condition query n sql rest = some (.raw sql, rest) := by
  rcases rest with _ | ⟨w | _ | _ | _ | v, rest⟩
  · rfl
  -- only a word can mislead here, and the words that a column is asked with have rank zero
  · have hne : ∀ v, wordRank v = 0 → w ≠ v := by
      rintro v hv rfl
      rw [rank, hv] at h
      exact absurd h (by decide)
    have hoperator : operator? w = none := by
      rw [operator?, List.find?_eq_none]
      intro op _ hop
      simp only [Bool.and_eq_true, decide_eq_true_eq] at hop
      refine hne op.symbol ?_ hop.2.symm
      cases op <;> rfl
    rw [condition, if_neg (hne "IS" rfl), if_neg (hne "IN" rfl), if_neg (hne "NOT" rfl),
      if_neg (hne "BETWEEN" rfl), hoperator]
  · rfl
  · rfl
  · rfl
  · rfl

theorem members_values {vs : List Value} (hne : vs ≠ []) (hn : vs.length ≤ n)
    (query : Reader Select) (column : String) (negated : Bool) (rest : List Token) :
    members query n column negated
        (.opening :: (commaSeparated (vs.map fun v => [.value v]) ++ .closing :: rest)) =
      some (.inList column vs negated, rest) := by
  have hvalues : separated value n
      (commaSeparated (vs.map fun v => [.value v]) ++ .closing :: rest) =
        some (vs.map id, .closing :: rest) :=
    separated_eq (fun _ _ _ => rfl) hne hn (noComma_of_rank (by simp [rank]))
  rcases vs with _ | ⟨v, vs⟩
  · exact absurd rfl hne
  -- a value behind the parenthesis: this is a list, not a statement
  · obtain ⟨us, hus⟩ := commaSeparated_cons (.value v) [] (vs.map fun v => [.value v])
    rw [List.map_id, List.map_cons, hus, List.cons_append] at hvalues
    rw [List.map_cons, hus, List.cons_append, members]
    apply map_eq (b := v :: vs)
    rw [Reader.parenthesised, hvalues]

theorem members_query {s : Select} {query : Reader Select} (hsafe : s.Verbatim Safe)
    {rest : List Token}
    (h : Reader.parenthesised query (s.fragment.parensTokens ++ rest) = some (s.canonical, rest))
    (column : String) (negated : Bool) :
    members query n column negated (s.fragment.parensTokens ++ rest) =
      some (.inQuery column s.canonical negated, rest) := by
  -- a word behind the parenthesis: this is a statement, not a list
  obtain ⟨w, ts, hhead⟩ := Select.tokens_head hsafe
  rw [parensTokens, hhead] at h ⊢
  exact map_eq (g := (Predicate.inQuery column · negated)) h

theorem operand_query {s : Select} {query : Reader Select} (hsafe : s.Verbatim Safe)
    {rest : List Token}
    (h : Reader.parenthesised query (s.fragment.parensTokens ++ rest) = some (s.canonical, rest))
    (column : String) (op : Operator) :
    operand query column op (s.fragment.parensTokens ++ rest) =
      some (.compareQuery column op s.canonical, rest) := by
  obtain ⟨w, ts, hhead⟩ := Select.tokens_head hsafe
  rw [parensTokens, hhead] at h ⊢
  exact map_eq h

/-- One more call reads the predicates whose parts are read back. -/
theorem Predicate.readBack_succ (hselect : Select.ReadBack n) (hfilter : Filter.ReadBack n) :
    Predicate.ReadBack (n + 1) := by
  intro p rest hsize hsound hsafe hrest
  cases p with
  | compare column op v =>
      rw [Predicate.fragment, Predicate.tokens_compare hsafe hsound, List.cons_append,
        Predicate.read_column hsafe, List.cons_append, condition_operator hsound]
      rfl
  | compareQuery column op s =>
      have hs : sizeOf s ≤ n := by
        simp only [Predicate.compareQuery.sizeOf_spec] at hsize
        omega
      rw [Predicate.tokens_compareQuery hsafe.1 hsound.1, List.cons_append,
        Predicate.read_column hsafe.1, List.cons_append, condition_operator hsound.1]
      exact operand_query hsafe.2 (hselect.parenthesised hs hsound.2 hsafe.2 rest) column op
  | isNull column negated =>
      rw [Predicate.tokens_isNull hsafe, List.cons_append, Predicate.read_column hsafe]
      cases negated <;> rfl
  | inList column vs negated =>
      cases vs with
      -- an empty list is written as a constant, and its column is not asked for
      | nil => cases negated <;> rfl
      | cons v vs =>
          have hcolumn : Safe column := hsafe (List.cons_ne_nil v vs)
          -- the list reader is given as many calls as the predicate reader, which is enough
          have hlength : (v :: vs).length ≤ n := by
            have hlt := length_lt_sizeOf (v :: vs)
            simp only [Predicate.inList.sizeOf_spec] at hsize
            omega
          rw [Predicate.tokens_inList hcolumn (List.cons_ne_nil v vs), List.cons_append,
            Predicate.read_column hcolumn, List.append_assoc, condition_member]
          simp only [List.cons_append, List.append_assoc, List.nil_append]
          exact members_values (List.cons_ne_nil v vs) hlength _ column negated rest
  | inQuery column s negated =>
      have hs : sizeOf s ≤ n := by
        simp only [Predicate.inQuery.sizeOf_spec] at hsize
        omega
      rw [Predicate.tokens_inQuery hsafe.1, List.cons_append, Predicate.read_column hsafe.1,
        List.append_assoc, condition_member]
      exact members_query hsafe.2 (hselect.parenthesised hs hsound hsafe.2 rest) column negated
  | between column low high =>
      rw [Predicate.tokens_between hsafe, List.cons_append, Predicate.read_column hsafe]
      rfl
  | existence s =>
      have hs : sizeOf s ≤ n := by
        simp only [Predicate.existence.sizeOf_spec] at hsize
        omega
      rw [Predicate.tokens_existence, List.cons_append, Predicate.read, if_pos rfl]
      exact map_eq (hselect.parenthesised hs hsound hsafe rest)
  | raw sql =>
      have htokens : (Predicate.raw sql).fragment.tokens = [.word sql] := hsafe.lexes [] trivial
      rw [htokens, List.singleton_append, Predicate.read_column hsafe]
      exact condition_raw _ sql hrest
  | group inside =>
      have hs : sizeOf inside ≤ n := by
        simp only [Predicate.group.sizeOf_spec] at hsize
        omega
      have hinside := hfilter inside (.closing :: rest) hs hsound.1 hsound.2 hsafe
        (by simp [rank])
      rw [Predicate.tokens_group, parensTokens, List.cons_append, Predicate.read]
      exact map_eq (parenthesised_eq hinside)

/-! ## Filters -/

theorem term_eq (hpredicate : Predicate.ReadBack n) {t : Term} (hsize : sizeOf t.predicate ≤ n)
    (hsound : t.predicate.Sound) (hsafe : t.predicate.Verbatim Safe) {rest : List Token}
    (hrest : 1 ≤ rank rest) :
    term (Predicate.read n) (t.tokens ++ rest) =
      some (⟨t.connective, t.predicate.canonical⟩, rest) := by
  obtain ⟨c, p⟩ := t
  have hread := hpredicate p rest hsize hsound hsafe hrest
  cases c with
  | and => exact map_eq (g := Term.mk .and) hread
  | or => exact map_eq (g := Term.mk .or) hread

/-- Behind a filter there is no term. -/
theorem term_of_rank (predicate : Reader Predicate) {ts : List Token} (h : 2 ≤ rank ts) :
    term predicate ts = none := by
  have hand : wordRank "AND" < rank ts := Nat.lt_of_lt_of_le (by decide) h
  have hor : wordRank "OR" < rank ts := Nat.lt_of_lt_of_le (by decide) h
  rw [term, after_of_rank hand]
  dsimp only
  rw [after_of_rank hor]

theorem one_le_rank_term (t : Term) (rest : List Token) : 1 ≤ rank (t.tokens ++ rest) := by
  obtain ⟨c, p⟩ := t
  cases c <;> exact Nat.le_refl 1

/-- One more call reads the filters whose predicates are read back. -/
theorem Filter.readBack_succ (hpredicate : Predicate.ReadBack n) : Filter.ReadBack (n + 1) := by
  intro f rest hsize hne hsound hsafe hrest
  rcases f with ⟨_ | ⟨⟨c, p⟩, ts⟩⟩
  · exact absurd rfl hne
  · simp only [Filter.mk.sizeOf_spec, List.cons.sizeOf_spec, Term.mk.sizeOf_spec] at hsize
    have hlength : ts.length < n := by
      have hlt := length_lt_sizeOf ts
      omega
    -- behind the first predicate stands the next connective, or whatever follows the filter
    have hafter : 1 ≤ rank (ts.flatMap Term.tokens ++ rest) := by
      cases ts with
      | nil => exact Nat.le_trans (by decide) hrest
      | cons t ts =>
          rw [List.flatMap_cons, List.append_assoc]
          exact one_le_rank_term t _
    have hfirst := hpredicate p (ts.flatMap Term.tokens ++ rest) (by omega) hsound.1 hsafe.1 hafter
    -- each further term is read with its own connective, and none is read behind the last one
    have hothers : many (term (Predicate.read n)) n (ts.flatMap Term.tokens ++ rest) =
        some (ts.map fun t => ⟨t.connective, t.predicate.canonical⟩, rest) := by
      have hterm : ∀ t ∈ ts, ∀ rest, 1 ≤ rank rest →
          term (Predicate.read n) (t.tokens ++ rest) =
            some (⟨t.connective, t.predicate.canonical⟩, rest) := by
        intro t ht rest h
        have hlt := Term.sizeOf_predicate_lt ht
        have hpart : sizeOf t.predicate ≤ n := by omega
        exact term_eq hpredicate hpart (Term.sound_iff_forall.1 hsound.2 t ht)
          (Term.verbatim_iff_forall.1 hsafe.2 t ht) h
      exact many_eq hterm (fun t _ rest => one_le_rank_term t rest) hlength
        (Nat.le_trans (by decide) hrest) (term_of_rank _ hrest)
    rw [Filter.tokens_cons, Term.tokens_fragments, List.append_assoc, Filter.read, hfirst,
      Option.bind_eq_bind, Option.bind_some]
    dsimp only
    rw [hothers, ← Term.canonical_eq_map]
    rfl

/-- A filter behind its keyword, or none. -/
theorem filterClause_eq (hfilter : Filter.ReadBack n) {keyword : String} {f : Filter}
    (hsize : sizeOf f ≤ n) (hsound : f.Sound) (hsafe : f.Verbatim Safe) {rest : List Token}
    (hrest : 2 ≤ rank rest) (hkeyword : wordRank keyword < rank rest) :
    clause keyword ⟨[]⟩ (Filter.read n) (f.clauseTokens keyword ++ rest) =
      some (f.canonical, rest) := by
  rw [Filter.clauseTokens]
  rcases f with ⟨_ | ⟨t, ts⟩⟩
  -- an empty filter has no keyword: what follows must not be mistaken for it
  · exact clause_absent _ hkeyword
  · have hne : t :: ts ≠ [] := List.cons_ne_nil t ts
    rw [List.isEmpty_cons, if_neg Bool.false_ne_true, List.cons_append, clause_present]
    exact hfilter ⟨t :: ts⟩ rest hsize hne hsound hsafe hrest

/-! ## Sources, common tables and arms -/

theorem source_eq (hselect : Select.ReadBack n) {s : Source} (hsize : sizeOf s ≤ n)
    (hsound : s.Sound) (hsafe : s.Verbatim Safe) (rest : List Token) :
    source (Select.read n false) (s.fragment.tokens ++ rest) = some (s.canonical, rest) := by
  cases s with
  | table name =>
      rw [Source.tokens_table hsafe]
      rfl
  | query s name =>
      have hs : sizeOf s ≤ n := by
        simp only [Source.query.sizeOf_spec] at hsize
        omega
      have hread := hselect.parenthesised hs hsound.1 hsafe.1
        (.word "AS" :: .word name :: rest)
      rw [parensTokens] at hread
      simp only [List.cons_append, List.append_assoc, List.nil_append] at hread
      rw [Source.tokens_query hsafe.2]
      simp only [List.cons_append, List.append_assoc, List.nil_append]
      rw [source, hread]
      rfl

theorem commonTable_eq (hselect : Select.ReadBack n) {t : CommonTable}
    (hsize : sizeOf t.statement ≤ n) (hsound : t.statement.Sound)
    (hsafe : t.statement.Verbatim Safe) (recursive : Bool) (rest : List Token) :
    commonTable (Select.read n false) recursive (t.tokens ++ rest) =
      some (⟨t.name, t.statement.canonical, recursive⟩, rest) :=
  map_eq (g := fun s => CommonTable.mk t.name s recursive)
    (hselect.parenthesised hsize hsound hsafe rest)

/-- The common tables before a statement, or none. -/
theorem commonTables_eq (hselect : Select.ReadBack n) {ts : List CommonTable}
    (hsize : sizeOf ts ≤ n) (hsound : CommonTable.Sound ts)
    (hsafe : CommonTable.Verbatim Safe ts) (rest : List Token) :
    clause "WITH" [] (commonTables (Select.read n false) n)
        (CommonTable.clauseTokens ts ++ .word "SELECT" :: rest) =
      some (CommonTable.canonical (ts.any (·.recursive)) ts, .word "SELECT" :: rest) := by
  rw [CommonTable.clauseTokens]
  cases hts : ts with
  | nil => rfl
  | cons t ts' =>
      rw [List.isEmpty_cons, if_neg Bool.false_ne_true, List.cons_append, clause_present,
        CommonTable.canonical_eq_map, ← hts]
      have hlength : ts.length ≤ n := Nat.le_trans (Nat.le_of_lt (length_lt_sizeOf ts)) hsize
      have hnext : NoComma (.word "SELECT" :: rest) := by
        rintro ts ⟨⟩
      -- the flag is read once for the clause, so the tables are read with either value of it
      have hread : ∀ recursive, separated (commonTable (Select.read n false) recursive) n
          (commaSeparated (ts.map CommonTable.tokens) ++ .word "SELECT" :: rest) =
            some (ts.map fun t => ⟨t.name, t.statement.canonical, recursive⟩,
              .word "SELECT" :: rest) := by
        intro recursive
        apply separated_eq ?_ (hts ▸ List.cons_ne_nil t ts') hlength hnext
        intro t ht rest
        have hlt := CommonTable.sizeOf_statement_lt ht
        have hpart : sizeOf t.statement ≤ n := by omega
        exact commonTable_eq hselect hpart (CommonTable.sound_iff_forall.1 hsound t ht).2
          (CommonTable.verbatim_iff_forall.1 hsafe t ht).2 recursive rest
      cases ts.any (·.recursive) with
      | true =>
          rw [if_pos rfl, commonTables, List.append_assoc, List.singleton_append, after_cons]
          exact hread true
      | false =>
          -- without the keyword, the first name must not be taken for it
          have hfirst : Safe t.name :=
            (CommonTable.verbatim_iff_forall.1 hsafe t (hts ▸ List.mem_cons_self)).1
          have hname : t.name ≠ "RECURSIVE" := hfirst.ne_of_mem (by decide)
          obtain ⟨us, hus⟩ := commaSeparated_cons (.word t.name)
            (.word "AS" :: t.statement.fragment.parensTokens) (ts'.map CommonTable.tokens)
          have hword : after "RECURSIVE"
              (commaSeparated (ts.map CommonTable.tokens) ++ .word "SELECT" :: rest) = none := by
            rw [hts, List.map_cons, CommonTable.tokens, hus]
            exact after_of_ne hname _
          rw [if_neg Bool.false_ne_true, List.nil_append, commonTables, hword]
          exact hread false

theorem armStatement_eq (hselect : Select.ReadBack n) {s : Select} (hsize : sizeOf s ≤ n)
    (hsound : s.Sound) (hsafe : s.Verbatim Safe) {rest : List Token} (hrest : 6 ≤ rank rest) :
    armStatement (Select.read n false) (Select.read n true)
        ((if s.needsParens then s.fragment.parensTokens else s.fragment.tokens) ++ rest) =
      some (s.canonical, rest) := by
  cases hparens : s.needsParens with
  | true => exact hselect.parenthesised hsize hsound hsafe rest
  | false =>
      -- a plain arm is told from one in parentheses by its first word
      obtain ⟨w, ts, hhead⟩ := Select.tokens_head hsafe
      have hread := hselect s true rest hsize hsound hsafe (fun _ => hparens) hrest
      rw [if_neg Bool.false_ne_true]
      rw [hhead] at hread ⊢
      exact hread

/-- The statement of an arm does not begin with the word that keeps repeated rows. -/
theorem after_all_armStatement {s : Select} (hsafe : s.Verbatim Safe) (rest : List Token) :
    after "ALL" ((if s.needsParens then s.fragment.parensTokens else s.fragment.tokens) ++ rest) =
      none := by
  cases hparens : s.needsParens with
  | true => rfl
  | false =>
      -- a plain arm has no common tables, so its first word is `SELECT`
      have htables : s.commonTables = [] := by
        simp only [Select.needsParens, Bool.or_eq_false_iff] at hparens
        simpa using hparens.2
      rw [if_neg Bool.false_ne_true, Select.tokens_eq hsafe, htables]
      rfl

theorem arm_eq (hselect : Select.ReadBack n) {a : Arm} (hsize : sizeOf a.statement ≤ n)
    (hsound : a.statement.Sound) (hsafe : a.statement.Verbatim Safe) {rest : List Token}
    (hrest : 6 ≤ rank rest) :
    arm (Select.read n false) (Select.read n true) (a.tokens ++ rest) =
      some (⟨a.all, a.statement.canonical⟩, rest) := by
  obtain ⟨all, s⟩ := a
  have hread := armStatement_eq hselect hsize hsound hsafe hrest
  rw [Arm.tokens, List.append_assoc]
  cases all with
  | true => exact map_eq (g := Arm.mk true) hread
  | false =>
      have hunion : armTokens false = [.word "UNION"] := rfl
      have hall := after_all_armStatement hsafe rest
      dsimp only at hall ⊢
      rw [hunion, List.singleton_append, arm, after_cons]
      dsimp only
      rw [hall]
      exact map_eq (g := Arm.mk false) hread

theorem six_le_rank_arm (a : Arm) (rest : List Token) : 6 ≤ rank (a.tokens ++ rest) := by
  obtain ⟨all, s⟩ := a
  cases all <;> exact Nat.le_refl 6

theorem arms_eq (hselect : Select.ReadBack n) {arms : List Arm} (hsize : sizeOf arms ≤ n)
    (hlength : arms.length < n) (hsound : Arm.Sound arms) (hsafe : Arm.Verbatim Safe arms)
    {rest : List Token} (hrest : 7 ≤ rank rest) :
    many (arm (Select.read n false) (Select.read n true)) n (arms.flatMap Arm.tokens ++ rest) =
      some (Arm.canonical arms, rest) := by
  have hunion : wordRank "UNION" < rank rest := Nat.lt_of_lt_of_le (by decide) hrest
  -- what follows the arms does not begin another one
  have hend : arm (Select.read n false) (Select.read n true) rest = none := by
    rw [arm, after_of_rank hunion]
  have harm : ∀ a ∈ arms, ∀ rest, 6 ≤ rank rest →
      arm (Select.read n false) (Select.read n true) (a.tokens ++ rest) =
        some (⟨a.all, a.statement.canonical⟩, rest) := by
    intro a ha rest h
    have hlt := Arm.sizeOf_statement_lt ha
    have hpart : sizeOf a.statement ≤ n := by omega
    exact arm_eq hselect hpart (Arm.sound_iff_forall.1 hsound a ha)
      (Arm.verbatim_iff_forall.1 hsafe a ha) h
  rw [Arm.canonical_eq_map]
  exact many_eq harm (fun a _ rest => six_le_rank_arm a rest) hlength
    (Nat.le_trans (by decide) hrest) hend

/-! ## Statements -/

theorem rank_filterClause {keyword : String} {f : Filter} (h : f.clauseTokens keyword ≠ []) :
    rank (f.clauseTokens keyword) = wordRank keyword := by
  rw [Filter.clauseTokens] at h ⊢
  split at h
  · exact absurd rfl h
  · next hne => rw [if_neg hne, rank]

theorem rank_groupsTokens {gs : List String} (h : groupsTokens gs ≠ []) :
    rank (groupsTokens gs) = 4 := by
  cases gs with
  | nil => exact absurd rfl h
  | cons g gs => rfl

theorem rank_orderTokens {ks : List SortKey} (h : orderTokens ks ≠ []) :
    rank (orderTokens ks) = 7 := by
  cases ks with
  | nil => exact absurd rfl h
  | cons k ks => rfl

theorem rank_boundTokens {keyword : String} {b : Option UInt64} (h : boundTokens keyword b ≠ []) :
    rank (boundTokens keyword b) = wordRank keyword := by
  cases b with
  | none => exact absurd rfl h
  | some n => rfl

theorem six_le_rank_arms {arms : List Arm} {rest : List Token} (h : 6 ≤ rank rest) :
    6 ≤ rank (arms.flatMap Arm.tokens ++ rest) := by
  cases arms with
  | nil => exact h
  | cons a arms =>
      rw [List.flatMap_cons, List.append_assoc]
      exact six_le_rank_arm a _

/-- The tokens of the arms, sort keys and bounds of a statement. -/
def Select.tailTokens (s : Select) : List Token :=
  s.arms.flatMap Arm.tokens ++ (orderTokens s.order ++
    (boundTokens "LIMIT" s.effectiveLimit ++ boundTokens "OFFSET" s.offset))

/-- The statement without its arms, sort keys and bounds. -/
def Select.withoutTail (s : Select) : Select :=
  { s with arms := [], order := [], limit := none, offset := none, defaultLimit := none }

/-- A statement that needs no parentheses has no tail. -/
theorem Select.plain_eq {s : Select} (h : s.needsParens = false) :
    s.tailTokens = [] ∧ s.canonical = s.canonical.withoutTail := by
  obtain ⟨_, _, _, _, _, _, _, arms, order, limit, offset, defaultLimit, commonTables⟩ := s
  simp only [Select.needsParens, Select.isPaged, Bool.or_eq_false_iff, Bool.not_eq_false',
    List.isEmpty_iff, Option.isSome_eq_false_iff, Option.isNone_iff_eq_none] at h
  obtain ⟨⟨⟨⟨⟨rfl, rfl⟩, rfl⟩, rfl⟩, rfl⟩, -⟩ := h
  exact ⟨rfl, rfl⟩

theorem Select.tokens_eq_tail {s : Select} (h : s.Verbatim Safe) (rest : List Token) :
    s.fragment.tokens ++ rest = CommonTable.clauseTokens s.commonTables ++ .word "SELECT" ::
      (columnsTokens s.columns ++ .word "FROM" :: (s.source.fragment.tokens ++
        (s.joins.flatMap joinTokens ++ (s.filter.clauseTokens "WHERE" ++
          (groupsTokens s.groups ++ (s.having.clauseTokens "HAVING" ++
            (s.tailTokens ++ rest))))))) := by
  rw [Select.tokens_eq h, Arm.tokens_fragments]
  simp only [Select.tailTokens, List.append_assoc, List.cons_append]

theorem tail_eq (hselect : Select.ReadBack n) {s : Select} (hsize : sizeOf s ≤ n + 1)
    (hsound : s.Sound) (hsafe : s.Verbatim Safe) {rest : List Token} (hrest : 10 ≤ rank rest) :
    tail (Select.read n false) n (Select.read n true) s.canonical.withoutTail
      (s.tailTokens ++ rest) = some (s.canonical, rest) := by
  rcases s with ⟨dialect, columns, source, joins, filter, groups, having, arms, order, limit,
    offset, defaultLimit, commonTables⟩
  obtain ⟨-, -, -, -, -, -, harmsSound⟩ := hsound
  obtain ⟨-, -, -, -, -, -, -, harmsSafe, -⟩ := hsafe
  simp only [Select.mk.sizeOf_spec] at hsize
  -- each clause must not run into the next: the ranks of what follows are found from the end
  have harmsLength := length_lt_sizeOf arms
  have horderLength := length_lt_sizeOf order
  have hoffset : 9 ≤ rank (boundTokens "OFFSET" offset ++ rest) :=
    le_rank_append (fun h => by rw [rank_boundTokens h]; decide) (Nat.le_trans (by decide) hrest)
  have hlimit : 8 ≤ rank (boundTokens "LIMIT" (limit.or defaultLimit) ++
      (boundTokens "OFFSET" offset ++ rest)) :=
    le_rank_append (fun h => by rw [rank_boundTokens h]; decide)
      (Nat.le_trans (by decide) hoffset)
  have horder : 7 ≤ rank (orderTokens order ++ (boundTokens "LIMIT" (limit.or defaultLimit) ++
      (boundTokens "OFFSET" offset ++ rest))) :=
    le_rank_append (fun h => Nat.le_of_eq (rank_orderTokens h).symm)
      (Nat.le_trans (by decide) hlimit)
  have hlimitRank : wordRank "LIMIT" < rank (boundTokens "OFFSET" offset ++ rest) :=
    Nat.lt_of_lt_of_le (by decide) hoffset
  have hoffsetRank : wordRank "OFFSET" < rank rest := Nat.lt_of_lt_of_le (by decide) hrest
  -- now the clauses are read one after the other
  have hreadArms := arms_eq hselect (by omega : sizeOf arms ≤ n) (by omega) harmsSound harmsSafe
    horder
  have hreadOrder := order_eq (by omega : order.length ≤ n) hlimit
  have hreadLimit := bound_eq (limit.or defaultLimit) hlimitRank
  have hreadOffset := bound_eq offset hoffsetRank
  simp only [Select.tailTokens, Select.effectiveLimit, List.append_assoc]
  simp only [tail, hreadArms, hreadOrder, hreadLimit, hreadOffset, Option.bind_eq_bind,
    Option.bind_some]
  rfl

theorem six_le_rank_tail (s : Select) {rest : List Token} (hrest : 6 ≤ rank rest) :
    6 ≤ rank (s.tailTokens ++ rest) := by
  have hoffset : 6 ≤ rank (boundTokens "OFFSET" s.offset ++ rest) :=
    le_rank_append (fun h => by rw [rank_boundTokens h]; decide) hrest
  have hlimit : 6 ≤ rank (boundTokens "LIMIT" s.effectiveLimit ++
      (boundTokens "OFFSET" s.offset ++ rest)) :=
    le_rank_append (fun h => by rw [rank_boundTokens h]; decide) hoffset
  have horder : 6 ≤ rank (orderTokens s.order ++ (boundTokens "LIMIT" s.effectiveLimit ++
      (boundTokens "OFFSET" s.offset ++ rest))) :=
    le_rank_append (fun h => by rw [rank_orderTokens h]; decide) hlimit
  simp only [Select.tailTokens, List.append_assoc]
  exact six_le_rank_arms horder

theorem head_eq (hselect : Select.ReadBack n) (hfilter : Filter.ReadBack n) {s : Select}
    (hsize : sizeOf s ≤ n + 1) (hsound : s.Sound) (hsafe : s.Verbatim Safe) {rest : List Token}
    (hrest : 6 ≤ rank (s.tailTokens ++ rest)) :
    head (Select.read n false) n (Filter.read n) (s.fragment.tokens ++ rest) =
      some (s.canonical.withoutTail, s.tailTokens ++ rest) := by
  rw [Select.tokens_eq_tail hsafe]
  -- nothing of the tail is read here, so it is any rest of a high enough rank
  generalize s.tailTokens ++ rest = after at hrest ⊢
  rcases s with ⟨dialect, columns, source, joins, filter, groups, having, arms, order, limit,
    offset, defaultLimit, commonTables⟩
  obtain ⟨htablesSound, -, hsourceSound, hfilterSound, -, hhavingSound, -⟩ := hsound
  obtain ⟨htablesSafe, hcolumnsSafe, hsourceSafe, -, hfilterSafe, -, hhavingSafe, -, -⟩ := hsafe
  simp only [Select.mk.sizeOf_spec] at hsize
  -- as in the tail, the ranks are found from the end of the head
  have hcolumnsLength := length_lt_sizeOf columns
  have hjoinsLength := length_lt_sizeOf joins
  have hgroupsLength := length_lt_sizeOf groups
  have hhaving : 5 ≤ rank (having.clauseTokens "HAVING" ++ after) :=
    le_rank_append (fun h => by rw [rank_filterClause h]; decide) (Nat.le_trans (by decide) hrest)
  have hgroups : 4 ≤ rank (groupsTokens groups ++ (having.clauseTokens "HAVING" ++ after)) :=
    le_rank_append (fun h => Nat.le_of_eq (rank_groupsTokens h).symm)
      (Nat.le_trans (by decide) hhaving)
  have hwhere : 3 ≤ rank (filter.clauseTokens "WHERE" ++ (groupsTokens groups ++
      (having.clauseTokens "HAVING" ++ after))) :=
    le_rank_append (fun h => by rw [rank_filterClause h]; decide)
      (Nat.le_trans (by decide) hgroups)
  -- columns and source end at words that no list goes on with
  have hfrom : ∀ ts, NoComma (.word "FROM" :: ts) := by
    rintro ts rest ⟨⟩
  have hwhereRank : wordRank "WHERE" < rank (groupsTokens groups ++
      (having.clauseTokens "HAVING" ++ after)) := Nat.lt_of_lt_of_le (by decide) hgroups
  have hhavingRank : wordRank "HAVING" < rank after := Nat.lt_of_lt_of_le (by decide) hrest
  have hreadTables := commonTables_eq hselect (by omega : sizeOf commonTables ≤ n) htablesSound
    htablesSafe
  have hreadColumns := fun ts => columns_eq hcolumnsSafe (by omega : columns.length ≤ n) (hfrom ts)
  have hreadSource := source_eq hselect (by omega : sizeOf source ≤ n) hsourceSound hsourceSafe
  have hreadJoins := joins_eq (by omega : joins.length < n) hwhere
  have hreadFilter := filterClause_eq hfilter (by omega : sizeOf filter ≤ n) hfilterSound
    hfilterSafe (Nat.le_trans (by decide) hgroups) hwhereRank
  have hreadGroups := groups_eq (by omega : groups.length ≤ n) hhaving
  have hreadHaving := filterClause_eq hfilter (by omega : sizeOf having ≤ n) hhavingSound
    hhavingSafe (Nat.le_trans (by decide) hrest) hhavingRank
  simp only [head, hreadTables, hreadColumns, hreadSource, hreadJoins, hreadFilter, hreadGroups,
    hreadHaving, List.tail_cons, Option.bind_eq_bind, Option.bind_some]
  rfl

/-- One more call reads the statements whose parts are read back. -/
theorem Select.readBack_succ (hselect : Select.ReadBack n) (hfilter : Filter.ReadBack n) :
    Select.ReadBack (n + 1) := by
  intro s plain rest hsize hsound hsafe hplain hrest
  have hsix : 6 ≤ rank rest := Nat.le_trans (by cases plain <;> decide) hrest
  have hhead := head_eq hselect hfilter hsize hsound hsafe (six_le_rank_tail s hsix)
  rw [Select.read, hhead, Option.bind_eq_bind, Option.bind_some]
  cases plain with
  | true =>
      -- a plain statement stops before the tail, and has none
      obtain ⟨htail, hcanonical⟩ := Select.plain_eq (hplain rfl)
      rw [htail, hcanonical]
      rfl
  | false => exact tail_eq hselect hsize hsound hsafe hrest

end Step

/-- Whatever number of calls readers are given, they read back what it is enough for. -/
theorem readBack (n : Nat) : Select.ReadBack n ∧ Filter.ReadBack n ∧ Predicate.ReadBack n := by
  -- every reader's call goes down by one, and a part is smaller than the whole by at least one
  induction n with
  | zero =>
      -- nothing has size zero
      refine ⟨?_, ?_, ?_⟩
      · intro s _ _ hsize
        cases s
        simp only [Select.mk.sizeOf_spec] at hsize
        omega
      · intro f _ hsize
        cases f
        simp only [Filter.mk.sizeOf_spec] at hsize
        omega
      · intro p _ hsize
        cases p <;> simp at hsize
  | succ n ih =>
      obtain ⟨hselect, hfilter, hpredicate⟩ := ih
      exact ⟨Select.readBack_succ hselect hfilter, Filter.readBack_succ hpredicate,
        Predicate.readBack_succ hselect hfilter⟩

/-- The tokens of a sound statement with safe texts are read back as its canonical form. -/
theorem Select.read_tokens {s : Select} (hsound : s.Sound) (hsafe : s.Verbatim Safe) {n : Nat}
    (hn : sizeOf s ≤ n) : Select.read n false s.fragment.tokens = some (s.canonical, []) := by
  have hread := (readBack n).1 s false [] hn hsound hsafe (by simp) (Nat.le_refl 10)
  rwa [List.append_nil] at hread

end BoundSelect
