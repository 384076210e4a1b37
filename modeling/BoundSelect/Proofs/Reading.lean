import BoundSelect.Proofs.Reader

/-!
# What readers read

Each clause that is written is read back, whatever is written behind it, as long as that begins with
a word of a later clause, or the parentheses around the statement end there. How late a clause is
shows in the rank of its first word, so what may come behind a clause is a bound on `rank`.
-/

set_option autoImplicit false

namespace BoundSelect

/-! ## Ranks -/

/-- The words that can come behind a predicate, by the order of their clauses. -/
def rankedWords : List (String × Nat) :=
  [("AND", 1), ("OR", 1), ("INNER", 2), ("LEFT", 2), ("RIGHT", 2), ("WHERE", 3), ("GROUP", 4),
    ("HAVING", 5), ("UNION", 6), ("ORDER", 7), ("LIMIT", 8), ("OFFSET", 9)]

/-- The rank of a word. Other words have none. -/
def wordRank (w : String) : Nat := (rankedWords.lookup w).getD 0

/-- The rank of tokens by the first of them. The end of a statement comes behind all clauses. -/
def rank : List Token → Nat
  | [] | .closing :: _ => 10
  | .word w :: _ => wordRank w
  | .opening :: _ | .comma :: _ | .value _ :: _ => 0

theorem rank_cons_append (t : Token) (ts rest : List Token) :
    rank (t :: ts ++ rest) = rank (t :: ts) := by
  cases t <;> rfl

/-- Tokens that are behind a clause, or absent, before others behind it. -/
theorem le_rank_append {k : Nat} {ts rest : List Token} (hts : ts ≠ [] → k ≤ rank ts)
    (hrest : k ≤ rank rest) : k ≤ rank (ts ++ rest) := by
  cases ts with
  | nil => exact hrest
  | cons t ts =>
      rw [rank_cons_append]
      exact hts (List.cons_ne_nil t ts)

/-- Tokens that do not begin with a comma. -/
def NoComma (ts : List Token) : Prop := ∀ rest, ts ≠ .comma :: rest

theorem noComma_of_rank {ts : List Token} (h : 0 < rank ts) : NoComma ts := by
  rintro rest rfl
  exact absurd h (Nat.lt_irrefl 0)

namespace Reader

section Combinators

variable {α β : Type} {read : Reader β} {tokensOf : α → List Token} {result : α → β}

theorem map_eq {γ : Type} {g : β → γ} {ts rest : List Token} {b : β}
    (h : read ts = some (b, rest)) : read.map g ts = some (g b, rest) := by
  rw [map, h]
  rfl

theorem after_cons (w : String) (ts : List Token) : after w (.word w :: ts) = some ts := by
  rw [after, if_pos rfl]

theorem after_of_ne {w v : String} (h : v ≠ w) (ts : List Token) :
    after w (.word v :: ts) = none := by
  rw [after, if_neg h]

/-- Behind a clause its word does not come again. -/
theorem after_of_rank {w : String} {ts : List Token} (h : wordRank w < rank ts) :
    after w ts = none := by
  rcases ts with _ | ⟨v | _ | _ | _ | v, ts⟩
  · rfl
  -- if the word were the one looked for, its rank would be below itself
  · refine after_of_ne ?_ ts
    rintro rfl
    exact Nat.lt_irrefl _ h
  · rfl
  · rfl
  · rfl
  · rfl

theorem clause_present (w : String) (absent : β) (ts : List Token) :
    clause w absent read (.word w :: ts) = read ts := by
  rw [clause, after_cons]

theorem clause_absent {w : String} (absent : β) {ts : List Token} (h : wordRank w < rank ts) :
    clause w absent read ts = some (absent, ts) := by
  rw [clause, after_of_rank h]

theorem parenthesised_eq {f : Fragment} {b : β} {rest : List Token}
    (h : read (f.tokens ++ .closing :: rest) = some (b, .closing :: rest)) :
    parenthesised read (f.parensTokens ++ rest) = some (b, rest) := by
  rw [Fragment.parensTokens, List.cons_append, List.append_assoc, List.singleton_append,
    parenthesised, h]

/-- Items with commas between them are read if each of them is. -/
theorem separated_eq {items : List α}
    (hitem : ∀ a ∈ items, ∀ rest, read (tokensOf a ++ rest) = some (result a, rest))
    (hne : items ≠ []) {n : Nat} (hn : items.length ≤ n) {rest : List Token}
    (hrest : NoComma rest) :
    separated read n (commaSeparated (items.map tokensOf) ++ rest) =
      some (items.map result, rest) := by
  -- on the items; the calls left go down with them
  induction items generalizing n with
  | nil => exact absurd rfl hne
  | cons a items ih =>
      obtain ⟨m, rfl⟩ : ∃ m, n = m + 1 := Nat.exists_eq_add_one.2 (by simp at hn; omega)
      have ha := hitem a List.mem_cons_self
      cases items with
      | nil =>
          rw [List.map_singleton, commaSeparated, separated, ha]
          -- the last item: only a comma behind it would ask for another
          rcases rest with _ | ⟨v | _ | _ | _ | v, rest⟩
          · rfl
          · rfl
          · rfl
          · rfl
          · exact absurd rfl (hrest rest)
          · rfl
      | cons b items =>
          -- a comma follows, and behind it the other items
          have hothers := ih (fun c hc => hitem c (List.mem_cons_of_mem a hc))
            (List.cons_ne_nil b items) (Nat.le_of_succ_le_succ hn)
          rw [List.map_cons, List.map_cons, commaSeparated, List.append_assoc, separated, ha]
          exact map_eq hothers

/-- Items one after the other are read if each of them is, and nothing behind them is one. -/
theorem many_eq {items : List α} {Follows : List Token → Prop}
    (hitem : ∀ a ∈ items, ∀ rest, Follows rest → read (tokensOf a ++ rest) = some (result a, rest))
    (hfollows : ∀ a ∈ items, ∀ rest, Follows (tokensOf a ++ rest)) {n : Nat}
    (hn : items.length < n) {rest : List Token} (hrest : Follows rest) (hend : read rest = none) :
    many read n (items.flatMap tokensOf ++ rest) = some (items.map result, rest) := by
  induction items generalizing n with
  | nil =>
      obtain ⟨m, rfl⟩ : ∃ m, n = m + 1 := Nat.exists_eq_add_one.2 hn
      rw [List.flatMap_nil, List.nil_append, many, hend]
      rfl
  | cons a items ih =>
      obtain ⟨m, rfl⟩ : ∃ m, n = m + 1 := Nat.exists_eq_add_one.2 (by simp at hn; omega)
      have hothers := ih (fun c hc => hitem c (List.mem_cons_of_mem a hc))
        (fun c hc => hfollows c (List.mem_cons_of_mem a hc)) (Nat.lt_of_succ_lt_succ hn)
      -- what comes behind the first item is the second, or what follows them all
      have hnext : Follows (items.flatMap tokensOf ++ rest) := by
        cases items with
        | nil => exact hrest
        | cons b items =>
            rw [List.flatMap_cons, List.append_assoc]
            exact hfollows b (by simp) _
      rw [List.flatMap_cons, List.append_assoc, many, hitem a List.mem_cons_self _ hnext]
      exact map_eq hothers

end Combinators

/-! ## Clauses without statements -/

theorem word_eq {w : String} (rest : List Token) : word ([.word w] ++ rest) = some (w, rest) := rfl

/-- Words with commas between them are read back. -/
theorem separated_word {ws : List String} (hne : ws ≠ []) {n : Nat} (hn : ws.length ≤ n)
    {rest : List Token} (hrest : NoComma rest) :
    separated word n (commaSeparated (ws.map fun w => [.word w]) ++ rest) = some (ws, rest) := by
  have hwords : separated word n (commaSeparated (ws.map fun w => [.word w]) ++ rest) =
      some (ws.map id, rest) := separated_eq (fun _ _ rest => word_eq rest) hne hn hrest
  rwa [List.map_id] at hwords

/-- The first of runs of tokens with commas between them. -/
theorem commaSeparated_cons (t : Token) (ts : List Token) (runs : List (List Token)) :
    ∃ us, commaSeparated ((t :: ts) :: runs) = t :: us := by
  cases runs with
  | nil => exact ⟨ts, rfl⟩
  | cons r runs => exact ⟨_, rfl⟩

theorem columns_eq {cs : List String} (hsafe : ∀ c ∈ cs, Safe c) {n : Nat} (hn : cs.length ≤ n)
    {rest : List Token} (hrest : NoComma rest) :
    columns n (columnsTokens cs ++ rest) = some (cs, rest) := by
  rw [columns, columnsTokens]
  cases cs with
  | nil => rfl
  | cons c cs =>
      obtain ⟨us, hus⟩ := commaSeparated_cons (.word c) [] (cs.map fun c => [.word c])
      -- a safe column is not the star that stands for all of them
      have hstar : c ≠ "*" := (hsafe c List.mem_cons_self).ne_of_head (by decide)
      have hafter :
          after "*" (commaSeparated ((c :: cs).map fun c => [.word c]) ++ rest) = none := by
        rw [List.map_cons, hus]
        exact after_of_ne hstar _
      rw [List.isEmpty_cons, if_neg Bool.false_ne_true, hafter]
      exact separated_word (List.cons_ne_nil c cs) hn hrest

theorem join_eq (j : Join) (rest : List Token) : join (joinTokens j ++ rest) = some (j, rest) := by
  obtain ⟨kind, table, left, right⟩ := j
  cases kind <;> rfl

/-- Behind the joins there is none. -/
theorem join_of_rank {ts : List Token} (h : 3 ≤ rank ts) : join ts = none := by
  simp only [join]
  split
  · next k _ table _ left _ right ts =>
      -- the first word of a join has rank two, so a word of a higher rank names no kind of join
      have hkind : ([.inner, .left, .right].find? fun kind : JoinType => kind.word = k) = none := by
        rw [List.find?_eq_none]
        intro kind _ hword
        obtain rfl : kind.word = k := by simpa using hword
        have hrank : wordRank kind.word = 2 := by cases kind <;> rfl
        rw [rank, hrank] at h
        exact absurd h (by decide)
      rw [hkind]
      rfl
  · rfl

theorem joins_eq {js : List Join} {n : Nat} (hn : js.length < n) {rest : List Token}
    (hrest : 3 ≤ rank rest) :
    many join n (js.flatMap joinTokens ++ rest) = some (js, rest) := by
  have hjoins : many join n (js.flatMap joinTokens ++ rest) = some (js.map id, rest) :=
    many_eq (fun j _ rest (_ : True) => join_eq j rest) (fun _ _ _ => trivial) hn trivial
      (join_of_rank hrest)
  rwa [List.map_id] at hjoins

theorem groups_eq {gs : List String} {n : Nat} (hn : gs.length ≤ n) {rest : List Token}
    (hrest : 5 ≤ rank rest) :
    clause "GROUP" [] (groups n) (groupsTokens gs ++ rest) = some (gs, rest) := by
  rw [groupsTokens]
  cases gs with
  | nil => exact clause_absent [] (Nat.lt_of_lt_of_le (by decide) hrest)
  | cons g gs =>
      rw [List.isEmpty_cons, if_neg Bool.false_ne_true, List.cons_append, clause_present]
      exact separated_word (List.cons_ne_nil g gs) hn (noComma_of_rank (by omega))

theorem sortKey_eq (k : SortKey) (rest : List Token) :
    sortKey ([.word k.column, .word k.direction.keyword] ++ rest) = some (k, rest) := by
  obtain ⟨column, direction⟩ := k
  cases direction <;> rfl

theorem order_eq {ks : List SortKey} {n : Nat} (hn : ks.length ≤ n) {rest : List Token}
    (hrest : 8 ≤ rank rest) :
    clause "ORDER" [] (order n) (orderTokens ks ++ rest) = some (ks, rest) := by
  rw [orderTokens]
  cases ks with
  | nil => exact clause_absent [] (Nat.lt_of_lt_of_le (by decide) hrest)
  | cons k ks =>
      rw [List.isEmpty_cons, if_neg Bool.false_ne_true, List.cons_append, clause_present]
      have hcomma : NoComma rest := noComma_of_rank (by omega)
      have hkeys :=
        separated_eq (fun k _ rest => sortKey_eq k rest) (List.cons_ne_nil k ks) hn hcomma
      rwa [List.map_id'] at hkeys

theorem bound_eq {keyword : String} (b : Option UInt64) {rest : List Token}
    (hrest : wordRank keyword < rank rest) :
    clause keyword none bound (boundTokens keyword b ++ rest) = some (b, rest) := by
  cases b with
  | none => exact clause_absent none hrest
  | some n =>
      -- the numeral of a bound is the number itself, and fits in 64 bits
      have hread : Nat.ofDigitChars 10 (toString n.toNat).toList 0 = n.toNat := by
        rw [Nat.toString_eq_repr, Nat.toList_repr, Nat.ofDigitChars_ten_toDigits]
      rw [boundTokens, List.cons_append, clause_present, List.singleton_append, bound, hread,
        UInt64.ofNat_toNat]

end Reader

end BoundSelect
