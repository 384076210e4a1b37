import BoundSelect.Proofs.Numbering

/-!
# From numbered placeholders to plain ones

A statement can be written for either engine first and respelled for the other one: taking the
digits away from the numbered placeholders gives the text with plain placeholders, sign by sign, and
the parameters are the same (`Select.respell_query`). Only the dialect of the whole statement has a
part in this. The dialects stored inside it change nothing.
-/

set_option autoImplicit false

namespace BoundSelect

/-- Writes a plain placeholder for each sign that opens a numbered one, together with all the digits
behind it. -/
def respell : List Char → List Char
  | [] => []
  | c :: cs => if c = '$' then '?' :: respell (cs.dropWhile Char.isDigit) else c :: respell cs
termination_by cs => cs.length
decreasing_by
  · exact Nat.lt_succ_of_le (List.dropWhile_suffix _).length_le
  · exact Nat.lt_succ_self _

/-- Text without the sign stays as it is. -/
theorem respell_append {cs : List Char} (h : '$' ∉ cs) (rest : List Char) :
    respell (cs ++ rest) = cs ++ respell rest := by
  induction cs with
  | nil => rfl
  | cons c cs ih =>
      rw [List.mem_cons, not_or] at h
      rw [List.cons_append, respell, if_neg (Ne.symm h.1), ih h.2, List.cons_append]

theorem Dialect.toList_placeholder_mysql (n : Nat) :
    (Dialect.mysql.placeholder n).toList = ['?'] := by
  simp [Dialect.mysql]

/-- All digits of a numbered placeholder are dropped, and nothing behind them. -/
theorem respell_placeholder (n : Nat) {rest : List Char}
    (hrest : ∀ c ∈ rest.head?, c.isDigit = false) :
    respell ((Dialect.postgres.placeholder n).toList ++ rest) = '?' :: respell rest := by
  have hdigits : ∀ c ∈ Nat.toDigits 10 n, c.isDigit = true := fun c hc =>
    Nat.isDigit_of_mem_toDigits (by decide) (by decide) hc
  rw [Dialect.toList_placeholder_postgres, List.cons_append, respell, if_pos rfl,
    Text.dropWhile_append_stop hdigits hrest]

namespace Fragment

/-- A fragment with numbered placeholders is respelled as the fragment with plain ones. Plain
placeholders show no number, so it does not matter how many values were bound before. -/
theorem respell_spell {f : Fragment} (hfree : f.Free '$') (hfenced : Fenced f)
    (bound bound' : Nat) :
    respell (f.spell Dialect.postgres.placeholder bound).toList =
      (f.spell Dialect.mysql.placeholder bound').toList := by
  induction f generalizing bound bound' with
  | nil => simp [spell, respell]
  | cons p f ih =>
      have hrest : Fragment.Free '$' f := fun s hs => hfree s (List.mem_cons_of_mem _ hs)
      cases p with
      | text s =>
          have hs : '$' ∉ s.toList := hfree s List.mem_cons_self
          rw [spell, String.toList_append, respell_append hs, ih hrest hfenced bound bound', spell,
            String.toList_append]
      | value v =>
          -- what is behind the placeholder is fenced off, so the digits end with its number
          have hend : ∀ c ∈ (spell Dialect.postgres.placeholder (bound + 1) f).toList.head?,
              c.isDigit = false := fun c hc =>
            isDigit_of_isBreak (isBreak_of_parted hfenced.1 _ _ c hc)
          rw [spell, String.toList_append, respell_placeholder _ hend,
            ih hrest hfenced.2 (bound + 1) (bound' + 1), spell, String.toList_append,
            Dialect.toList_placeholder_mysql, List.singleton_append]

end Fragment

namespace Select

theorem fragment_withDialect (s : Select) (d : Dialect) :
    (s.withDialect d).fragment = s.fragment := by
  rcases s
  rfl

theorem literals_withDialect (s : Select) (d : Dialect) :
    (s.withDialect d).literals = s.literals := by
  rw [← values_fragment, fragment_withDialect, values_fragment]

/-- The query of a statement for a dialect, whatever dialect it had. -/
theorem query_withDialect (s : Select) (d : Dialect) :
    (s.withDialect d).query = ⟨s.fragment.spell d.placeholder 0, s.literals, d.name⟩ := by
  rw [query_eq, fragment_withDialect, literals_withDialect]
  rfl

/-- Where no text of a statement holds the sign of placeholders, the statement written with numbered
placeholders and respelled is the statement written with plain ones, and the parameters are the
same. For neither does it matter which dialects are stored in the statement. -/
theorem respell_query (s : Select) (hfree : s.Verbatim (Free '$')) :
    (s.withDialect .postgres).query.params = (s.withDialect .mysql).query.params ∧
      respell (s.withDialect .postgres).query.sql.toList =
        (s.withDialect .mysql).query.sql.toList ∧
      ∀ (onDialect : Dialect → Dialect) (d : Dialect),
        ((s.recast onDialect id).withDialect d).query = (s.withDialect d).query := by
  refine ⟨?_, ?_, ?_⟩
  · rw [query_withDialect, query_withDialect]
  · rw [query_withDialect, query_withDialect]
    exact Fragment.respell_spell (free_fragment rfl s hfree) (fenced s) 0 0
  · intro onDialect d
    -- text and values both come from the fragment, which no stored dialect has a part in
    have hfragment : (s.recast onDialect id).fragment = s.fragment := by
      rw [fragment_recast, Fragment.recast_id]
    rw [query_withDialect, query_withDialect, ← values_fragment, ← values_fragment, hfragment]

/-- Ten values, the last of them in a statement inside that carries a dialect of its own. -/
def tenfold : Select :=
  { ofTable .postgres "t" none with
    filter := ⟨[⟨.and, .inList "m" (List.replicate 9 .null) false⟩,
      ⟨.or, .existence { ofTable .mysql "u" none with
        filter := ⟨[⟨.and, .compare "k" .equal (.text "$9")⟩]⟩ }⟩]⟩ }

theorem respell_tenfold :
    tenfold.Verbatim (Free '$') ∧
      respell (tenfold.withDialect .postgres).query.sql.toList =
        (tenfold.withDialect .mysql).query.sql.toList := by
  have hfree : tenfold.Verbatim (Free '$') := by
    simp [tenfold, ofTable, Filter.empty, Select.Verbatim, Source.Verbatim, CommonTable.Verbatim,
      Arm.Verbatim, Filter.Verbatim, Term.Verbatim, Predicate.Verbatim, Free]
  exact ⟨hfree, (respell_query tenfold hfree).2.1⟩

end Select

end BoundSelect
