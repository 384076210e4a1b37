import BoundSelect.Draft
import BoundSelect.Proofs.Lockstep

/-!
# What a count keeps

A written statement is its common tables, its columns, its body and its paging. Its count keeps the
common tables and the body to the character, the numbers of their placeholders among them, and binds
the same values (`Select.query_count`). Only the columns and the paging of the whole statement are
given up; those of the statements inside stay.
-/

set_option autoImplicit false

namespace BoundSelect

open Fragment

namespace Select

/-! ## The four parts of a written statement -/

/-- The common tables as they are written in front of the whole statement. -/
def writtenTables (s : Select) : String :=
  s.tables.spell s.dialect.placeholder 0

/-- All from the source to the last arm as it is written in the whole statement, where the values of
the common tables are bound already. -/
def writtenBody (s : Select) : String :=
  s.body.spell s.dialect.placeholder s.tables.values.length

/-- Sort keys and bounds as they are written behind the whole statement. -/
def writtenPaging (s : Select) : String :=
  pagingText s.order s.effectiveLimit s.offset

/-- A statement is written part by part, the body behind the values of the common tables. -/
theorem spell_fragment (s : Select) (placeholder : Nat → String) (bound : Nat) :
    s.fragment.spell placeholder bound = s.tables.spell placeholder bound ++ "SELECT " ++
      columnsText s.columns ++ s.body.spell placeholder (bound + s.tables.values.length) ++
        s.writtenPaging := by
  rw [fragment_eq, List.append_assoc, spell_append]
  simp only [List.cons_append, spell, spell_append, writtenPaging, String.append_empty,
    String.append_assoc]

theorem sql_query (s : Select) :
    s.query.sql =
      s.writtenTables ++ "SELECT " ++ columnsText s.columns ++ s.writtenBody ++ s.writtenPaging := by
  rw [query_eq, spell_fragment, Nat.zero_add]
  rfl

/-! ## Counting in place and from outside -/

/-- The statement as the source of its count. -/
def counted (s : Select) : Select :=
  { s.unpaged with columns := s.countedColumns, commonTables := [] }

/-- The count of the rows of another statement, which may use the common tables. -/
def countOver (dialect : Dialect) (commonTables : List CommonTable) (inner : Select) : Select :=
  { ofTable dialect "" none with
    columns := [countColumn], source := .query inner "t", commonTables := commonTables }

theorem count_of_isFlat {s : Select} (h : s.isFlat = true) :
    s.count = { s.unpaged with columns := [countColumn] } := by
  rw [count, if_pos h]

theorem count_of_not_isFlat {s : Select} (h : s.isFlat = false) :
    s.count = countOver s.dialect s.commonTables s.counted := by
  rw [count, if_neg (Bool.eq_false_iff.1 h)]
  rfl

theorem isFlat_iff (s : Select) :
    s.isFlat = true ↔ s.groups = [] ∧ s.having.terms = [] ∧ s.arms = [] := by
  simp only [isFlat, Filter.isEmpty, Bool.and_eq_true, List.isEmpty_iff, and_assoc]

/-- Without common tables and paging only columns and body are left. -/
theorem spell_counted (s : Select) (placeholder : Nat → String) (bound : Nat) :
    s.counted.fragment.spell placeholder bound =
      "SELECT " ++ columnsText s.countedColumns ++ s.body.spell placeholder bound := by
  have htables : s.counted.tables = [] := rfl
  have hbody : s.counted.body = s.body := rfl
  have hpaging : s.counted.writtenPaging = "" := rfl
  rw [spell_fragment, htables, hbody, hpaging, spell, values_nil, List.length_nil, Nat.add_zero,
    String.empty_append, String.append_empty]
  rfl

/-- The body of a count over a statement is that statement in parentheses. -/
theorem spell_body_countOver (dialect : Dialect) (ts : List CommonTable) (inner : Select)
    (placeholder : Nat → String) (bound : Nat) :
    (countOver dialect ts inner).body.spell placeholder bound =
      " FROM " ++ parensText (inner.fragment.spell placeholder bound) ++ " AS t" := by
  -- the clauses behind the source are empty
  have hbody : (countOver dialect ts inner).body =
      .text " FROM " :: (parens inner.fragment ++ [.text " AS t", .text "", .text ""]) := by
    simp only [body, countOver, ofTable, Source.fragment, List.append_assoc, List.cons_append]
    rfl
  rw [hbody, spell, spell_append, spell_parens]
  simp only [spell, String.append_empty, String.append_assoc]

theorem literals_countOver (dialect : Dialect) (ts : List CommonTable) (inner : Select) :
    (countOver dialect ts inner).literals = CommonTable.literals ts ++ inner.literals := by
  simp [countOver, ofTable, Select.literals, Source.literals, Filter.empty, Filter.literals,
    Term.literals, Arm.literals]

/-! ## The count of a statement -/

theorem literals_count (s : Select) : s.count.literals = s.literals := by
  cases hflat : s.isFlat with
  | true =>
      rw [count_of_isFlat hflat]
      rcases s
      rfl
  | false =>
      -- the common tables are the first clause with values, so they can stay in front
      rw [count_of_not_isFlat hflat, literals_countOver]
      rcases s
      simp only [counted, unpaged, Select.literals, CommonTable.literals, List.nil_append,
        List.append_assoc]

theorem dialect_count (s : Select) : s.count.dialect = s.dialect := by
  rw [count]
  split <;> rfl

theorem sql_count_of_isFlat {s : Select} (h : s.isFlat = true) :
    s.count.query.sql = s.writtenTables ++ "SELECT COUNT(*)" ++ s.writtenBody := by
  have hcolumn : "SELECT " ++ countColumn = "SELECT COUNT(*)" := rfl
  rw [count_of_isFlat h, sql_query]
  -- tables and body look at clauses that are the same as before
  change s.writtenTables ++ "SELECT " ++ countColumn ++ s.writtenBody ++ "" = _
  simp only [← hcolumn, String.append_empty, String.append_assoc]

theorem sql_count_of_not_isFlat {s : Select} (h : s.isFlat = false) :
    s.count.query.sql = s.writtenTables ++ "SELECT COUNT(*) FROM (SELECT " ++
      columnsText s.countedColumns ++ s.writtenBody ++ ") AS t" := by
  have hopening : "SELECT " ++ countColumn ++ " FROM " ++ "(" ++ "SELECT " =
      "SELECT COUNT(*) FROM (SELECT " := rfl
  have hclosing : ")" ++ " AS t" = ") AS t" := rfl
  -- the values of the common tables are bound before the source, as they were before the body
  have hbody : (countOver s.dialect s.commonTables s.counted).writtenBody =
      " FROM " ++ parensText ("SELECT " ++ columnsText s.countedColumns ++ s.writtenBody) ++
        " AS t" := by
    rw [writtenBody, spell_body_countOver, spell_counted]
    rfl
  rw [count_of_not_isFlat h, sql_query, hbody, parensText, ← hopening, ← hclosing]
  change s.writtenTables ++ "SELECT " ++ countColumn ++ _ ++ "" = _
  simp only [String.append_empty, String.append_assoc]

/-- The columns of the source of a count. -/
theorem countedColumns_eq (s : Select) :
    s.countedColumns =
      if s.arms ≠ [] ∨ (s.having.terms ≠ [] ∧ s.columns ≠ []) then s.columns else ["1"] := by
  have hkept : (!s.arms.isEmpty || (!s.having.isEmpty && !s.columns.isEmpty)) = true ↔
      s.arms ≠ [] ∨ (s.having.terms ≠ [] ∧ s.columns ≠ []) := by
    simp [Filter.isEmpty]
  rw [countedColumns]
  by_cases h : s.arms ≠ [] ∨ (s.having.terms ≠ [] ∧ s.columns ≠ [])
  · rw [if_pos h, if_pos (hkept.2 h)]
  · rw [if_neg h, if_neg fun h' => h (hkept.1 h')]

theorem columnsText_countedColumns (s : Select) :
    columnsText s.countedColumns =
      if s.arms ≠ [] ∨ (s.having.terms ≠ [] ∧ s.columns ≠ []) then columnsText s.columns
      else "1" := by
  rw [countedColumns_eq]
  split <;> rfl

/-- A count does not see sort keys and bounds, a default limit among them. -/
theorem count_repaged (s : Select) (order : List SortKey)
    (limit offset defaultLimit : Option UInt64) :
    ({ s with order, limit, offset, defaultLimit } : Select).count = s.count := rfl

end Select

/-! ## Steps that only page -/

/-- Whether a step only sorts or bounds the rows. -/
def Step.isPaging : Step → Bool
  | .orderBy _ | .limit _ | .offset _ | .page _ _ => true
  | _ => false

theorem Step.run_of_isPaging {step : Step} (h : step.isPaging = true) (s : Select) :
    ∃ order limit offset, step.run s = .ok { s with order, limit, offset } := by
  cases step with
  | orderBy key => exact ⟨_, s.limit, s.offset, rfl⟩
  | limit n => exact ⟨s.order, _, s.offset, rfl⟩
  | offset n => exact ⟨s.order, s.limit, _, rfl⟩
  | page page size => exact ⟨s.order, _, _, rfl⟩
  | _ => cases h

theorem Step.runAll_of_isPaging {steps : List Step} (h : ∀ step ∈ steps, step.isPaging = true)
    (s : Select) :
    ∃ order limit offset, Step.runAll steps s = .ok { s with order, limit, offset } := by
  induction steps generalizing s with
  | nil =>
      rcases s
      exact ⟨_, _, _, rfl⟩
  | cons step steps ih =>
      obtain ⟨order, limit, offset, hstep⟩ := run_of_isPaging (h step List.mem_cons_self) s
      obtain ⟨order', limit', offset', hsteps⟩ :=
        ih (fun t ht => h t (List.mem_cons_of_mem step ht)) { s with order, limit, offset }
      refine ⟨order', limit', offset', ?_⟩
      rw [Step.runAll, hstep]
      exact hsteps

namespace Select

/-- The count of a statement has its dialect and its parameters. Its text has the common tables and
the body of the statement; the body stands in it directly if there are no groups, no filter of
groups and no union, and otherwise in a source behind the columns that the rows depend on, or a
constant. Sort keys and bounds of the whole statement make no difference to it, whether they come
from steps or from settings. -/
theorem query_count (s : Select) :
    s.query.sql = s.writtenTables ++ "SELECT " ++ columnsText s.columns ++ s.writtenBody ++
        s.writtenPaging ∧
      s.count.query.params = s.query.params ∧ s.count.query.dialect = s.query.dialect ∧
      s.count.query.sql =
        (if s.groups = [] ∧ s.having.terms = [] ∧ s.arms = [] then
          s.writtenTables ++ "SELECT COUNT(*)" ++ s.writtenBody
        else
          s.writtenTables ++ "SELECT COUNT(*) FROM (SELECT " ++
            (if s.arms ≠ [] ∨ (s.having.terms ≠ [] ∧ s.columns ≠ []) then columnsText s.columns
              else "1") ++ s.writtenBody ++ ") AS t") ∧
      (∀ order limit offset defaultLimit,
        ({ s with order, limit, offset, defaultLimit } : Select).count = s.count) ∧
      ∀ steps : List Step, (∀ step ∈ steps, step.isPaging = true) →
        ∃ t, Step.runAll steps s = .ok t ∧ t.count = s.count := by
  refine ⟨sql_query s, ?_, ?_, ?_, count_repaged s, ?_⟩
  · rw [query_eq, query_eq, literals_count]
  · rw [query_eq, query_eq, dialect_count]
  · cases hflat : s.isFlat with
    | true => rw [if_pos ((isFlat_iff s).1 hflat), sql_count_of_isFlat hflat]
    | false =>
        have hnot : ¬ (s.groups = [] ∧ s.having.terms = [] ∧ s.arms = []) := fun h =>
          Bool.eq_false_iff.1 hflat ((isFlat_iff s).2 h)
        rw [if_neg hnot, sql_count_of_not_isFlat hflat, columnsText_countedColumns]
  · intro steps hsteps
    obtain ⟨order, limit, offset, hrun⟩ := Step.runAll_of_isPaging hsteps s
    exact ⟨_, hrun, count_repaged s order limit offset s.defaultLimit⟩

end Select

end BoundSelect
