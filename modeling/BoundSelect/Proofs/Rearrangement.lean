import BoundSelect.Draft

/-!
# Steps on different clauses

Every step but the count configures one clause of a statement. It reads that clause alone and
changes it alone, so steps on different clauses can change places. Two sequences of steps that have,
for every clause, the same steps in the same order make the same statement, with the same text,
values and dialect, or both fail (`Step.runAll_rearranged`).

That a step reads and changes its clause alone is one equation: to run the step on a statement that
has the clause from another statement is to run it on that other statement and take the clause over
(`Step.run_takeClause`).
-/

set_option autoImplicit false

namespace BoundSelect

/-! ## Clauses -/

/-- The clauses of a statement that steps configure. -/
inductive Clause where
  | dialect
  | columns
  | source
  | joins
  | filter
  | groups
  | having
  | arms
  | order
  | paging
  | commonTables
  deriving DecidableEq

/-- The clause that a step configures. A count reads them all. -/
def Step.clause? : Step → Option Clause
  | .dialect _ => some .dialect
  | .columns _ | .column _ => some .columns
  | .selectFrom .. => some .source
  | .join _ => some .joins
  | .filter _ => some .filter
  | .groupBy _ | .groupByAll _ => some .groups
  | .having _ => some .having
  | .arm .. => some .arms
  | .orderBy _ => some .order
  | .limit _ | .offset _ | .page .. => some .paging
  | .commonTable .. => some .commonTables
  | .count => none

namespace Select

/-- The statement with one clause taken over from another statement. -/
def takeClause (s : Select) : Clause → Select → Select
  | .dialect, t => { s with dialect := t.dialect }
  | .columns, t => { s with columns := t.columns }
  | .source, t => { s with source := t.source }
  | .joins, t => { s with joins := t.joins }
  | .filter, t => { s with filter := t.filter }
  | .groups, t => { s with groups := t.groups }
  | .having, t => { s with having := t.having }
  | .arms, t => { s with arms := t.arms }
  | .order, t => { s with order := t.order }
  | .paging, t => { s with limit := t.limit, offset := t.offset, defaultLimit := t.defaultLimit }
  | .commonTables, t => { s with commonTables := t.commonTables }

variable (s t u : Select) {j k : Clause}

@[simp] theorem takeClause_self : s.takeClause k s = s := by
  cases s
  cases k <;> rfl

@[simp] theorem takeClause_takeClause : (s.takeClause k t).takeClause k u = s.takeClause k u := by
  cases k <;> rfl

@[simp] theorem takeClause_of_takeClause :
    s.takeClause k (t.takeClause k u) = s.takeClause k u := by
  cases k <;> rfl

/-- A clause is not changed with another one. -/
theorem takeClause_of_ne (h : j ≠ k) : s.takeClause k (t.takeClause j u) = s.takeClause k t := by
  cases j <;> cases k <;> first | rfl | exact absurd rfl h

/-- Statements with the same clauses are the same. -/
theorem eq_of_takeClause {s t : Select} (h : ∀ k, s.takeClause k t = s) : s = t := by
  have hdialect := congrArg Select.dialect (h .dialect)
  have hcolumns := congrArg Select.columns (h .columns)
  have hsource := congrArg Select.source (h .source)
  have hjoins := congrArg Select.joins (h .joins)
  have hfilter := congrArg Select.filter (h .filter)
  have hgroups := congrArg Select.groups (h .groups)
  have hhaving := congrArg Select.having (h .having)
  have harms := congrArg Select.arms (h .arms)
  have horder := congrArg Select.order (h .order)
  have hlimit := congrArg Select.limit (h .paging)
  have hoffset := congrArg Select.offset (h .paging)
  have hdefault := congrArg Select.defaultLimit (h .paging)
  have htables := congrArg Select.commonTables (h .commonTables)
  cases s
  cases t
  simp only [takeClause] at *
  simp only [*]

end Select

/-! ## Steps on one clause -/

namespace Select

variable (s u : Select)

theorem editFilter_takeClause (edit : Filter.Edit) :
    (s.takeClause .filter u).editFilter edit =
      (u.editFilter edit).map (s.takeClause .filter ·) := by
  simp only [editFilter, takeClause]
  rcases edit u.filter with ⟨_ | _, f⟩ <;> rfl

theorem editHaving_takeClause (edit : Filter.Edit) :
    (s.takeClause .having u).editHaving edit =
      (u.editHaving edit).map (s.takeClause .having ·) := by
  simp only [editHaving, takeClause]
  rcases edit u.having with ⟨_ | _, f⟩ <;> rfl

theorem groupBy_takeClause (column : String) :
    (s.takeClause .groups u).groupBy column =
      (u.groupBy column).map (s.takeClause .groups ·) := by
  simp only [groupBy]
  cases NameUse.group.check column <;> rfl

theorem groupByAll_takeClause (columns : List String) :
    (s.takeClause .groups u).groupByAll columns =
      (u.groupByAll columns).map (s.takeClause .groups ·) := by
  simp only [groupByAll]
  induction columns generalizing u with
  | nil => rfl
  | cons column columns ih =>
      rw [List.foldlM_cons, List.foldlM_cons, groupBy_takeClause]
      cases u.groupBy column with
      | error e => rfl
      | ok t => exact ih t

end Select

/-- A step reads its own clause alone, and changes that clause alone. -/
theorem Step.run_takeClause (step : Step) {k : Clause} (hk : step.clause? = some k)
    (s u : Select) : step.run (s.takeClause k u) = (step.run u).map (s.takeClause k ·) := by
  cases step <;> cases hk
  case dialect d => rfl
  case columns names =>
      simp only [Step.run, Select.selectColumns]
      cases names.forM (NameUse.column.check ·) <;> rfl
  case column name =>
      simp only [Step.run, Select.addColumn]
      cases NameUse.column.check name <;> rfl
  case selectFrom inner name =>
      simp only [Step.run, Select.selectFrom]
      -- the inner statement is made first, whatever the outer one is
      cases inner.make with
      | error e => rfl
      | ok t => cases NameUse.subquery.check name <;> rfl
  case join j => rfl
  case filter step => exact s.editFilter_takeClause u step.run
  case having step => exact s.editHaving_takeClause u step.run
  case groupBy column => exact s.groupBy_takeClause u column
  case groupByAll columns => exact s.groupByAll_takeClause u columns
  case arm all inner =>
      simp only [Step.run]
      cases inner.make <;> rfl
  case orderBy key => rfl
  case limit n => rfl
  case offset n => rfl
  case page page size => rfl
  case commonTable recursive name inner =>
      simp only [Step.run, Select.addCommonTable]
      cases inner.make with
      | error e => rfl
      | ok t => cases NameUse.commonTable.check name <;> rfl

/-- A step leaves all other clauses as they are. -/
theorem Step.takeClause_of_run {step : Step} {k : Clause} (hk : step.clause? = some k)
    {s u : Select} (hrun : step.run s = .ok u) : s.takeClause k u = u := by
  have h := step.run_takeClause hk s s
  rw [Select.takeClause_self, hrun] at h
  exact (Except.ok.inj h).symm

/-- A statement before a step and after it agree in every clause but that of the step. -/
theorem Step.takeClause_of_run_of_ne {step : Step} {j k : Clause} (hj : step.clause? = some j)
    (hne : j ≠ k) {s u : Select} (hrun : step.run s = .ok u) :
    s.takeClause k u = s ∧ u.takeClause k s = u := by
  have hchanged : s.takeClause j u = u := Step.takeClause_of_run hj hrun
  constructor
  · rw [← hchanged, Select.takeClause_of_ne _ _ _ hne, Select.takeClause_self]
  · calc u.takeClause k s
        = u.takeClause k (s.takeClause j u) := (Select.takeClause_of_ne _ _ _ hne).symm
      _ = u := by rw [hchanged, Select.takeClause_self]

/-- Steps on one clause read and change that clause alone. -/
theorem Step.runAll_takeClause {steps : List Step} {k : Clause}
    (hk : ∀ step ∈ steps, step.clause? = some k) (s u : Select) :
    Step.runAll steps (s.takeClause k u) = (Step.runAll steps u).map (s.takeClause k ·) := by
  induction steps generalizing u with
  | nil => rfl
  | cons step steps ih =>
      obtain ⟨hstep, hsteps⟩ := List.forall_mem_cons.1 hk
      rw [Step.runAll, Step.runAll, step.run_takeClause hstep]
      cases step.run u with
      | error e => rfl
      | ok t => exact ih hsteps t

/-! ## Steps of one clause, and of all -/

/-- The steps that configure a clause. -/
def Clause.steps (k : Clause) (steps : List Step) : List Step :=
  steps.filter fun step => step.clause? = some k

theorem Clause.steps_cons_of_eq {k : Clause} {step : Step} (h : step.clause? = some k)
    (steps : List Step) : k.steps (step :: steps) = step :: k.steps steps :=
  List.filter_cons_of_pos (by simpa using h)

theorem Clause.steps_cons_of_ne {j k : Clause} {step : Step} (h : step.clause? = some j)
    (hne : j ≠ k) (steps : List Step) : k.steps (step :: steps) = k.steps steps :=
  List.filter_cons_of_neg (by simpa [h] using hne)

/-- The steps of one clause on two statements that agree in this clause. -/
theorem Clause.runAll_steps_takeClause (k : Clause) (steps : List Step) (s u : Select) :
    Step.runAll (k.steps steps) (s.takeClause k u) =
      (Step.runAll (k.steps steps) u).map (s.takeClause k ·) := by
  apply Step.runAll_takeClause
  intro step hstep
  simpa using (List.mem_filter.1 hstep).2

/-- Where all steps succeed, those of one clause succeed alone and give that clause. -/
theorem Clause.runAll_steps {steps : List Step} (hcount : ∀ step ∈ steps, step.clause? ≠ none)
    {s t : Select} (hrun : Step.runAll steps s = .ok t) (k : Clause) :
    Step.runAll (k.steps steps) s = .ok (s.takeClause k t) := by
  induction steps generalizing s with
  | nil =>
      cases hrun
      rw [Select.takeClause_self]
      rfl
  | cons step steps ih =>
      obtain ⟨hstep, hsteps⟩ := List.forall_mem_cons.1 hcount
      obtain ⟨j, hj⟩ := Option.ne_none_iff_exists'.1 hstep
      cases hfirst : step.run s with
      | error e => simp [Step.runAll, hfirst, bind, Except.bind] at hrun
      | ok u =>
          have hrest : Step.runAll steps u = .ok t := by
            simpa [Step.runAll, hfirst, bind, Except.bind] using hrun
          have hclause := ih hsteps hrest
          by_cases hjk : j = k
          · -- the step is one of the clause: it is run first here as well
            subst hjk
            have hchanged : s.takeClause j u = u := Step.takeClause_of_run hj hfirst
            rw [Clause.steps_cons_of_eq hj, Step.runAll, hfirst]
            calc Step.runAll (j.steps steps) u
                = .ok (u.takeClause j t) := hclause
              _ = .ok ((s.takeClause j u).takeClause j t) := by rw [hchanged]
              _ = .ok (s.takeClause j t) := by rw [Select.takeClause_takeClause]
          · -- the step is of another clause, and does not matter to this one
            have hsame := (Step.takeClause_of_run_of_ne hj hjk hfirst).1
            rw [Clause.steps_cons_of_ne hj hjk]
            calc Step.runAll (k.steps steps) s
                = Step.runAll (k.steps steps) (s.takeClause k u) := by rw [hsame]
              _ = (Step.runAll (k.steps steps) u).map (s.takeClause k ·) :=
                  k.runAll_steps_takeClause steps s u
              _ = .ok (s.takeClause k (u.takeClause k t)) := by rw [hclause]; rfl
              _ = .ok (s.takeClause k t) := by rw [Select.takeClause_of_takeClause]

/-- Where the steps of every clause succeed alone, all steps succeed. -/
theorem Clause.exists_runAll {steps : List Step} (hcount : ∀ step ∈ steps, step.clause? ≠ none)
    {s : Select} (hclauses : ∀ k : Clause, ∃ t, Step.runAll (k.steps steps) s = .ok t) :
    ∃ t, Step.runAll steps s = .ok t := by
  induction steps generalizing s with
  | nil => exact ⟨s, rfl⟩
  | cons step steps ih =>
      obtain ⟨hstep, hsteps⟩ := List.forall_mem_cons.1 hcount
      obtain ⟨j, hj⟩ := Option.ne_none_iff_exists'.1 hstep
      obtain ⟨t, ht⟩ := hclauses j
      rw [Clause.steps_cons_of_eq hj, Step.runAll] at ht
      rw [Step.runAll]
      cases hfirst : step.run s with
      | error e => simp [hfirst, bind, Except.bind] at ht
      | ok u =>
          rw [hfirst] at ht
          refine ih hsteps fun k => ?_
          by_cases hjk : j = k
          · exact hjk ▸ ⟨t, ht⟩
          · obtain ⟨v, hv⟩ := hclauses k
            have hsame := (Step.takeClause_of_run_of_ne hj hjk hfirst).2
            rw [Clause.steps_cons_of_ne hj hjk] at hv
            refine ⟨u.takeClause k v, ?_⟩
            rw [← hsame, k.runAll_steps_takeClause, hv, hsame]
            rfl

/-- Two sequences of steps without a count that are permutations of each other, and that have for
every clause the same steps in the same order, make the same statement from any statement, or both
fail. -/
theorem Step.runAll_rearranged {steps steps' : List Step} (hperm : steps.Perm steps')
    (hcount : ∀ step ∈ steps, step.clause? ≠ none)
    (hclauses : ∀ k : Clause, k.steps steps = k.steps steps') (s : Select) :
    ((∃ t, Step.runAll steps s = .ok t) ↔ ∃ t, Step.runAll steps' s = .ok t) ∧
      ∀ t t', Step.runAll steps s = .ok t → Step.runAll steps' s = .ok t' → t = t' := by
  have hcount' : ∀ step ∈ steps', step.clause? ≠ none := fun step hstep =>
    hcount step (hperm.mem_iff.2 hstep)
  refine ⟨⟨?_, ?_⟩, ?_⟩
  · rintro ⟨t, ht⟩
    refine Clause.exists_runAll hcount' fun k => ⟨s.takeClause k t, ?_⟩
    rw [← hclauses]
    exact Clause.runAll_steps hcount ht k
  · rintro ⟨t, ht⟩
    refine Clause.exists_runAll hcount fun k => ⟨s.takeClause k t, ?_⟩
    rw [hclauses]
    exact Clause.runAll_steps hcount' ht k
  · intro t t' ht ht'
    apply Select.eq_of_takeClause
    intro k
    -- either statement has the clause that the steps of this clause make alone
    have halone := Clause.runAll_steps hcount ht k
    rw [hclauses, Clause.runAll_steps hcount' ht' k] at halone
    have hsame : s.takeClause k t' = s.takeClause k t := Except.ok.inj halone
    calc t.takeClause k t'
        = t.takeClause k (s.takeClause k t') := (Select.takeClause_of_takeClause ..).symm
      _ = t.takeClause k (s.takeClause k t) := by rw [hsame]
      _ = t := by rw [Select.takeClause_of_takeClause, Select.takeClause_self]

/-- Columns, bounds and a condition, clause by clause interleaved. -/
def interleaved : List Step :=
  [.column "a", .limit 3, .filter (.comparison .and "n" "between" (.list [.int 1, .int 9])),
    .column "b", .page 2 5]

/-- The same steps with the condition first and the page before the last column. -/
def rearranged : List Step :=
  [.filter (.comparison .and "n" "between" (.list [.int 1, .int 9])), .column "a", .limit 3,
    .page 2 5, .column "b"]

theorem Step.runAll_rearranged_interleaved :
    interleaved.Perm rearranged ∧ (∀ step ∈ interleaved, step.clause? ≠ none) ∧
      (∀ k : Clause, k.steps interleaved = k.steps rearranged) ∧
      ∃ t, Step.runAll interleaved (.ofTable .postgres "t" (some 7)) = .ok t ∧
        ∃ t', Step.runAll rearranged (.ofTable .postgres "t" (some 7)) = .ok t' ∧ t = t' := by
  have hperm : interleaved.Perm rearranged := by
    unfold interleaved rearranged
    -- the condition moves to the front, and the last two change places
    exact (@List.perm_middle Step _ [.column "a", .limit 3] _).trans
      ((((List.Perm.swap ..).cons _).cons _).cons _)
  have hcount : ∀ step ∈ interleaved, step.clause? ≠ none := by
    simp [interleaved, Step.clause?]
  have hclauses : ∀ k : Clause, k.steps interleaved = k.steps rearranged := by
    intro k
    cases k <;> rfl
  have hsame := Step.runAll_rearranged hperm hcount hclauses (.ofTable .postgres "t" (some 7))
  obtain ⟨t', ht'⟩ := hsame.1.1 ⟨_, rfl⟩
  exact ⟨hperm, hcount, hclauses, _, rfl, t', ht', hsame.2 _ _ rfl ht'⟩

end BoundSelect
