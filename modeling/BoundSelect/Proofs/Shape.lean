import BoundSelect.Proofs.Lockstep
import BoundSelect.Select.Count

/-!
# The shape of a statement

The shape of a statement is what is left of it when its literals are forgotten. Statements of one
shape are written alike and have equally many parameters (`Select.query_eq_of_shape`), and every
change that is made to a statement acts on its shape, whatever the literals are.
-/

set_option autoImplicit false

namespace BoundSelect

/-! ## Changes to a recast statement -/

section Recast

variable (onDialect : Dialect → Dialect) (onValue : Value → Value)

theorem Term.recast_append (ts us : List Term) :
    Term.recast onDialect onValue (ts ++ us) =
      Term.recast onDialect onValue ts ++ Term.recast onDialect onValue us := by
  induction ts with
  | nil => rfl
  | cons t ts ih =>
      obtain ⟨c, p⟩ := t
      rw [List.cons_append, Term.recast, ih, Term.recast, List.cons_append]

theorem Arm.recast_append (arms more : List Arm) :
    Arm.recast onDialect onValue (arms ++ more) =
      Arm.recast onDialect onValue arms ++ Arm.recast onDialect onValue more := by
  induction arms with
  | nil => rfl
  | cons arm arms ih =>
      obtain ⟨all, s⟩ := arm
      rw [List.cons_append, Arm.recast, ih, Arm.recast, List.cons_append]

theorem CommonTable.recast_append (ts us : List CommonTable) :
    CommonTable.recast onDialect onValue (ts ++ us) =
      CommonTable.recast onDialect onValue ts ++ CommonTable.recast onDialect onValue us := by
  induction ts with
  | nil => rfl
  | cons t ts ih =>
      obtain ⟨name, s, recursive⟩ := t
      rw [List.cons_append, CommonTable.recast, ih, CommonTable.recast, List.cons_append]

theorem Filter.recast_push (c : Connective) (p : Predicate) (f : Filter) :
    (f.push c p).recast onDialect onValue =
      (f.recast onDialect onValue).push c (p.recast onDialect onValue) := by
  obtain ⟨ts⟩ := f
  rw [Filter.push, Filter.recast, Term.recast_append, Filter.recast, Filter.push, Term.recast,
    Term.recast]

theorem Filter.recast_isEmpty (f : Filter) :
    (f.recast onDialect onValue).isEmpty = f.isEmpty := by
  rcases f with ⟨_ | ⟨⟨c, p⟩, ts⟩⟩ <;> rfl

theorem Select.recast_addArm (s : Select) (all : Bool) (arm : Select) :
    (s.addArm all arm).recast onDialect onValue =
      (s.recast onDialect onValue).addArm all (arm.recast onDialect onValue) := by
  rcases s
  simp only [Select.addArm, Select.recast, Arm.recast_append, Arm.recast]

theorem Select.recast_selectFrom (s inner : Select) (name : String) :
    (s.selectFrom inner name).map (Select.recast onDialect onValue) =
      (s.recast onDialect onValue).selectFrom (inner.recast onDialect onValue) name := by
  rcases s
  simp only [Select.selectFrom]
  -- the check of the name does not see the statement
  cases NameUse.subquery.check name <;> rfl

theorem Select.recast_selectColumns (s : Select) (columns : List String) :
    (s.selectColumns columns).map (Select.recast onDialect onValue) =
      (s.recast onDialect onValue).selectColumns columns := by
  rcases s
  simp only [Select.selectColumns]
  cases columns.forM (NameUse.column.check ·) <;> rfl

theorem Select.recast_addColumn (s : Select) (column : String) :
    (s.addColumn column).map (Select.recast onDialect onValue) =
      (s.recast onDialect onValue).addColumn column := by
  rcases s
  simp only [Select.addColumn]
  cases NameUse.column.check column <;> rfl

theorem Select.recast_groupBy (s : Select) (column : String) :
    (s.groupBy column).map (Select.recast onDialect onValue) =
      (s.recast onDialect onValue).groupBy column := by
  rcases s
  simp only [Select.groupBy]
  cases NameUse.group.check column <;> rfl

theorem Select.recast_groupByAll (s : Select) (columns : List String) :
    (s.groupByAll columns).map (Select.recast onDialect onValue) =
      (s.recast onDialect onValue).groupByAll columns := by
  simp only [Select.groupByAll]
  induction columns generalizing s with
  | nil => rfl
  | cons column columns ih =>
      rw [List.foldlM_cons, List.foldlM_cons, ← Select.recast_groupBy]
      -- the columns before a fault are lost with the statement
      cases s.groupBy column with
      | error e => rfl
      | ok s => exact ih s

theorem Select.recast_addCommonTable (s body : Select) (recursive : Bool) (name : String) :
    (s.addCommonTable recursive name body).map (Select.recast onDialect onValue) =
      (s.recast onDialect onValue).addCommonTable recursive name
        (body.recast onDialect onValue) := by
  rcases s
  simp only [Select.addCommonTable]
  cases NameUse.commonTable.check name with
  | error e => rfl
  | ok u => simp [Except.map, Select.recast, CommonTable.recast_append, CommonTable.recast, bind,
      Except.bind, pure, Except.pure]

theorem Select.recast_isFlat (s : Select) :
    (s.recast onDialect onValue).isFlat = s.isFlat := by
  rcases s
  simp only [Select.isFlat, Select.recast, Filter.recast_isEmpty, Arm.recast_isEmpty]

theorem Select.recast_countedColumns (s : Select) :
    (s.recast onDialect onValue).countedColumns = s.countedColumns := by
  rcases s
  simp only [Select.countedColumns, Select.recast, Filter.recast_isEmpty, Arm.recast_isEmpty]

theorem Select.recast_count (s : Select) :
    s.count.recast onDialect onValue = (s.recast onDialect onValue).count := by
  simp only [Select.count]
  rw [Select.recast_isFlat]
  -- the way of counting depends on which clauses there are, and these stay
  split
  · rcases s
    rfl
  · rw [Select.recast_countedColumns]
    rcases s
    rfl

end Recast

/-! ## Shapes -/

/-- The statement with its literals forgotten. -/
def Select.shape (s : Select) : Select := s.recast id fun _ => .null

/-- The filter with its literals forgotten. -/
def Filter.shape (f : Filter) : Filter := f.recast id fun _ => .null

/-- The predicate with its literals forgotten. -/
def Predicate.shape (p : Predicate) : Predicate := p.recast id fun _ => .null

namespace Select

theorem dialect_shape (s : Select) : s.shape.dialect = s.dialect := by
  rcases s
  rfl

theorem spell_shape (s : Select) (placeholder : Nat → String) (bound : Nat) :
    s.shape.fragment.spell placeholder bound = s.fragment.spell placeholder bound := by
  rw [shape, fragment_recast, Fragment.spell_recast]

theorem length_literals_shape (s : Select) : s.shape.literals.length = s.literals.length := by
  rw [← values_fragment, shape, fragment_recast, Fragment.values_recast, List.length_map,
    values_fragment]

/-- Statements of one shape are written alike, and have equally many parameters. -/
theorem query_eq_of_shape {s s' : Select} (h : s.shape = s'.shape) :
    s.query.sql = s'.query.sql ∧ s.query.params.length = s'.query.params.length ∧
      s.query.dialect = s'.query.dialect := by
  have hdialect : s.dialect = s'.dialect := by rw [← dialect_shape s, h, dialect_shape]
  simp only [query_eq]
  refine ⟨?_, ?_, ?_⟩
  · rw [← spell_shape s, h, spell_shape, hdialect]
  · rw [← length_literals_shape s, h, length_literals_shape]
  · rw [hdialect]

end Select

end BoundSelect
