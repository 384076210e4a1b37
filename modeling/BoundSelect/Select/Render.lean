import BoundSelect.Bindings
import BoundSelect.Select

/-!
# Writing statements

A statement is written clause by clause: common tables, columns, source, joins, filter, groups,
filter of groups, arms of the union, sort keys and bounds. A value is bound at the moment when its
placeholder is written. A statement inside another is written where it stands, into the bindings of
the whole: its own dialect does not matter, and its values take their places among the others.

An arm of a union is put in parentheses when it would otherwise claim clauses of the whole
statement, or the whole statement clauses of the arm: when it has sort keys, bounds, arms or common
tables of its own.
-/

set_option autoImplicit false

namespace BoundSelect

/-! ## Clauses without values -/

namespace Select

/-- Whether the statement sorts or bounds its rows. -/
def isPaged (s : Select) : Bool :=
  !s.order.isEmpty || s.limit.isSome || s.offset.isSome || s.defaultLimit.isSome

/-- Whether the statement needs parentheses as an arm of a union. -/
def needsParens (s : Select) : Bool :=
  s.isPaged || !s.arms.isEmpty || !s.commonTables.isEmpty

/-- The list of columns. -/
def columnsText (columns : List String) : String :=
  if columns.isEmpty then "*" else ", ".intercalate columns

/-- The joins. -/
def joinsText (joins : List Join) : String :=
  String.join (joins.map fun j =>
    " " ++ j.kind.keyword ++ " " ++ j.table ++ " ON " ++ j.left ++ " = " ++ j.right)

/-- The columns to group by. -/
def groupsText (groups : List String) : String :=
  if groups.isEmpty then "" else " GROUP BY " ++ ", ".intercalate groups

/-- The sort keys. -/
def orderText (order : List SortKey) : String :=
  if order.isEmpty then ""
  else " ORDER BY " ++ ", ".intercalate (order.map fun k => k.column ++ " " ++ k.direction.keyword)

/-- A bound after its keyword, if there is one. -/
def boundText (keyword : String) (bound : Option UInt64) : String :=
  match bound with
  | some n => keyword ++ toString n.toNat
  | none => ""

/-- Sort keys and bounds. -/
def pagingText (order : List SortKey) (limit offset : Option UInt64) : String :=
  orderText order ++ boundText " LIMIT " limit ++ boundText " OFFSET " offset

/-- A text in parentheses. -/
def parensText (inside : String) : String :=
  "(" ++ inside ++ ")"

/-- A condition as a clause of a statement, if the filter it is the text of has predicates. -/
def conditionText (keyword : String) (f : Filter) (condition : String) : String :=
  if f.terms.isEmpty then "" else " " ++ keyword ++ " " ++ condition

/-- The common tables before a statement. One that refers to itself makes the whole clause
recursive. -/
def tablesText (recursive : Bool) (tables : List String) : String :=
  if tables.isEmpty then ""
  else (if recursive then "WITH RECURSIVE " else "WITH ") ++ ", ".intercalate tables ++ " "

end Select

/-! ## Filters and statements -/

mutual

/-- Writes a statement. -/
def Select.render : Select → Bindings → String × Bindings
  | { columns, source, joins, filter, groups, having, arms, order, limit, offset, defaultLimit,
      commonTables, .. }, b =>
    -- the bindings go through the clauses with values in the order in which these are written
    let (tables, b) := CommonTable.renderAll commonTables b
    let (origin, b) := source.render b
    let (condition, b) := filter.render b
    let (groupCondition, b) := having.render b
    let (union, b) := Arm.renderAll arms b
    (Select.tablesText (commonTables.any (·.recursive)) tables ++
      "SELECT " ++ Select.columnsText columns ++ " FROM " ++ origin ++ Select.joinsText joins ++
      Select.conditionText "WHERE" filter condition ++ Select.groupsText groups ++
      Select.conditionText "HAVING" having groupCondition ++ union ++
      Select.pagingText order (limit.or defaultLimit) offset, b)

/-- Writes a source. -/
def Source.render : Source → Bindings → String × Bindings
  | .table name, b => (name, b)
  | .query s name, b =>
    let (inner, b) := s.render b
    (Select.parensText inner ++ " AS " ++ name, b)

/-- Writes common tables, one text for each. -/
def CommonTable.renderAll : List CommonTable → Bindings → List String × Bindings
  | [], b => ([], b)
  | ⟨name, s, _⟩ :: ts, b =>
    let (inner, b) := s.render b
    let (tables, b) := CommonTable.renderAll ts b
    ((name ++ " AS " ++ Select.parensText inner) :: tables, b)

/-- Writes the arms of a union. -/
def Arm.renderAll : List Arm → Bindings → String × Bindings
  | [], b => ("", b)
  | ⟨all, s⟩ :: arms, b =>
    let (inner, b) := s.render b
    let (union, b) := Arm.renderAll arms b
    ((if all then " UNION ALL " else " UNION ") ++
      (if s.needsParens then Select.parensText inner else inner) ++ union, b)

/-- Writes a filter without a keyword. -/
def Filter.render : Filter → Bindings → String × Bindings
  | ⟨[]⟩, b => ("", b)
  | ⟨⟨_, p⟩ :: ts⟩, b =>
    let (first, b) := p.render b
    let (others, b) := Term.renderAll ts b
    (first ++ others, b)

/-- Writes the terms after the first, each after its connective. -/
def Term.renderAll : List Term → Bindings → String × Bindings
  | [], b => ("", b)
  | ⟨c, p⟩ :: ts, b =>
    let (first, b) := p.render b
    let (others, b) := Term.renderAll ts b
    (" " ++ c.keyword ++ " " ++ first ++ others, b)

/-- Writes a predicate. To be in an empty list is false, and not to be in it is true; both are
written without the column. -/
def Predicate.render : Predicate → Bindings → String × Bindings
  | .compare column op v, b =>
    let (token, b) := b.bind v
    (column ++ " " ++ op.symbol ++ " " ++ token, b)
  | .compareQuery column op s, b =>
    let (inner, b) := s.render b
    (column ++ " " ++ op.symbol ++ " " ++ Select.parensText inner, b)
  | .isNull column negated, b => (column ++ (if negated then " IS NOT NULL" else " IS NULL"), b)
  | .inList column members negated, b =>
    if members.isEmpty then (if negated then "1=1" else "1=0", b)
    else
      let (tokens, b) := b.bindAll members
      (column ++ (if negated then " NOT IN " else " IN ") ++
        Select.parensText (", ".intercalate tokens), b)
  | .inQuery column s negated, b =>
    let (inner, b) := s.render b
    (column ++ (if negated then " NOT IN " else " IN ") ++ Select.parensText inner, b)
  | .between column low high, b =>
    -- the lower bound is bound first, as it is written first
    let (lowToken, b) := b.bind low
    let (highToken, b) := b.bind high
    (column ++ " BETWEEN " ++ lowToken ++ " AND " ++ highToken, b)
  | .existence s, b =>
    let (inner, b) := s.render b
    ("EXISTS " ++ Select.parensText inner, b)
  | .raw sql, b => (sql, b)
  | .group inside, b =>
    let (condition, b) := inside.render b
    (Select.parensText condition, b)

end

/-- Writes a filter after a keyword. Without predicates nothing is written. -/
def Filter.renderClause (keyword : String) (f : Filter) (b : Bindings) : String × Bindings :=
  if f.terms.isEmpty then ("", b)
  else
    let (condition, b) := f.render b
    (keyword ++ " " ++ condition, b)

end BoundSelect
