import BoundSelect.Fragment
import BoundSelect.Select.Render

/-!
# The fragment of a statement

What is written of a statement, before anything in it is numbered: the texts of its clauses, in the
order in which they are written, with its values in their places. No dialect has a part in it.
-/

set_option autoImplicit false

namespace BoundSelect

namespace Fragment

/-- A fragment in parentheses. -/
def parens (f : Fragment) : Fragment :=
  .text "(" :: f ++ [.text ")"]

/-- A fragment in parentheses where they are needed. -/
def parensIf (needed : Bool) (f : Fragment) : Fragment :=
  if needed then parens f else f

/-- A keyword before a fragment that is not empty. -/
def clause (keyword : String) : Fragment → Fragment
  | [] => []
  | p :: f => .text (keyword ++ " ") :: p :: f

/-- A space before a fragment that is not empty. -/
def spaced : Fragment → Fragment
  | [] => []
  | p :: f => .text " " :: p :: f

/-- The common tables before a statement. One that refers to itself makes the whole clause
recursive. -/
def withClause (recursive : Bool) (tables : List Fragment) : Fragment :=
  if tables.isEmpty then []
  else .text (if recursive then "WITH RECURSIVE " else "WITH ") :: join ", " tables ++ [.text " "]

/-- A value in a list of values. -/
def ofValue (v : Value) : Fragment := [.value v]

end Fragment

/-! ## Filters and statements -/

mutual

/-- The fragment of a statement. -/
def Select.fragment : Select → Fragment
  | { columns, source, joins, filter, groups, having, arms, order, limit, offset, defaultLimit,
      commonTables, .. } =>
    Fragment.withClause (commonTables.any (·.recursive)) (CommonTable.fragments commonTables) ++
      .text "SELECT " :: .text (Select.columnsText columns) :: .text " FROM " ::
        (source.fragment ++ .text (Select.joinsText joins) ::
          ((filter.fragment.clause "WHERE").spaced ++ .text (Select.groupsText groups) ::
            ((having.fragment.clause "HAVING").spaced ++ Arm.fragments arms))) ++
      [.text (Select.pagingText order (limit.or defaultLimit) offset)]

/-- The fragment of a source. -/
def Source.fragment : Source → Fragment
  | .table name => [.text name]
  | .query s name => Fragment.parens s.fragment ++ [.text (" AS " ++ name)]

/-- The fragments of common tables, one for each. -/
def CommonTable.fragments : List CommonTable → List Fragment
  | [] => []
  | ⟨name, s, _⟩ :: ts =>
    (.text (name ++ " AS ") :: Fragment.parens s.fragment) :: CommonTable.fragments ts

/-- The fragment of the arms of a union. -/
def Arm.fragments : List Arm → Fragment
  | [] => []
  | ⟨all, s⟩ :: arms =>
    .text (if all then " UNION ALL " else " UNION ") ::
      Fragment.parensIf s.needsParens s.fragment ++ Arm.fragments arms

/-- The fragment of a filter without a keyword. -/
def Filter.fragment : Filter → Fragment
  | ⟨[]⟩ => []
  | ⟨⟨_, p⟩ :: ts⟩ => p.fragment ++ Term.fragments ts

/-- The fragment of the terms after the first, each after its connective. -/
def Term.fragments : List Term → Fragment
  | [] => []
  | ⟨c, p⟩ :: ts => .text (" " ++ c.keyword ++ " ") :: p.fragment ++ Term.fragments ts

/-- The fragment of a predicate. To be in an empty list is false, and not to be in it is true; both
are written without the column. -/
def Predicate.fragment : Predicate → Fragment
  | .compare column op v => [.text (column ++ " " ++ op.symbol ++ " "), .value v]
  | .compareQuery column op s =>
    .text (column ++ " " ++ op.symbol ++ " ") :: Fragment.parens s.fragment
  | .isNull column negated => [.text (column ++ if negated then " IS NOT NULL" else " IS NULL")]
  | .inList _ [] negated => [.text (if negated then "1=1" else "1=0")]
  | .inList column (v :: vs) negated =>
    .text (column ++ if negated then " NOT IN " else " IN ") ::
      Fragment.parens (Fragment.join ", " (Fragment.ofValue v :: vs.map Fragment.ofValue))
  | .inQuery column s negated =>
    .text (column ++ if negated then " NOT IN " else " IN ") :: Fragment.parens s.fragment
  | .between column low high =>
    [.text (column ++ " BETWEEN "), .value low, .text " AND ", .value high]
  | .existence s => .text "EXISTS " :: Fragment.parens s.fragment
  | .raw sql => [.text sql]
  | .group inside => Fragment.parens inside.fragment

end

/-- The fragment of a filter after a keyword. A predicate always has a fragment, so only the empty
filter makes no clause. -/
def Filter.clause (keyword : String) (f : Filter) : Fragment :=
  f.fragment.clause keyword

/-! ## The clauses of a statement, in order -/

namespace Select

/-- The common tables of a statement. -/
def tables (s : Select) : Fragment :=
  Fragment.withClause (s.commonTables.any (·.recursive)) (CommonTable.fragments s.commonTables)

/-- All from the source to the last arm of the union. -/
def body (s : Select) : Fragment :=
  .text " FROM " :: (s.source.fragment ++ .text (joinsText s.joins) ::
    ((s.filter.fragment.clause "WHERE").spaced ++ .text (groupsText s.groups) ::
      ((s.having.fragment.clause "HAVING").spaced ++ Arm.fragments s.arms)))

/-- The limit in effect. -/
def effectiveLimit (s : Select) : Option UInt64 :=
  s.limit.or s.defaultLimit

/-- A statement is its common tables, its columns, its body and its paging. -/
theorem fragment_eq (s : Select) :
    s.fragment = s.tables ++ .text "SELECT " :: .text (columnsText s.columns) :: s.body ++
      [.text (pagingText s.order s.effectiveLimit s.offset)] := by
  cases s
  rfl

end Select

end BoundSelect
