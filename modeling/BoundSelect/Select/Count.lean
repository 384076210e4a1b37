import BoundSelect.Select.Clauses

/-!
# Counting rows

The statement that counts the rows of another keeps its dialect and its common tables and drops its
sort keys and bounds. Groups and unions have to be formed before their rows can be counted, so such
a statement becomes the source of the count.
-/

set_option autoImplicit false

namespace BoundSelect.Select

/-- The column that counts rows. -/
def countColumn : String := "COUNT(*)"

/-- The statement with all its rows in any order. -/
def unpaged (s : Select) : Select :=
  { s with order := [], limit := none, offset := none, defaultLimit := none }

/-- Whether the rows are those of the source, so that they can be counted in place. -/
def isFlat (s : Select) : Bool :=
  s.groups.isEmpty && s.having.isEmpty && s.arms.isEmpty

/-- The columns that a statement keeps as the source of a count. The rows of a union depend on its
columns, and a filter of groups may name one; otherwise a constant does. -/
def countedColumns (s : Select) : List String :=
  if !s.arms.isEmpty || (!s.having.isEmpty && !s.columns.isEmpty) then s.columns else ["1"]

/-- The statement that counts the rows. -/
def count (s : Select) : Select :=
  if s.isFlat then { s.unpaged with columns := [countColumn] }
  else
    { ofTable s.dialect "" none with
      columns := [countColumn]
      -- the common tables stay outside, where the source can still use them
      source := .query { s.unpaged with columns := s.countedColumns, commonTables := [] } "t"
      commonTables := s.commonTables }

end BoundSelect.Select
