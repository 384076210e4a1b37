import BoundSelect.Filter
import BoundSelect.Text.Blank

/-!
# Building statements

Each function here sets one clause of a statement and leaves the others alone. Names of columns to
select and to group by, of common tables and of subqueries are checked when they are given: they
must say something, and must not contain the character that ends texts in a database.
-/

set_option autoImplicit false

namespace BoundSelect

/-! ## Checked names -/

/-- What a name is for. -/
inductive NameUse where
  | column
  | subquery
  | group
  | commonTable
  deriving DecidableEq

/-- What a name is for, in words. -/
def NameUse.noun : NameUse → String
  | .column => "select column"
  | .subquery => "subquery alias"
  | .group => "group by column"
  | .commonTable => "CTE name"

/-- Checks a name: it must have a character that is not blank, and none with code point zero. -/
def NameUse.check (use : NameUse) (name : String) : Except Fault Unit :=
  if name.toList.all Text.isBlank then
    .error (.malformed (use.noun ++ " must be a non-empty name"))
  else if '\x00' ∈ name.toList then
    .error (.malformed (use.noun ++ " cannot contain NUL character"))
  else .ok ()

namespace Select

/-! ## Fresh statements -/

/-- All columns and rows of a table. -/
def ofTable (dialect : Dialect) (table : String) (defaultLimit : Option UInt64) : Select where
  dialect := dialect
  columns := []
  source := .table table
  joins := []
  filter := .empty
  groups := []
  having := .empty
  arms := []
  order := []
  limit := none
  offset := none
  defaultLimit := defaultLimit
  commonTables := []

/-- Selects from another statement, which gets a name. -/
def selectFrom (s inner : Select) (name : String) : Except Fault Select := do
  NameUse.subquery.check name
  return { s with source := .query inner name }

/-- All columns and rows of another statement, in its dialect. -/
def ofQuery (inner : Select) (name : String) : Except Fault Select :=
  (ofTable inner.dialect "" none).selectFrom inner name

/-! ## Columns, source and joins -/

/-- Changes the dialect. Only the dialect of the outermost statement matters when it is written. -/
def withDialect (s : Select) (d : Dialect) : Select :=
  { s with dialect := d }

/-- Replaces the columns. -/
def selectColumns (s : Select) (columns : List String) : Except Fault Select := do
  columns.forM (NameUse.column.check ·)
  return { s with columns := columns }

/-- Adds a column. -/
def addColumn (s : Select) (column : String) : Except Fault Select := do
  NameUse.column.check column
  return { s with columns := s.columns ++ [column] }

/-- Joins a table. -/
def addJoin (s : Select) (j : Join) : Select :=
  { s with joins := s.joins ++ [j] }

/-! ## Filters and groups -/

/-- Edits the filter of the rows. -/
def editFilter (s : Select) (edit : Filter.Edit) : Except Fault Select :=
  match edit s.filter with
  | (.ok (), f) => .ok { s with filter := f }
  | (.error e, _) => .error e

/-- Edits the filter of the groups. -/
def editHaving (s : Select) (edit : Filter.Edit) : Except Fault Select :=
  match edit s.having with
  | (.ok (), f) => .ok { s with having := f }
  | (.error e, _) => .error e

/-- Adds a column to group by. -/
def groupBy (s : Select) (column : String) : Except Fault Select := do
  NameUse.group.check column
  return { s with groups := s.groups ++ [column] }

/-- Adds columns to group by, one after the other. -/
def groupByAll (s : Select) (columns : List String) : Except Fault Select :=
  columns.foldlM groupBy s

/-! ## Unions, sort keys and bounds -/

/-- Adds the rows of another statement, all of them or each once. -/
def addArm (s : Select) (all : Bool) (arm : Select) : Select :=
  { s with arms := s.arms ++ [⟨all, arm⟩] }

/-- Adds a column to sort by, after those already there. -/
def orderBy (s : Select) (key : SortKey) : Select :=
  { s with order := s.order ++ [key] }

/-- Bounds the number of rows. -/
def setLimit (s : Select) (n : UInt64) : Select :=
  { s with limit := some n }

/-- Skips rows. -/
def setOffset (s : Select) (n : UInt64) : Select :=
  { s with offset := some n }

/-- The product of two words, or the greatest word if the product is larger. -/
def cappedMul (m n : UInt64) : UInt64 :=
  UInt64.ofNat (min (m.toNat * n.toNat) (UInt64.size - 1))

/-- Bounds the rows to one page. Pages count from one, and a page has at least one row; zero means
one for both. -/
def paginate (s : Select) (page size : UInt64) : Select :=
  let page := max page 1
  let size := max size 1
  { s with limit := some size, offset := some (cappedMul (page - 1) size) }

/-! ## Common tables -/

/-- Gives a statement a name before the others. -/
def addCommonTable (s : Select) (recursive : Bool) (name : String) (body : Select) :
    Except Fault Select := do
  NameUse.commonTable.check name
  return { s with commonTables := s.commonTables ++ [⟨name, body, recursive⟩] }

end Select

end BoundSelect
