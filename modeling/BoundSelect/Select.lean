import BoundSelect.Dialect
import BoundSelect.Operator
import BoundSelect.Value

/-!
# Statements

A SELECT statement as a tree. Its clauses are kept apart, so the order in which they were given
does not matter, and nothing in the tree is numbered. Statements can stand inside others: as common
tables, as the source, as operands of predicates, and as arms of a union.

A filter is an ordered list of predicates, each with the connective that joins it to those before
it; a group is a filter that stands as one predicate. Tables, columns and raw conditions are texts
and are written as they are.
-/

set_option autoImplicit false

namespace BoundSelect

/-! ## The parts that hold no statement -/

/-- How a predicate joins those before it. -/
inductive Connective where
  | and
  | or
  deriving DecidableEq

/-- The keyword of a connective. -/
def Connective.keyword : Connective → String
  | .and => "AND"
  | .or => "OR"

/-- Which rows without a partner a join keeps. -/
inductive JoinType where
  | inner
  | left
  | right
  deriving DecidableEq

/-- The keyword of a join. -/
def JoinType.keyword : JoinType → String
  | .inner => "INNER JOIN"
  | .left => "LEFT JOIN"
  | .right => "RIGHT JOIN"

/-- A table joined where two columns are equal. -/
structure Join where
  kind : JoinType
  table : String
  left : String
  right : String
  deriving DecidableEq

/-- The direction of a sort. -/
inductive Direction where
  | ascending
  | descending
  deriving DecidableEq, Inhabited

/-- The keyword of a direction. -/
def Direction.keyword : Direction → String
  | .ascending => "ASC"
  | .descending => "DESC"

/-- A column to sort by. -/
structure SortKey where
  column : String
  direction : Direction := .ascending
  deriving DecidableEq

/-! ## Statements and filters -/

mutual

/-- A SELECT statement. Without columns it selects all of them. The default limit counts as long as
no limit is set. -/
structure Select where
  dialect : Dialect
  columns : List String
  source : Source
  joins : List Join
  filter : Filter
  groups : List String
  having : Filter
  arms : List Arm
  order : List SortKey
  limit : Option UInt64
  offset : Option UInt64
  defaultLimit : Option UInt64
  commonTables : List CommonTable

/-- What a statement selects from. -/
inductive Source where
  | table (name : String)
  | query (s : Select) (name : String)

/-- A further statement whose rows a union adds, with repeated rows or without. -/
structure Arm where
  all : Bool
  statement : Select

/-- A statement with a name that the others can use as a table. -/
structure CommonTable where
  name : String
  statement : Select
  recursive : Bool

/-- Predicates in order. The connective of the first one joins nothing. -/
structure Filter where
  terms : List Term

/-- A predicate and how it joins those before it. -/
structure Term where
  connective : Connective
  predicate : Predicate

/-- A condition on a row. -/
inductive Predicate where
  | compare (column : String) (op : Operator) (v : Value)
  | compareQuery (column : String) (op : Operator) (s : Select)
  | isNull (column : String) (negated : Bool)
  | inList (column : String) (members : List Value) (negated : Bool)
  | inQuery (column : String) (s : Select) (negated : Bool)
  | between (column : String) (low high : Value)
  | existence (s : Select)
  | raw (sql : String)
  | group (inside : Filter)

end

/-! ## Operands -/

/-- The right-hand side of a comparison, over the statements `σ` that may stand there. -/
inductive Operand (σ : Type) where
  | value (v : Value)
  | list (vs : List Value)
  | query (s : σ)

/-- What one entry of a list of conditions asks of its column. -/
inductive Entry (σ : Type) where
  | equals (v : Value)
  | isNull
  | compare (op : String) (operand : Operand σ)

/-- A plain value asks for equality, and null for being null. -/
def Entry.ofValue {σ : Type} : Value → Entry σ
  | .null => .isNull
  | v => .equals v

end BoundSelect
