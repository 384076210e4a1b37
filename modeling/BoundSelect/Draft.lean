import BoundSelect.Select.Count

/-!
# Drafts

A draft is a statement as its author gives it: where to start, and the steps to take from there. The
statements inside it are drafts themselves, and each is made just before the step that needs it. A
draft that fails anywhere makes no statement, and its fault is that of the first step that failed.
-/

set_option autoImplicit false

namespace BoundSelect

mutual

/-- A statement to be made. -/
inductive Draft where
  /-- Starts from a table. -/
  | table (dialect : Dialect) (defaultLimit : Option UInt64) (name : String) (steps : List Step)
  /-- Starts from the rows of another statement. -/
  | query (inner : Draft) (name : String) (steps : List Step)

/-- A change to a statement. -/
inductive Step where
  | dialect (d : Dialect)
  | columns (names : List String)
  | column (name : String)
  | selectFrom (inner : Draft) (name : String)
  | join (j : Join)
  | filter (step : FilterStep)
  | having (step : FilterStep)
  | groupBy (column : String)
  | groupByAll (columns : List String)
  | arm (all : Bool) (inner : Draft)
  | orderBy (key : SortKey)
  | limit (n : UInt64)
  | offset (n : UInt64)
  | page (page size : UInt64)
  | commonTable (recursive : Bool) (name : String) (inner : Draft)
  | count

/-- A change to a filter. -/
inductive FilterStep where
  | equals (c : Connective) (column : String) (v : Value)
  | equalsOption (column : String) (v : Option Value)
  | scalar (op : Scalar) (column : String) (v : Value)
  | comparison (c : Connective) (column op : String) (operand : Operand Draft)
  | notNull (column : String)
  | inList (column : String) (members : List Value) (negated : Bool)
  | between (column : String) (low high : Value)
  | existence (inner : Draft)
  | raw (c : Connective) (sql : String)
  | entries (es : List (String × Entry Draft))
  | group (c : Connective) (steps : List FilterStep)
  /-- Takes a step and passes over its failure. -/
  | attempt (step : FilterStep)

end

/-! ## Steps in terms of others -/

namespace Step

/-- Asks that a column is among the rows of a statement. -/
def inQuery (column : String) (inner : Draft) : Step :=
  .filter (.comparison .and column "IN" (.query inner))

/-- Asks that a column is null. -/
def isNull (column : String) : Step :=
  .filter (.equals .and column .null)

/-- Asks that a column is not null. -/
def notNull (column : String) : Step :=
  .filter (.notNull column)

end Step

/-- A draft with further steps after its own. -/
def Draft.andThen (more : List Step) : Draft → Draft
  | .table dialect defaultLimit name steps => .table dialect defaultLimit name (steps ++ more)
  | .query inner name steps => .query inner name (steps ++ more)

/-! ## Making a statement -/

mutual

/-- The statement of a draft. -/
def Draft.make : Draft → Except Fault Select
  | .table dialect defaultLimit name steps =>
    Step.runAll steps (Select.ofTable dialect name defaultLimit)
  | .query inner name steps => do
    let inner ← inner.make
    let s ← Select.ofQuery inner name
    Step.runAll steps s

/-- Takes steps one after the other, up to the first that fails. -/
def Step.runAll : List Step → Select → Except Fault Select
  | [], s => .ok s
  | step :: steps, s => do
    let s ← step.run s
    Step.runAll steps s

/-- Takes one step. -/
def Step.run : Step → Select → Except Fault Select
  | .dialect d, s => .ok (s.withDialect d)
  | .columns names, s => s.selectColumns names
  | .column name, s => s.addColumn name
  | .selectFrom inner name, s => do
    let inner ← inner.make
    s.selectFrom inner name
  | .join j, s => .ok (s.addJoin j)
  | .filter step, s => s.editFilter step.run
  | .having step, s => s.editHaving step.run
  | .groupBy column, s => s.groupBy column
  | .groupByAll columns, s => s.groupByAll columns
  | .arm all inner, s => do
    let inner ← inner.make
    return s.addArm all inner
  | .orderBy key, s => .ok (s.orderBy key)
  | .limit n, s => .ok (s.setLimit n)
  | .offset n, s => .ok (s.setOffset n)
  | .page page size, s => .ok (s.paginate page size)
  | .commonTable recursive name inner, s => do
    let inner ← inner.make
    s.addCommonTable recursive name inner
  | .count, s => .ok s.count

/-- Takes one step on a filter. The statements in it are made first; if one cannot be made, the
filter stays as it is. -/
def FilterStep.run : FilterStep → Filter.Edit
  | .equals c column v => Filter.addEquals c column v
  | .equalsOption column v => Filter.addEqualsOption column v
  | .scalar op column v => Filter.addScalar op column v
  | .comparison c column op operand => fun f =>
    -- the operator is not looked at before the operand is made
    match Draft.makeOperand operand with
    | .ok operand => Filter.addComparison c column op operand f
    | .error e => (.error e, f)
  | .notNull column => Filter.add .and (.isNull column true)
  | .inList column members negated => Filter.add .and (.inList column members negated)
  | .between column low high => Filter.add .and (.between column low high)
  | .existence inner => Filter.addChecked .and (inner.make.map .existence)
  | .raw c sql => Filter.add c (.raw sql)
  | .entries es => fun f =>
    match Draft.makeEntries es with
    | .ok es => Filter.addEntries es f
    | .error e => (.error e, f)
  | .group c steps => Filter.addGroup c (FilterStep.runAll steps)
  | .attempt step => Filter.Edit.attempt step.run

/-- Takes steps on a filter one after the other, up to the first that fails. -/
def FilterStep.runAll : List FilterStep → Filter.Edit
  | [] => fun f => (.ok (), f)
  | step :: steps => Filter.Edit.andThen step.run (FilterStep.runAll steps)

/-- Makes the statement of an operand. -/
def Draft.makeOperand : Operand Draft → Except Fault (Operand Select)
  | .value v => .ok (.value v)
  | .list vs => .ok (.list vs)
  | .query d => d.make.map .query

/-- Makes the statements of entries, in order. -/
def Draft.makeEntries :
    List (String × Entry Draft) → Except Fault (List (String × Entry Select))
  | [] => .ok []
  | (column, .equals v) :: es => do
    let es ← Draft.makeEntries es
    return (column, .equals v) :: es
  | (column, .isNull) :: es => do
    let es ← Draft.makeEntries es
    return (column, .isNull) :: es
  | (column, .compare op operand) :: es => do
    -- all statements of the entries are made before the first entry is added
    let operand ← Draft.makeOperand operand
    let es ← Draft.makeEntries es
    return (column, .compare op operand) :: es

end

end BoundSelect
