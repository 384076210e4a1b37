import BoundSelect.Select

/-!
# Building filters

Predicates are added to the end of a filter. An edit that can fail also says what the filter is
afterwards: a list of entries is applied one by one, and those before the one that failed stay. A
group is built on a filter of its own and is added only when that succeeded and left something.
-/

set_option autoImplicit false

namespace BoundSelect

namespace Predicate

/-- A column equals a value, or is null when the value is. -/
def equals (column : String) (v : Value) : Predicate :=
  if v.isNull then .isNull column false else .compare column .equal v

end Predicate

namespace Operand

variable {σ : Type}

/-- The members of a list. An array counts as a list. -/
def members? : Operand σ → Option (List Value)
  | .list vs | .value (.array vs) => some vs
  | _ => none

end Operand

namespace Predicate

/-- The comparison of a column with an operand, if the operand is of the shape that the operator
takes. A comparison with null stays a comparison. -/
def ofOperand? (column : String) (op : Operator) (operand : Operand Select) : Option Predicate :=
  match op.shape, operand with
  | .single, .value v => some (.compare column op v)
  | .single, .query s => some (.compareQuery column op s)
  | .single, .list _ => none
  | .list, .query s => some (.inQuery column s (op = .nonMember))
  -- how many members there are does not matter, so the list may be empty
  | .list, operand => operand.members?.map fun vs => .inList column vs (op = .nonMember)
  | .pair, operand =>
    -- a range is between values, never between statements
    match operand.members? with
    | some [low, high] => some (.between column low high)
    | _ => none
  | .query, .query s => some (.existence s)
  | .query, _ => none

/-- The comparison that a text names the operator of. -/
def comparison (column op : String) (operand : Operand Select) : Except Fault Predicate := do
  let op ← Operator.parse op
  match ofOperand? column op operand with
  | some p => .ok p
  | none => .error (.unsuitedOperand op.symbol op.shape.words)

end Predicate

/-- The comparisons with a single value that have a step of their own. -/
inductive Scalar where
  | different
  | greater
  | atLeast
  | less
  | atMost
  | like
  | likeAnyCase
  deriving DecidableEq

/-- The operator of such a comparison. -/
def Scalar.operator : Scalar → Operator
  | .different => .different
  | .greater => .greater
  | .atLeast => .atLeast
  | .less => .less
  | .atMost => .atMost
  | .like => .like
  | .likeAnyCase => .likeAnyCase

namespace Filter

/-- A change to a filter, which may fail, with the filter after it. -/
abbrev Edit := Filter → Except Fault Unit × Filter

/-- One edit after another; the second is made only if the first succeeds. -/
def Edit.andThen (first second : Edit) : Edit := fun f =>
  match first f with
  | (.ok (), f) => second f
  | (.error e, f) => (.error e, f)

/-- An edit whose failure is passed over. What it did before it failed stays. -/
def Edit.attempt (edit : Edit) : Edit := fun f => (.ok (), (edit f).2)

/-- The filter without predicates. -/
def empty : Filter := ⟨[]⟩

/-- Whether there are no predicates. -/
def isEmpty (f : Filter) : Bool := f.terms.isEmpty

/-- The number of predicates; a group counts once. -/
def length (f : Filter) : Nat := f.terms.length

/-- Adds a predicate at the end. -/
def push (c : Connective) (p : Predicate) (f : Filter) : Filter := ⟨f.terms ++ [⟨c, p⟩]⟩

/-- Adds a predicate, which always succeeds. -/
def add (c : Connective) (p : Predicate) : Edit := fun f => (.ok (), f.push c p)

/-- Adds a predicate that may not exist; then the filter stays as it is. -/
def addChecked (c : Connective) (p : Except Fault Predicate) : Edit := fun f =>
  match p with
  | .ok p => (.ok (), f.push c p)
  | .error e => (.error e, f)

/-- Adds that a column equals a value, or is null when the value is. -/
def addEquals (c : Connective) (column : String) (v : Value) : Edit :=
  add c (.equals column v)

/-- Adds that a column equals a value, if there is one. -/
def addEqualsOption (column : String) : Option Value → Edit
  | some v => addEquals .and column v
  | none => fun f => (.ok (), f)

/-- Adds a comparison with a single value. -/
def addScalar (op : Scalar) (column : String) (v : Value) : Edit :=
  add .and (.compare column op.operator v)

/-- Adds a comparison whose operator a text names. -/
def addComparison (c : Connective) (column op : String) (operand : Operand Select) : Edit :=
  addChecked c (Predicate.comparison column op operand)

/-- Adds what one entry asks of its column. -/
def addEntry (column : String) : Entry Select → Edit
  | .equals v => addEquals .and column v
  | .isNull => addEquals .and column .null
  | .compare op operand => addComparison .and column op operand

/-- Adds what the entries ask of their columns, one after the other, up to the first that fails. -/
def addEntries : List (String × Entry Select) → Edit
  | [] => fun f => (.ok (), f)
  | (column, e) :: es => Edit.andThen (addEntry column e) (addEntries es)

/-- Adds the group that an edit makes of the empty filter. If the edit fails, or leaves the group
empty, the filter stays as it is. -/
def addGroup (c : Connective) (configure : Edit) : Edit := fun f =>
  match configure empty with
  | (.ok (), g) => (.ok (), if g.isEmpty then f else f.push c (.group g))
  -- what was built of the group is dropped with it
  | (.error e, _) => (.error e, f)

end Filter

end BoundSelect
