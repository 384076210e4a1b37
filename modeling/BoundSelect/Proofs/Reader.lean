import BoundSelect.Proofs.Tokens

/-!
# Reading statements back

A reader of the tokens of statements. It looks at one word at a time: each clause is known by its
first word, and where that word does not stand the clause is absent. An arm of a union is read up to
its own parentheses if it has them; otherwise it is read plainly, as a statement that leaves unions,
sort keys and bounds to the statement around it.

Readers of statements, filters and predicates call each other and are given the number of calls
that may be nested. Everything else takes the readers it needs as arguments.
-/

set_option autoImplicit false

namespace BoundSelect

/-- Takes something from the front of tokens. -/
abbrev Reader (α : Type) := List Token → Option (α × List Token)

namespace Reader

section Combinators

variable {α β : Type}

/-- Changes what is read. -/
def map (g : α → β) (read : Reader α) : Reader β := fun ts =>
  (read ts).map fun r => (g r.1, r.2)

/-- A word. -/
def word : Reader String
  | .word w :: ts => some (w, ts)
  | _ => none

/-- A value. -/
def value : Reader Value
  | .value v :: ts => some (v, ts)
  | _ => none

/-- What comes after a word, if it stands there. -/
def after (w : String) : List Token → Option (List Token)
  | .word v :: ts => if v = w then some ts else none
  | _ => none

/-- A clause that its first word tells, or what stands for it where it is absent. -/
def clause (w : String) (absent : α) (read : Reader α) : Reader α := fun ts =>
  match after w ts with
  | some ts => read ts
  | none => some (absent, ts)

/-- Something in parentheses. -/
def parenthesised (read : Reader α) : Reader α
  | .opening :: ts =>
    match read ts with
    | some (a, .closing :: ts) => some (a, ts)
    | _ => none
  | _ => none

/-- One or more items with commas between them, at most as many as given. -/
def separated (read : Reader α) : Nat → Reader (List α)
  | 0, _ => none
  | n + 1, ts =>
    match read ts with
    | some (a, .comma :: ts) => (separated read n).map (a :: ·) ts
    | some (a, ts) => some ([a], ts)
    | none => none

/-- Items up to the first place where there is none, fewer than the given number. -/
def many (read : Reader α) : Nat → Reader (List α)
  | 0, _ => none
  | n + 1, ts =>
    match read ts with
    | some (a, ts) => (many read n).map (a :: ·) ts
    | none => some ([], ts)

end Combinators

/-! ## Clauses without statements -/

/-- The columns of a statement; a star stands for none. -/
def columns (n : Nat) : Reader (List String) := fun ts =>
  match after "*" ts with
  | some ts => some ([], ts)
  | none => separated word n ts

/-- A join. -/
def join : Reader Join
  | .word k :: .word _ :: .word table :: .word _ :: .word left :: .word _ :: .word right :: ts =>
    -- the words that every join has (`JOIN`, `ON`, `=`) are passed over without a look
    ([.inner, .left, .right].find? fun kind : JoinType => kind.word = k).map fun kind =>
      (⟨kind, table, left, right⟩, ts)
  | _ => none

/-- Columns to group by, behind the first word of their clause. -/
def groups (n : Nat) : Reader (List String) := fun ts => separated word n ts.tail

/-- A sort key. -/
def sortKey : Reader SortKey
  | .word column :: .word d :: ts =>
    some (⟨column, if d = "DESC" then .descending else .ascending⟩, ts)
  | _ => none

/-- Sort keys, behind the first word of their clause. -/
def order (n : Nat) : Reader (List SortKey) := fun ts => separated sortKey n ts.tail

/-- A bound, behind its keyword. -/
def bound : Reader (Option UInt64)
  | .word w :: ts => some (some (UInt64.ofNat (Nat.ofDigitChars 10 w.toList 0)), ts)
  | _ => none

/-! ## Clauses with statements -/

section Statements

variable (query : Reader Select) (n : Nat)

/-- A source. -/
def source : Reader Source
  | .opening :: ts =>
    match parenthesised query (.opening :: ts) with
    | some (s, .word _ :: .word name :: ts) => some (.query s name, ts)
    | _ => none
  | .word name :: ts => some (.table name, ts)
  | _ => none

/-- A common table. -/
def commonTable (recursive : Bool) : Reader CommonTable
  | .word name :: .word _ :: ts =>
    (parenthesised query).map (fun s => ⟨name, s, recursive⟩) ts
  | _ => none

/-- Common tables, behind the first word of their clause. Its second word makes them recursive. -/
def commonTables : Reader (List CommonTable) := fun ts =>
  match after "RECURSIVE" ts with
  | some ts => separated (commonTable query true) n ts
  | none => separated (commonTable query false) n ts

/-- The statement of an arm, in parentheses or plainly. -/
def armStatement (plainQuery : Reader Select) : Reader Select
  | .opening :: ts => parenthesised query (.opening :: ts)
  | ts => plainQuery ts

/-- An arm of a union. -/
def arm (plainQuery : Reader Select) : Reader Arm := fun ts =>
  match after "UNION" ts with
  | some ts =>
    match after "ALL" ts with
    | some ts => (armStatement query plainQuery).map (⟨true, ·⟩) ts
    | none => (armStatement query plainQuery).map (⟨false, ·⟩) ts
  | none => none

/-- A term behind the first, with its connective before it. -/
def term (predicate : Reader Predicate) : Reader Term := fun ts =>
  match after "AND" ts with
  | some ts => predicate.map (⟨.and, ·⟩) ts
  | none =>
    match after "OR" ts with
    | some ts => predicate.map (⟨.or, ·⟩) ts
    | none => none

/-- What stands behind the word `IS`. -/
def nullity (column : String) : Reader Predicate := fun ts =>
  match after "NOT" ts with
  | some ts => some (.isNull column true, ts.tail)
  | none => some (.isNull column false, ts.tail)

/-- What stands behind the word `IN`: values, or a statement. -/
def members (column : String) (negated : Bool) : Reader Predicate
  | .opening :: .value v :: ts =>
    -- one token more tells values from a statement, which never begins with a value
    (parenthesised (separated value n)).map (.inList column · negated) (.opening :: .value v :: ts)
  | ts => (parenthesised query).map (.inQuery column · negated) ts

/-- What stands behind the word `BETWEEN`. -/
def range (column : String) : Reader Predicate
  | .value low :: .word _ :: .value high :: ts => some (.between column low high, ts)
  | _ => none

/-- What stands behind the operator of a comparison: a value, or a statement. -/
def operand (column : String) (op : Operator) : Reader Predicate
  | .value v :: ts => some (.compare column op v, ts)
  | ts => (parenthesised query).map (.compareQuery column op ·) ts

/-- The operator of a comparison with a single value that is spelled so. -/
def operator? (w : String) : Option Operator :=
  Operator.all.find? fun op => op.shape = .single && op.symbol = w

/-- What a column is asked for. Where none of the words for it follows, the column was no column but
a condition of its own. -/
def condition (column : String) : Reader Predicate
  | .word w :: ts =>
    if w = "IS" then nullity column ts
    else if w = "IN" then members query n column false ts
    else if w = "NOT" then members query n column true ts.tail
    else if w = "BETWEEN" then range column ts
    else
      match operator? w with
      | some op => operand query column op ts
      -- the word belongs to what follows, so it is left there
      | none => some (.raw column, .word w :: ts)
  | ts => some (.raw column, ts)

/-- A statement up to its filter of groups. -/
def head (filter : Reader Filter) : Reader Select := fun ts => do
  let (commonTables, ts) ← clause "WITH" [] (commonTables query n) ts
  let (columns, ts) ← columns n ts.tail
  let (source, ts) ← source query ts.tail
  let (joins, ts) ← many join n ts
  let (filters, ts) ← clause "WHERE" ⟨[]⟩ filter ts
  let (groups, ts) ← clause "GROUP" [] (groups n) ts
  let (having, ts) ← clause "HAVING" ⟨[]⟩ filter ts
  -- tokens tell neither the dialect nor a default limit from a limit
  some ({ dialect := .postgres, columns := columns, source := source, joins := joins,
          filter := filters, groups := groups, having := having, arms := [], order := [],
          limit := none, offset := none, defaultLimit := none, commonTables := commonTables }, ts)

/-- The unions, sort keys and bounds of a statement. -/
def tail (plainQuery : Reader Select) (s : Select) : Reader Select := fun ts => do
  let (arms, ts) ← many (arm query plainQuery) n ts
  let (order, ts) ← clause "ORDER" [] (order n) ts
  let (limit, ts) ← clause "LIMIT" none bound ts
  let (offset, ts) ← clause "OFFSET" none bound ts
  some ({ s with arms := arms, order := order, limit := limit, offset := offset }, ts)

end Statements

end Reader

/-! ## Statements and filters -/

mutual

/-- Reads a statement, up to its unions, sort keys and bounds if it stands plainly. -/
def Select.read : Nat → Bool → Reader Select
  | 0, _, _ => none
  | n + 1, plain, ts => do
    let (s, ts) ← Reader.head (Select.read n false) n (Filter.read n) ts
    if plain then some (s, ts) else Reader.tail (Select.read n false) n (Select.read n true) s ts

/-- Reads a filter. -/
def Filter.read : Nat → Reader Filter
  | 0, _ => none
  | n + 1, ts => do
    let (p, ts) ← Predicate.read n ts
    let (others, ts) ← Reader.many (Reader.term (Predicate.read n)) n ts
    some (⟨⟨.and, p⟩ :: others⟩, ts)

/-- Reads a predicate. -/
def Predicate.read : Nat → Reader Predicate
  | 0, _ => none
  | n + 1, ts =>
    match ts with
    | .opening :: ts =>
      (Reader.parenthesised (Filter.read n)).map .group (.opening :: ts)
    | .word w :: ts =>
      if w = "EXISTS" then
        (Reader.parenthesised (Select.read n false)).map .existence ts
      -- an empty list leaves a constant and no column
      else if w = "1=1" then some (.inList "" [] true, ts)
      else if w = "1=0" then some (.inList "" [] false, ts)
      else Reader.condition (Select.read n false) n w ts
    | _ => none

end

end BoundSelect
