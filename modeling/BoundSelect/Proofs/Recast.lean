import BoundSelect.Draft
import BoundSelect.Select.Fragment

/-!
# Statements with other dialects and other values

`Select.recast` changes every dialect and every literal of a statement, at any depth, and nothing
else. What is written of the statement then changes in its values alone (`Select.fragment_recast`).
-/

set_option autoImplicit false

namespace BoundSelect

section Recast

variable (onDialect : Dialect → Dialect) (onValue : Value → Value)

mutual

/-- The statement with other dialects and values. -/
def Select.recast : Select → Select
  | { dialect, columns, source, joins, filter, groups, having, arms, order, limit, offset,
      defaultLimit, commonTables } =>
    { dialect := onDialect dialect
      columns := columns
      source := source.recast
      joins := joins
      filter := filter.recast
      groups := groups
      having := having.recast
      arms := Arm.recast arms
      order := order
      limit := limit
      offset := offset
      defaultLimit := defaultLimit
      commonTables := CommonTable.recast commonTables }

/-- The source with other dialects and values. -/
def Source.recast : Source → Source
  | .table name => .table name
  | .query s name => .query s.recast name

/-- The arms with other dialects and values. -/
def Arm.recast : List Arm → List Arm
  | [] => []
  | ⟨all, s⟩ :: arms => ⟨all, s.recast⟩ :: Arm.recast arms

/-- The common tables with other dialects and values. -/
def CommonTable.recast : List CommonTable → List CommonTable
  | [] => []
  | ⟨name, s, recursive⟩ :: ts => ⟨name, s.recast, recursive⟩ :: CommonTable.recast ts

/-- The filter with other dialects and values. -/
def Filter.recast : Filter → Filter
  | ⟨ts⟩ => ⟨Term.recast ts⟩

/-- The terms with other dialects and values. -/
def Term.recast : List Term → List Term
  | [] => []
  | ⟨c, p⟩ :: ts => ⟨c, p.recast⟩ :: Term.recast ts

/-- The predicate with other dialects and values. -/
def Predicate.recast : Predicate → Predicate
  | .compare column op v => .compare column op (onValue v)
  | .compareQuery column op s => .compareQuery column op s.recast
  | .isNull column negated => .isNull column negated
  | .inList column members negated => .inList column (members.map onValue) negated
  | .inQuery column s negated => .inQuery column s.recast negated
  | .between column low high => .between column (onValue low) (onValue high)
  | .existence s => .existence s.recast
  | .raw sql => .raw sql
  | .group inside => .group inside.recast

end

end Recast

/-! ## What is written of a recast statement -/

/-- The piece with another value. -/
def Piece.recast (onValue : Value → Value) : Piece → Piece
  | .text s => .text s
  | .value v => .value (onValue v)

namespace Fragment

variable (onValue : Value → Value)

/-- The fragment with other values. -/
def recast (f : Fragment) : Fragment := f.map (Piece.recast onValue)

@[simp] theorem recast_nil : recast onValue [] = [] := rfl

@[simp] theorem recast_text (s : String) (f : Fragment) :
    recast onValue (.text s :: f) = .text s :: recast onValue f := rfl

@[simp] theorem recast_value (v : Value) (f : Fragment) :
    recast onValue (.value v :: f) = .value (onValue v) :: recast onValue f := rfl

@[simp] theorem recast_append (f g : Fragment) :
    recast onValue (f ++ g) = recast onValue f ++ recast onValue g :=
  List.map_append

@[simp] theorem recast_parens (f : Fragment) :
    recast onValue (parens f) = parens (recast onValue f) := by
  simp [parens]

@[simp] theorem recast_parensIf (needed : Bool) (f : Fragment) :
    recast onValue (parensIf needed f) = parensIf needed (recast onValue f) := by
  cases needed <;> simp [parensIf]

@[simp] theorem recast_clause (keyword : String) (f : Fragment) :
    recast onValue (f.clause keyword).spaced = ((recast onValue f).clause keyword).spaced := by
  cases f <;> rfl

@[simp] theorem recast_join (separator : String) (fs : List Fragment) :
    recast onValue (join separator fs) = join separator (fs.map (recast onValue)) := by
  induction fs with
  | nil => rfl
  | cons f fs ih =>
      cases fs with
      | nil => rfl
      | cons g fs => simpa [join] using ih

@[simp] theorem recast_withClause (recursive : Bool) (tables : List Fragment) :
    recast onValue (withClause recursive tables) =
      withClause recursive (tables.map (recast onValue)) := by
  cases tables <;> simp [withClause]

theorem recast_id (f : Fragment) : recast id f = f := by
  have h : Piece.recast id = id := by
    funext p
    cases p <;> rfl
  rw [recast, h, List.map_id]

/-- Other values do not change the text. -/
theorem spell_recast (placeholder : Nat → String) (bound : Nat) (f : Fragment) :
    (recast onValue f).spell placeholder bound = f.spell placeholder bound := by
  induction f generalizing bound with
  | nil => rfl
  | cons p f ih => cases p <;> simp [spell, ih]

theorem values_recast (f : Fragment) : (recast onValue f).values = f.values.map onValue := by
  induction f with
  | nil => rfl
  | cons p f ih => cases p <;> simp [ih]

end Fragment

section Recast

variable (onDialect : Dialect → Dialect) (onValue : Value → Value)

theorem Arm.recast_isEmpty (arms : List Arm) :
    (Arm.recast onDialect onValue arms).isEmpty = arms.isEmpty := by
  rcases arms with _ | ⟨⟨all, s⟩, arms⟩ <;> rfl

theorem CommonTable.recast_isEmpty (ts : List CommonTable) :
    (CommonTable.recast onDialect onValue ts).isEmpty = ts.isEmpty := by
  rcases ts with _ | ⟨⟨name, s, recursive⟩, ts⟩ <;> rfl

theorem CommonTable.any_recursive_recast (ts : List CommonTable) :
    (CommonTable.recast onDialect onValue ts).any (·.recursive) = ts.any (·.recursive) := by
  induction ts with
  | nil => rfl
  | cons t ts ih =>
      obtain ⟨name, s, recursive⟩ := t
      simp [CommonTable.recast, ih]

theorem Select.needsParens_recast (s : Select) :
    (s.recast onDialect onValue).needsParens = s.needsParens := by
  rcases s
  simp only [Select.recast, Select.needsParens, Select.isPaged, Arm.recast_isEmpty,
    CommonTable.recast_isEmpty]

open Fragment

mutual

/-- What is written of a recast statement differs in the values alone. -/
theorem Select.fragment_recast : (s : Select) →
    (s.recast onDialect onValue).fragment = Fragment.recast onValue s.fragment
  | { source, filter, having, arms, commonTables, .. } => by
    simp [Select.recast, Select.fragment, CommonTable.any_recursive_recast,
      CommonTable.fragments_recast commonTables, Source.fragment_recast source,
      Filter.fragment_recast filter, Filter.fragment_recast having, Arm.fragments_recast arms]

theorem Source.fragment_recast : (s : Source) →
    (s.recast onDialect onValue).fragment = Fragment.recast onValue s.fragment
  | .table _ => rfl
  | .query s _ => by simp [Source.recast, Source.fragment, Select.fragment_recast s]

theorem CommonTable.fragments_recast : (ts : List CommonTable) →
    CommonTable.fragments (CommonTable.recast onDialect onValue ts) =
      (CommonTable.fragments ts).map (Fragment.recast onValue)
  | [] => rfl
  | ⟨_, s, _⟩ :: ts => by
    simp [CommonTable.recast, CommonTable.fragments, Select.fragment_recast s,
      CommonTable.fragments_recast ts]

theorem Arm.fragments_recast : (arms : List Arm) →
    Arm.fragments (Arm.recast onDialect onValue arms) =
      Fragment.recast onValue (Arm.fragments arms)
  | [] => rfl
  | ⟨_, s⟩ :: arms => by
    simp [Arm.recast, Arm.fragments, Select.fragment_recast s, Select.needsParens_recast,
      Arm.fragments_recast arms]

theorem Filter.fragment_recast : (f : Filter) →
    (f.recast onDialect onValue).fragment = Fragment.recast onValue f.fragment
  | ⟨[]⟩ => rfl
  | ⟨⟨_, p⟩ :: ts⟩ => by
    simp [Filter.recast, Term.recast, Filter.fragment, Predicate.fragment_recast p,
      Term.fragments_recast ts]

theorem Term.fragments_recast : (ts : List Term) →
    Term.fragments (Term.recast onDialect onValue ts) =
      Fragment.recast onValue (Term.fragments ts)
  | [] => rfl
  | ⟨_, p⟩ :: ts => by
    simp [Term.recast, Term.fragments, Predicate.fragment_recast p, Term.fragments_recast ts]

theorem Predicate.fragment_recast : (p : Predicate) →
    (p.recast onDialect onValue).fragment = Fragment.recast onValue p.fragment
  | .compare .. => rfl
  | .compareQuery _ _ s => by simp [Predicate.recast, Predicate.fragment, Select.fragment_recast s]
  | .isNull .. => rfl
  | .inList _ [] _ => rfl
  | .inList _ (v :: vs) _ => by
    simp [Predicate.recast, Predicate.fragment, ofValue, Function.comp_def]
  | .inQuery _ s _ => by simp [Predicate.recast, Predicate.fragment, Select.fragment_recast s]
  | .between .. => rfl
  | .existence s => by simp [Predicate.recast, Predicate.fragment, Select.fragment_recast s]
  | .raw _ => rfl
  | .group inside => by simp [Predicate.recast, Predicate.fragment, Filter.fragment_recast inside]

end

end Recast

end BoundSelect
