import BoundSelect.Proofs.Leaves
import BoundSelect.Select.Fragment

/-!
# Canonical statements

What is written of a statement does not show everything in it. It does not show the dialects stored
in it, the connective of the first predicate of a filter, the column of an empty list, whether a
limit in effect is a default, and which of the common tables made their clause recursive. The
canonical form of a statement has fixed choices for these and keeps everything else, so it is
written like the statement itself (`Select.fragment_canonical`).
-/

set_option autoImplicit false

namespace BoundSelect

mutual

/-- The statement with what is not written of it fixed. -/
def Select.canonical : Select → Select
  | { columns, source, joins, filter, groups, having, arms, order, limit, offset, defaultLimit,
      commonTables, .. } =>
    { dialect := .postgres
      columns := columns
      source := source.canonical
      joins := joins
      filter := filter.canonical
      groups := groups
      having := having.canonical
      arms := Arm.canonical arms
      order := order
      limit := limit.or defaultLimit
      offset := offset
      defaultLimit := none
      commonTables := CommonTable.canonical (commonTables.any (·.recursive)) commonTables }

/-- The source in canonical form. -/
def Source.canonical : Source → Source
  | .table name => .table name
  | .query s name => .query s.canonical name

/-- The arms in canonical form. -/
def Arm.canonical : List Arm → List Arm
  | [] => []
  | ⟨all, s⟩ :: arms => ⟨all, s.canonical⟩ :: Arm.canonical arms

/-- The common tables in canonical form: all of them recursive, or none. -/
def CommonTable.canonical (recursive : Bool) : List CommonTable → List CommonTable
  | [] => []
  | ⟨name, s, _⟩ :: ts => ⟨name, s.canonical, recursive⟩ :: CommonTable.canonical recursive ts

/-- The filter in canonical form. -/
def Filter.canonical : Filter → Filter
  | ⟨[]⟩ => ⟨[]⟩
  | ⟨⟨_, p⟩ :: ts⟩ => ⟨⟨.and, p.canonical⟩ :: Term.canonical ts⟩

/-- The terms behind the first in canonical form. -/
def Term.canonical : List Term → List Term
  | [] => []
  | ⟨c, p⟩ :: ts => ⟨c, p.canonical⟩ :: Term.canonical ts

/-- The predicate in canonical form. -/
def Predicate.canonical : Predicate → Predicate
  | .compareQuery column op s => .compareQuery column op s.canonical
  | .inList _ [] negated => .inList "" [] negated
  | .inQuery column s negated => .inQuery column s.canonical negated
  | .existence s => .existence s.canonical
  | .group inside => .group inside.canonical
  | p => p

end

theorem Arm.canonical_eq_map (arms : List Arm) :
    Arm.canonical arms = arms.map fun arm => ⟨arm.all, arm.statement.canonical⟩ := by
  induction arms with
  | nil => rfl
  | cons arm arms ih =>
      obtain ⟨all, s⟩ := arm
      rw [Arm.canonical, ih, List.map_cons]

theorem CommonTable.canonical_eq_map (recursive : Bool) (ts : List CommonTable) :
    CommonTable.canonical recursive ts =
      ts.map fun t => ⟨t.name, t.statement.canonical, recursive⟩ := by
  induction ts with
  | nil => rfl
  | cons t ts ih =>
      obtain ⟨name, s, flag⟩ := t
      rw [CommonTable.canonical, ih, List.map_cons]

theorem Term.canonical_eq_map (ts : List Term) :
    Term.canonical ts = ts.map fun t => ⟨t.connective, t.predicate.canonical⟩ := by
  induction ts with
  | nil => rfl
  | cons t ts ih =>
      obtain ⟨c, p⟩ := t
      rw [Term.canonical, ih, List.map_cons]

/-! ## What is written of a canonical statement -/

/-- The flags of canonical common tables show only whether one was set. -/
theorem CommonTable.any_recursive_canonical (ts : List CommonTable) :
    (CommonTable.canonical (ts.any (·.recursive)) ts).any (·.recursive) =
      ts.any (·.recursive) := by
  rw [CommonTable.canonical_eq_map, List.any_map]
  rcases ts with _ | ⟨t, ts⟩
  · rfl
  -- every table has the common flag, and there is at least one
  · cases (t :: ts).any (·.recursive) <;> simp

theorem Select.needsParens_canonical (s : Select) :
    s.canonical.needsParens = s.needsParens := by
  obtain ⟨_, _, _, _, _, _, _, arms, order, limit, offset, defaultLimit, ts⟩ := s
  simp only [Select.canonical, Select.needsParens, Select.isPaged, Arm.canonical_eq_map,
    CommonTable.canonical_eq_map, List.isEmpty_map, Option.isSome_or, Option.isSome_none,
    Bool.or_false]
  -- a default limit in effect is a limit in the canonical form
  cases limit.isSome <;> cases offset.isSome <;> cases defaultLimit.isSome <;> simp

open Fragment

mutual

/-- A statement is written like its canonical form. -/
theorem Select.fragment_canonical : (s : Select) → s.canonical.fragment = s.fragment
  | { source, filter, having, arms, commonTables, .. } => by
    simp only [Select.canonical, Select.fragment, CommonTable.any_recursive_canonical,
      CommonTable.fragments_canonical _ commonTables, Source.fragment_canonical source,
      Filter.fragment_canonical filter, Filter.fragment_canonical having,
      Arm.fragments_canonical arms, Option.or_none]

theorem Source.fragment_canonical : (s : Source) → s.canonical.fragment = s.fragment
  | .table _ => rfl
  | .query s _ => by
    rw [Source.canonical, Source.fragment, Source.fragment, Select.fragment_canonical s]

theorem Arm.fragments_canonical : (arms : List Arm) →
    Arm.fragments (Arm.canonical arms) = Arm.fragments arms
  | [] => rfl
  | ⟨_, s⟩ :: arms => by
    rw [Arm.canonical, Arm.fragments, Arm.fragments, Select.fragment_canonical s,
      Select.needsParens_canonical, Arm.fragments_canonical arms]

theorem CommonTable.fragments_canonical (recursive : Bool) : (ts : List CommonTable) →
    CommonTable.fragments (CommonTable.canonical recursive ts) = CommonTable.fragments ts
  | [] => rfl
  | ⟨_, s, _⟩ :: ts => by
    rw [CommonTable.canonical, CommonTable.fragments, CommonTable.fragments,
      Select.fragment_canonical s, CommonTable.fragments_canonical recursive ts]

theorem Filter.fragment_canonical : (f : Filter) → f.canonical.fragment = f.fragment
  | ⟨[]⟩ => rfl
  | ⟨⟨_, p⟩ :: ts⟩ => by
    rw [Filter.canonical, Filter.fragment, Filter.fragment, Predicate.fragment_canonical p,
      Term.fragments_canonical ts]

theorem Term.fragments_canonical : (ts : List Term) →
    Term.fragments (Term.canonical ts) = Term.fragments ts
  | [] => rfl
  | ⟨_, p⟩ :: ts => by
    rw [Term.canonical, Term.fragments, Term.fragments, Predicate.fragment_canonical p,
      Term.fragments_canonical ts]

theorem Predicate.fragment_canonical : (p : Predicate) → p.canonical.fragment = p.fragment
  | .compare .. => rfl
  | .compareQuery _ _ s => by
    rw [Predicate.canonical, Predicate.fragment, Predicate.fragment, Select.fragment_canonical s]
  | .isNull .. => rfl
  | .inList _ [] _ => rfl
  | .inList _ (_ :: _) _ => rfl
  | .inQuery _ s _ => by
    rw [Predicate.canonical, Predicate.fragment, Predicate.fragment, Select.fragment_canonical s]
  | .between .. => rfl
  | .existence s => by
    rw [Predicate.canonical, Predicate.fragment, Predicate.fragment, Select.fragment_canonical s]
  | .raw _ => rfl
  | .group inside => by
    rw [Predicate.canonical, Predicate.fragment, Predicate.fragment,
      Filter.fragment_canonical inside]

end

end BoundSelect
