import BoundSelect.Select

/-!
# The leaves of a statement

What a statement holds from outside: the literals, which are bound, and the texts that are written
as they are. Both are collected at any depth, through common tables, subqueries, groups and arms.
The column of an empty list is not among the texts, since it is never written.
-/

set_option autoImplicit false

namespace BoundSelect

/-! ## Literals -/

mutual

/-- The literals of a statement, each once: those of its common tables, its source, its filter, its
filter of groups and its arms, in this order. -/
def Select.literals : Select → List Value
  | { source, filter, having, arms, commonTables, .. } =>
    CommonTable.literals commonTables ++ source.literals ++ filter.literals ++ having.literals ++
      Arm.literals arms

/-- The literals of a source. -/
def Source.literals : Source → List Value
  | .table _ => []
  | .query s _ => s.literals

/-- The literals of common tables. -/
def CommonTable.literals : List CommonTable → List Value
  | [] => []
  | ⟨_, s, _⟩ :: ts => s.literals ++ CommonTable.literals ts

/-- The literals of the arms of a union. -/
def Arm.literals : List Arm → List Value
  | [] => []
  | ⟨_, s⟩ :: arms => s.literals ++ Arm.literals arms

/-- The literals of a filter. -/
def Filter.literals : Filter → List Value
  | ⟨ts⟩ => Term.literals ts

/-- The literals of terms. -/
def Term.literals : List Term → List Value
  | [] => []
  | ⟨_, p⟩ :: ts => p.literals ++ Term.literals ts

/-- The literals of a predicate. -/
def Predicate.literals : Predicate → List Value
  | .compare _ _ v => [v]
  | .compareQuery _ _ s => s.literals
  | .isNull _ _ => []
  | .inList _ members _ => members
  | .inQuery _ s _ => s.literals
  | .between _ low high => [low, high]
  | .existence s => s.literals
  | .raw _ => []
  | .group inside => inside.literals

end

/-! ## Texts that are written as they are -/

section Verbatim

variable (P : String → Prop)

/-- A property of the texts of a join. -/
def Join.Verbatim (j : Join) : Prop :=
  P j.table ∧ P j.left ∧ P j.right

mutual

/-- A property of all texts that are written as they are. -/
def Select.Verbatim : Select → Prop
  | { columns, source, joins, filter, groups, having, arms, order, commonTables, .. } =>
    CommonTable.Verbatim commonTables ∧ (∀ c ∈ columns, P c) ∧ source.Verbatim ∧
      (∀ j ∈ joins, j.Verbatim P) ∧ filter.Verbatim ∧ (∀ g ∈ groups, P g) ∧ having.Verbatim ∧
      Arm.Verbatim arms ∧ ∀ k ∈ order, P k.column

/-- A property of the texts of a source. -/
def Source.Verbatim : Source → Prop
  | .table name => P name
  | .query s name => s.Verbatim ∧ P name

/-- A property of the texts of common tables. -/
def CommonTable.Verbatim : List CommonTable → Prop
  | [] => True
  | ⟨name, s, _⟩ :: ts => P name ∧ s.Verbatim ∧ CommonTable.Verbatim ts

/-- A property of the texts of the arms of a union. -/
def Arm.Verbatim : List Arm → Prop
  | [] => True
  | ⟨_, s⟩ :: arms => s.Verbatim ∧ Arm.Verbatim arms

/-- A property of the texts of a filter. -/
def Filter.Verbatim : Filter → Prop
  | ⟨ts⟩ => Term.Verbatim ts

/-- A property of the texts of terms. -/
def Term.Verbatim : List Term → Prop
  | [] => True
  | ⟨_, p⟩ :: ts => p.Verbatim ∧ Term.Verbatim ts

/-- A property of the texts of a predicate. -/
def Predicate.Verbatim : Predicate → Prop
  | .compare column _ _ => P column
  | .compareQuery column _ s => P column ∧ s.Verbatim
  | .isNull column _ => P column
  | .inList column members _ => members ≠ [] → P column
  | .inQuery column s _ => P column ∧ s.Verbatim
  | .between column _ _ => P column
  | .existence s => s.Verbatim
  | .raw sql => P sql
  | .group inside => inside.Verbatim

end

variable {P}

theorem Term.verbatim_iff_forall {ts : List Term} :
    Term.Verbatim P ts ↔ ∀ t ∈ ts, t.predicate.Verbatim P := by
  induction ts with
  | nil => exact ⟨fun _ _ ht => absurd ht List.not_mem_nil, fun _ => trivial⟩
  | cons t ts ih =>
      obtain ⟨c, p⟩ := t
      rw [Term.Verbatim, ih, List.forall_mem_cons]

theorem Arm.verbatim_iff_forall {arms : List Arm} :
    Arm.Verbatim P arms ↔ ∀ arm ∈ arms, arm.statement.Verbatim P := by
  induction arms with
  | nil => exact ⟨fun _ _ ht => absurd ht List.not_mem_nil, fun _ => trivial⟩
  | cons arm arms ih =>
      obtain ⟨all, s⟩ := arm
      rw [Arm.Verbatim, ih, List.forall_mem_cons]

theorem CommonTable.verbatim_iff_forall {ts : List CommonTable} :
    CommonTable.Verbatim P ts ↔ ∀ t ∈ ts, P t.name ∧ t.statement.Verbatim P := by
  induction ts with
  | nil => exact ⟨fun _ _ ht => absurd ht List.not_mem_nil, fun _ => trivial⟩
  | cons t ts ih =>
      obtain ⟨name, s, recursive⟩ := t
      rw [CommonTable.Verbatim, ih, List.forall_mem_cons, and_assoc]

/-! ## Weaker properties -/

variable {Q : String → Prop}

mutual

/-- A property of the texts of a statement can be weakened. -/
theorem Select.verbatim_mono (h : ∀ s, P s → Q s) : (s : Select) → s.Verbatim P → s.Verbatim Q
  | { source, filter, having, arms, commonTables, .. },
      ⟨htables, hcolumns, hsource, hjoins, hfilter, hgroups, hhaving, harms, horder⟩ =>
    ⟨CommonTable.verbatim_mono h commonTables htables, fun c hc => h c (hcolumns c hc),
      Source.verbatim_mono h source hsource,
      fun j hj => ⟨h _ (hjoins j hj).1, h _ (hjoins j hj).2.1, h _ (hjoins j hj).2.2⟩,
      Filter.verbatim_mono h filter hfilter, fun g hg => h g (hgroups g hg),
      Filter.verbatim_mono h having hhaving, Arm.verbatim_mono h arms harms,
      fun k hk => h _ (horder k hk)⟩

theorem Source.verbatim_mono (h : ∀ s, P s → Q s) : (s : Source) → s.Verbatim P → s.Verbatim Q
  | .table _, hname => h _ hname
  | .query s _, ⟨hs, hname⟩ => ⟨Select.verbatim_mono h s hs, h _ hname⟩

theorem CommonTable.verbatim_mono (h : ∀ s, P s → Q s) : (ts : List CommonTable) →
    CommonTable.Verbatim P ts → CommonTable.Verbatim Q ts
  | [], _ => trivial
  | ⟨_, s, _⟩ :: ts, ⟨hname, hs, hts⟩ =>
    ⟨h _ hname, Select.verbatim_mono h s hs, CommonTable.verbatim_mono h ts hts⟩

theorem Arm.verbatim_mono (h : ∀ s, P s → Q s) : (arms : List Arm) →
    Arm.Verbatim P arms → Arm.Verbatim Q arms
  | [], _ => trivial
  | ⟨_, s⟩ :: arms, ⟨hs, harms⟩ => ⟨Select.verbatim_mono h s hs, Arm.verbatim_mono h arms harms⟩

theorem Filter.verbatim_mono (h : ∀ s, P s → Q s) : (f : Filter) → f.Verbatim P → f.Verbatim Q
  | ⟨ts⟩, hts => Term.verbatim_mono h ts hts

theorem Term.verbatim_mono (h : ∀ s, P s → Q s) : (ts : List Term) →
    Term.Verbatim P ts → Term.Verbatim Q ts
  | [], _ => trivial
  | ⟨_, p⟩ :: ts, ⟨hp, hts⟩ => ⟨Predicate.verbatim_mono h p hp, Term.verbatim_mono h ts hts⟩

theorem Predicate.verbatim_mono (h : ∀ s, P s → Q s) : (p : Predicate) →
    p.Verbatim P → p.Verbatim Q
  | .compare .., hcolumn => h _ hcolumn
  | .compareQuery _ _ s, ⟨hcolumn, hs⟩ => ⟨h _ hcolumn, Select.verbatim_mono h s hs⟩
  | .isNull .., hcolumn => h _ hcolumn
  | .inList .., hcolumn => fun hne => h _ (hcolumn hne)
  | .inQuery _ s _, ⟨hcolumn, hs⟩ => ⟨h _ hcolumn, Select.verbatim_mono h s hs⟩
  | .between .., hcolumn => h _ hcolumn
  | .existence s, hs => Select.verbatim_mono h s hs
  | .raw _, hsql => h _ hsql
  | .group inside, hinside => Filter.verbatim_mono h inside hinside

end

end Verbatim

end BoundSelect
