import BoundSelect.Proofs.Soundness
import BoundSelect.Query

/-!
# Equality with null

A comparison with null is never true, so an equality with null is turned into `IS NULL`, which binds
nothing. That happens where equality is asked for as such. A comparison whose operator a text names
stays a comparison, also when the text names equality: then null is bound.

These comparisons are the only way for null to get behind an equality sign, in a statement and in a
filter, at any depth (`Filter.null_bound_by_comparison`).
-/

set_option autoImplicit false

namespace BoundSelect

/-! ## Equalities that bind null -/

mutual

/-- The columns that a statement compares for equality with a bound null, at any depth. -/
def Select.nullEqualities : Select → List String
  | { source, filter, having, arms, commonTables, .. } =>
    CommonTable.nullEqualities commonTables ++ (source.nullEqualities ++ (filter.nullEqualities ++
      (having.nullEqualities ++ Arm.nullEqualities arms)))

/-- The columns that a source compares with a bound null. -/
def Source.nullEqualities : Source → List String
  | .table _ => []
  | .query s _ => s.nullEqualities

/-- The columns that common tables compare with a bound null. -/
def CommonTable.nullEqualities : List CommonTable → List String
  | [] => []
  | ⟨_, s, _⟩ :: ts => s.nullEqualities ++ CommonTable.nullEqualities ts

/-- The columns that the arms of a union compare with a bound null. -/
def Arm.nullEqualities : List Arm → List String
  | [] => []
  | ⟨_, s⟩ :: arms => s.nullEqualities ++ Arm.nullEqualities arms

/-- The columns that a filter compares with a bound null. -/
def Filter.nullEqualities : Filter → List String
  | ⟨ts⟩ => Term.nullEqualities ts

/-- The columns that terms compare with a bound null. -/
def Term.nullEqualities : List Term → List String
  | [] => []
  | ⟨_, p⟩ :: ts => p.nullEqualities ++ Term.nullEqualities ts

/-- The columns that a predicate compares with a bound null. -/
def Predicate.nullEqualities : Predicate → List String
  | .compare column op v => if op = .equal ∧ v.isNull then [column] else []
  | .compareQuery _ _ s => s.nullEqualities
  | .inQuery _ s _ => s.nullEqualities
  | .existence s => s.nullEqualities
  | .group inside => inside.nullEqualities
  | .isNull .. | .inList .. | .between .. | .raw _ => []

end

/-! ## Comparisons with null that a draft asks for -/

mutual

/-- The columns that a draft compares with null by an operator text that names equality, at any
depth. -/
def Draft.nullComparisons : Draft → List String
  | .table _ _ _ steps => Step.allNullComparisons steps
  | .query inner _ steps => inner.nullComparisons ++ Step.allNullComparisons steps

/-- The columns that steps compare with null. -/
def Step.allNullComparisons : List Step → List String
  | [] => []
  | step :: steps => step.nullComparisons ++ Step.allNullComparisons steps

/-- The columns that a step compares with null. -/
def Step.nullComparisons : Step → List String
  | .selectFrom inner _ | .arm _ inner | .commonTable _ _ inner => inner.nullComparisons
  | .filter step | .having step => step.nullComparisons
  | _ => []

/-- The columns that a step on a filter compares with null. -/
def FilterStep.nullComparisons : FilterStep → List String
  | .comparison _ column op operand => Draft.operandNullComparisons column op operand
  | .existence inner => inner.nullComparisons
  | .entries es => Draft.entriesNullComparisons es
  | .group _ steps => FilterStep.allNullComparisons steps
  | .attempt step => step.nullComparisons
  | _ => []

/-- The columns that steps on a filter compare with null. -/
def FilterStep.allNullComparisons : List FilterStep → List String
  | [] => []
  | step :: steps => step.nullComparisons ++ FilterStep.allNullComparisons steps

/-- The columns compared with null where a column is compared with an operand. -/
def Draft.operandNullComparisons (column op : String) : Operand Draft → List String
  | .value v => if Operator.parse? op = some .equal ∧ v.isNull then [column] else []
  | .list _ => []
  | .query d => d.nullComparisons

/-- The columns that entries compare with null. -/
def Draft.entriesNullComparisons : List (String × Entry Draft) → List String
  | [] => []
  | (column, .compare op operand) :: es =>
    Draft.operandNullComparisons column op operand ++ Draft.entriesNullComparisons es
  | (_, .equals _) :: es | (_, .isNull) :: es => Draft.entriesNullComparisons es

end

/-! ## What changes add -/

theorem Term.nullEqualities_append (ts us : List Term) :
    Term.nullEqualities (ts ++ us) = Term.nullEqualities ts ++ Term.nullEqualities us := by
  induction ts with
  | nil => rfl
  | cons t ts ih =>
      obtain ⟨c, p⟩ := t
      rw [List.cons_append, Term.nullEqualities, ih, Term.nullEqualities, List.append_assoc]

theorem Arm.nullEqualities_append (arms more : List Arm) :
    Arm.nullEqualities (arms ++ more) = Arm.nullEqualities arms ++ Arm.nullEqualities more := by
  induction arms with
  | nil => rfl
  | cons arm arms ih =>
      obtain ⟨all, s⟩ := arm
      rw [List.cons_append, Arm.nullEqualities, ih, Arm.nullEqualities, List.append_assoc]

theorem CommonTable.nullEqualities_append (ts us : List CommonTable) :
    CommonTable.nullEqualities (ts ++ us) =
      CommonTable.nullEqualities ts ++ CommonTable.nullEqualities us := by
  induction ts with
  | nil => rfl
  | cons t ts ih =>
      obtain ⟨name, s, recursive⟩ := t
      rw [List.cons_append, CommonTable.nullEqualities, ih, CommonTable.nullEqualities,
        List.append_assoc]

theorem Filter.nullEqualities_push (c : Connective) (p : Predicate) (f : Filter) :
    (f.push c p).nullEqualities = f.nullEqualities ++ p.nullEqualities := by
  obtain ⟨ts⟩ := f
  rw [Filter.push, Filter.nullEqualities, Term.nullEqualities_append, Filter.nullEqualities]
  simp only [Term.nullEqualities, List.append_nil]

namespace Operand

/-- The columns that a comparison of a column with an operand compares with a bound null. -/
def nullEqualities (column op : String) : Operand Select → List String
  | .value v => if Operator.parse? op = some .equal ∧ v.isNull then [column] else []
  | .list _ => []
  | .query s => s.nullEqualities

end Operand

namespace Predicate

/-- An equality asked for as such never binds null. -/
theorem nullEqualities_equals (column : String) (v : Value) :
    (equals column v).nullEqualities = [] := by
  cases h : v.isNull <;> simp [equals, h, nullEqualities]

theorem nullEqualities_comparison (column op : String) (operand : Operand Select) :
    Gives (fun p => p.nullEqualities ⊆ operand.nullEqualities column op)
      (comparison column op operand) := by
  intro p hp
  obtain ⟨o, hparse, hmade⟩ := ofOperand?_of_comparison hp
  rcases ofOperand?_cases hmade with ⟨v, -, rfl, rfl⟩ | ⟨s, -, rfl, rfl⟩ | ⟨s, -, rfl, rfl⟩ |
    ⟨vs, -, -, rfl⟩ | ⟨low, high, -, -, rfl⟩ | ⟨s, -, rfl, rfl⟩
  -- only a comparison with a value can bind null, and it does so when the text names equality
  · simp [nullEqualities, Operand.nullEqualities, hparse]
  · exact List.Subset.refl _
  · exact List.Subset.refl _
  · exact List.nil_subset _
  · exact List.nil_subset _
  · exact List.Subset.refl _

end Predicate

section Changes

variable {columns : List String} {s t : Select}

namespace Filter

/-- Adding predicates that bind null for the given columns at most. -/
theorem nullEqualities_addChecked (c : Connective) {p : Except Fault Predicate}
    (hp : Gives (fun p => p.nullEqualities ⊆ columns) p) :
    Edit.Keeps (·.nullEqualities ⊆ columns) (addChecked c p) := by
  refine keeps_addChecked c fun p hmade f hf => ?_
  rw [nullEqualities_push]
  exact List.append_subset.2 ⟨hf, hp p hmade⟩

theorem nullEqualities_add (c : Connective) {p : Predicate} (hp : p.nullEqualities ⊆ columns) :
    Edit.Keeps (·.nullEqualities ⊆ columns) (add c p) :=
  nullEqualities_addChecked c (gives_ok hp)

theorem nullEqualities_addEquals (c : Connective) (column : String) (v : Value) :
    Edit.Keeps (·.nullEqualities ⊆ columns) (addEquals c column v) := by
  refine nullEqualities_add c ?_
  rw [Predicate.nullEqualities_equals]
  exact List.nil_subset _

theorem nullEqualities_addGroup (c : Connective) {configure : Edit}
    (h : configure.Keeps (·.nullEqualities ⊆ columns)) :
    Edit.Keeps (·.nullEqualities ⊆ columns) (addGroup c configure) := by
  refine h.addGroup c (List.nil_subset _) fun f g hf hg _ => ?_
  rw [nullEqualities_push]
  exact List.append_subset.2 ⟨hf, hg⟩

end Filter

namespace Select

/-- The columns of a statement are those of its clauses. -/
theorem nullEqualities_subset_iff :
    s.nullEqualities ⊆ columns ↔
      CommonTable.nullEqualities s.commonTables ⊆ columns ∧ s.source.nullEqualities ⊆ columns ∧
        s.filter.nullEqualities ⊆ columns ∧ s.having.nullEqualities ⊆ columns ∧
          Arm.nullEqualities s.arms ⊆ columns := by
  cases s
  simp only [Select.nullEqualities, List.append_subset]

theorem nullEqualities_selectFrom (hs : s.nullEqualities ⊆ columns)
    (ht : t.nullEqualities ⊆ columns) (name : String) :
    Gives (·.nullEqualities ⊆ columns) (s.selectFrom t name) := by
  obtain ⟨htables, -, hrest⟩ := nullEqualities_subset_iff.1 hs
  exact gives_bind fun _ => gives_ok (nullEqualities_subset_iff.2 ⟨htables, ht, hrest⟩)

theorem nullEqualities_editFilter (hs : s.nullEqualities ⊆ columns) {edit : Filter.Edit}
    (hedit : edit.Keeps (·.nullEqualities ⊆ columns)) :
    Gives (·.nullEqualities ⊆ columns) (s.editFilter edit) := by
  obtain ⟨htables, hsource, hfilter, hrest⟩ := nullEqualities_subset_iff.1 hs
  have hleft := hedit s.filter hfilter
  unfold editFilter
  split
  · next f hrun =>
      rw [hrun] at hleft
      exact gives_ok (nullEqualities_subset_iff.2 ⟨htables, hsource, hleft, hrest⟩)
  · exact gives_error _

theorem nullEqualities_editHaving (hs : s.nullEqualities ⊆ columns) {edit : Filter.Edit}
    (hedit : edit.Keeps (·.nullEqualities ⊆ columns)) :
    Gives (·.nullEqualities ⊆ columns) (s.editHaving edit) := by
  obtain ⟨htables, hsource, hfilter, hhaving, harms⟩ := nullEqualities_subset_iff.1 hs
  have hleft := hedit s.having hhaving
  unfold editHaving
  split
  · next f hrun =>
      rw [hrun] at hleft
      exact gives_ok (nullEqualities_subset_iff.2 ⟨htables, hsource, hfilter, hleft, harms⟩)
  · exact gives_error _

theorem nullEqualities_addArm (hs : s.nullEqualities ⊆ columns) (all : Bool)
    (ht : t.nullEqualities ⊆ columns) : (s.addArm all t).nullEqualities ⊆ columns := by
  obtain ⟨htables, hsource, hfilter, hhaving, harms⟩ := nullEqualities_subset_iff.1 hs
  refine nullEqualities_subset_iff.2 ⟨htables, hsource, hfilter, hhaving, ?_⟩
  simp only [addArm, Arm.nullEqualities_append, Arm.nullEqualities, List.append_nil]
  exact List.append_subset.2 ⟨harms, ht⟩

theorem nullEqualities_addCommonTable (hs : s.nullEqualities ⊆ columns) (recursive : Bool)
    (name : String) (ht : t.nullEqualities ⊆ columns) :
    Gives (·.nullEqualities ⊆ columns) (s.addCommonTable recursive name t) := by
  obtain ⟨htables, hrest⟩ := nullEqualities_subset_iff.1 hs
  refine gives_bind fun _ => gives_ok (nullEqualities_subset_iff.2 ⟨?_, hrest⟩)
  simp only [CommonTable.nullEqualities_append, CommonTable.nullEqualities, List.append_nil]
  exact List.append_subset.2 ⟨htables, ht⟩

theorem nullEqualities_groupByAll (hs : s.nullEqualities ⊆ columns) (names : List String) :
    Gives (·.nullEqualities ⊆ columns) (s.groupByAll names) := by
  unfold groupByAll
  induction names generalizing s with
  | nil => exact gives_ok hs
  | cons name names ih =>
      rw [List.foldlM_cons]
      have hfirst : Gives (·.nullEqualities ⊆ columns) (s.groupBy name) :=
        gives_bind fun _ => gives_ok (by cases s; exact hs)
      exact hfirst.bind fun t ht => ih ht

/-- A count has the conditions of the statement that it counts, wherever it keeps them. -/
theorem nullEqualities_count (hs : s.nullEqualities ⊆ columns) :
    s.count.nullEqualities ⊆ columns := by
  have hclauses := nullEqualities_subset_iff.1 hs
  rw [count]
  split
  · exact nullEqualities_subset_iff.2 hclauses
  · -- the common tables stay outside, and the rest moves into the source
    have hinner : ({ s.unpaged with columns := s.countedColumns, commonTables := [] } :
        Select).nullEqualities ⊆ columns :=
      nullEqualities_subset_iff.2 ⟨List.nil_subset _, hclauses.2⟩
    exact nullEqualities_subset_iff.2
      ⟨hclauses.1, hinner, List.nil_subset _, List.nil_subset _, List.nil_subset _⟩

end Select

end Changes

/-! ## Drafts -/

section Drafts

variable {columns : List String}

mutual

theorem Draft.nullEqualities_make : (d : Draft) → d.nullComparisons ⊆ columns →
    Gives (·.nullEqualities ⊆ columns) d.make
  | .table _ _ _ steps, hd => Step.nullEqualities_runAll steps hd (List.nil_subset _)
  | .query inner name steps, hd => by
    obtain ⟨hinner, hsteps⟩ := List.append_subset.1 hd
    refine (Draft.nullEqualities_make inner hinner).bind fun t ht => ?_
    refine (Select.nullEqualities_selectFrom (List.nil_subset _) ht name).bind fun s hs => ?_
    exact Step.nullEqualities_runAll steps hsteps hs

theorem Step.nullEqualities_runAll : (steps : List Step) →
    Step.allNullComparisons steps ⊆ columns → {s : Select} → s.nullEqualities ⊆ columns →
      Gives (·.nullEqualities ⊆ columns) (Step.runAll steps s)
  | [], _, _, hs => gives_ok hs
  | step :: steps, hsteps, _, hs =>
    (Step.nullEqualities_run step (List.append_subset.1 hsteps).1 hs).bind fun _ ht =>
      Step.nullEqualities_runAll steps (List.append_subset.1 hsteps).2 ht

theorem Step.nullEqualities_run : (step : Step) → step.nullComparisons ⊆ columns →
    {s : Select} → s.nullEqualities ⊆ columns → Gives (·.nullEqualities ⊆ columns) (step.run s)
  | .dialect _, _, s, hs => gives_ok (by cases s; exact hs)
  | .columns _, _, s, hs => gives_bind fun _ => gives_ok (by cases s; exact hs)
  | .column _, _, s, hs => gives_bind fun _ => gives_ok (by cases s; exact hs)
  | .selectFrom inner name, hstep, _, hs =>
    (Draft.nullEqualities_make inner hstep).bind fun _ ht =>
      Select.nullEqualities_selectFrom hs ht name
  | .join _, _, s, hs => gives_ok (by cases s; exact hs)
  | .filter step, hstep, _, hs =>
    Select.nullEqualities_editFilter hs (FilterStep.nullEqualities_run step hstep)
  | .having step, hstep, _, hs =>
    Select.nullEqualities_editHaving hs (FilterStep.nullEqualities_run step hstep)
  | .groupBy _, _, s, hs => gives_bind fun _ => gives_ok (by cases s; exact hs)
  | .groupByAll names, _, _, hs => Select.nullEqualities_groupByAll hs names
  | .arm all inner, hstep, _, hs =>
    (Draft.nullEqualities_make inner hstep).bind fun _ ht =>
      gives_ok (Select.nullEqualities_addArm hs all ht)
  | .orderBy _, _, s, hs => gives_ok (by cases s; exact hs)
  | .limit _, _, s, hs => gives_ok (by cases s; exact hs)
  | .offset _, _, s, hs => gives_ok (by cases s; exact hs)
  | .page _ _, _, s, hs => gives_ok (by cases s; exact hs)
  | .commonTable recursive name inner, hstep, _, hs =>
    (Draft.nullEqualities_make inner hstep).bind fun _ ht =>
      Select.nullEqualities_addCommonTable hs recursive name ht
  | .count, _, _, hs => gives_ok (Select.nullEqualities_count hs)

theorem FilterStep.nullEqualities_run : (step : FilterStep) → step.nullComparisons ⊆ columns →
    step.run.Keeps (·.nullEqualities ⊆ columns)
  | .equals c column v, _ => Filter.nullEqualities_addEquals c column v
  | .equalsOption column v, _ => by
    cases v with
    | none => exact Filter.Edit.keeps_skip
    | some v => exact Filter.nullEqualities_addEquals .and column v
  | .scalar op column v, _ => by
    -- none of the operators with a step of their own is equality
    refine Filter.nullEqualities_add .and ?_
    cases op <;> exact List.nil_subset _
  | .comparison c column op operand, hstep => by
    have hoperand := Draft.nullEqualities_makeOperand column op operand hstep
    intro f hf
    simp only [FilterStep.run]
    cases hmade : Draft.makeOperand operand with
    | error e => exact hf
    | ok made =>
        refine Filter.nullEqualities_addChecked c (fun p hp => ?_) f hf
        have hbound := Predicate.nullEqualities_comparison column op made p hp
        exact List.Subset.trans hbound (hoperand made hmade)
  | .notNull _, _ => Filter.nullEqualities_add .and (List.nil_subset _)
  | .inList .., _ => Filter.nullEqualities_add .and (List.nil_subset _)
  | .between .., _ => Filter.nullEqualities_add .and (List.nil_subset _)
  | .existence inner, hstep =>
    Filter.nullEqualities_addChecked .and
      ((Draft.nullEqualities_make inner hstep).map fun _ hs => hs)
  | .raw c _, _ => Filter.nullEqualities_add c (List.nil_subset _)
  | .entries es, hstep => by
    have hentries := Draft.nullEqualities_makeEntries es hstep
    intro f hf
    simp only [FilterStep.run]
    cases hmade : Draft.makeEntries es with
    | error e => exact hf
    | ok made => exact hentries made hmade f hf
  | .group c steps, hstep =>
    Filter.nullEqualities_addGroup c (FilterStep.nullEqualities_runAll steps hstep)
  | .attempt step, hstep => (FilterStep.nullEqualities_run step hstep).attempt

theorem FilterStep.nullEqualities_runAll : (steps : List FilterStep) →
    FilterStep.allNullComparisons steps ⊆ columns →
      (FilterStep.runAll steps).Keeps (·.nullEqualities ⊆ columns)
  | [], _ => Filter.Edit.keeps_skip
  | step :: steps, hsteps =>
    (FilterStep.nullEqualities_run step (List.append_subset.1 hsteps).1).andThen
      (FilterStep.nullEqualities_runAll steps (List.append_subset.1 hsteps).2)

theorem Draft.nullEqualities_makeOperand (column op : String) : (operand : Operand Draft) →
    Draft.operandNullComparisons column op operand ⊆ columns →
      Gives (fun made => made.nullEqualities column op ⊆ columns) (Draft.makeOperand operand)
  | .value _, h => gives_ok h
  | .list _, h => gives_ok h
  | .query d, h => (Draft.nullEqualities_make d h).map fun _ hs => hs

theorem Draft.nullEqualities_makeEntries : (es : List (String × Entry Draft)) →
    Draft.entriesNullComparisons es ⊆ columns →
      Gives (fun made => (Filter.addEntries made).Keeps (·.nullEqualities ⊆ columns))
        (Draft.makeEntries es)
  | [], _ => gives_ok Filter.Edit.keeps_skip
  | (column, .equals v) :: es, h =>
    (Draft.nullEqualities_makeEntries es h).bind fun _ hes =>
      gives_ok ((Filter.nullEqualities_addEquals .and column v).andThen hes)
  | (column, .isNull) :: es, h =>
    (Draft.nullEqualities_makeEntries es h).bind fun _ hes =>
      gives_ok ((Filter.nullEqualities_addEquals .and column .null).andThen hes)
  | (column, .compare op operand) :: es, h => by
    obtain ⟨hoperand, hes⟩ := List.append_subset.1 h
    refine (Draft.nullEqualities_makeOperand column op operand hoperand).bind fun made hmade => ?_
    refine (Draft.nullEqualities_makeEntries es hes).bind fun _ hmades => gives_ok ?_
    refine Filter.Edit.Keeps.andThen (Filter.nullEqualities_addChecked .and fun p hp => ?_) hmades
    exact List.Subset.trans (Predicate.nullEqualities_comparison column op made p hp) hmade

end

end Drafts

/-! ## How equality with null is written -/

theorem Term.renderAll_append (ts us : List Term) (b : Bindings) :
    Term.renderAll (ts ++ us) b =
      ((Term.renderAll ts b).1 ++ (Term.renderAll us (Term.renderAll ts b).2).1,
        (Term.renderAll us (Term.renderAll ts b).2).2) := by
  induction ts generalizing b with
  | nil => simp [Term.renderAll]
  | cons t ts ih =>
      obtain ⟨c, p⟩ := t
      simp only [List.cons_append, Term.renderAll, ih, String.append_assoc]

namespace Filter

/-- What is written between a filter and a predicate that is added to it. -/
def joint (f : Filter) (c : Connective) : String :=
  if f.isEmpty then "" else " " ++ c.keyword ++ " "

/-- A predicate that is added to a filter is written behind it, into the bindings after it. -/
theorem render_push (c : Connective) (p : Predicate) (f : Filter) (b : Bindings) :
    (f.push c p).render b =
      ((f.render b).1 ++ f.joint c ++ (p.render (f.render b).2).1,
        (p.render (f.render b).2).2) := by
  rcases f with ⟨_ | ⟨⟨first, q⟩, ts⟩⟩
  · simp [push, joint, isEmpty, Filter.render, Term.renderAll]
  · simp [push, joint, isEmpty, Filter.render, Term.renderAll, Term.renderAll_append,
      String.append_assoc]

/-- The ways to ask that a column equals null, with the connective and the column, and whether it is
asked by a comparison whose operator a text names. -/
inductive AsksNull : Edit → Connective → String → Bool → Prop
  | equals (c : Connective) (column : String) :
      AsksNull (addEquals c column .null) c column false
  | option (column : String) : AsksNull (addEqualsOption column (some .null)) .and column false
  | entryEquals (column : String) : AsksNull (addEntry column (.equals .null)) .and column false
  | entryNull (column : String) : AsksNull (addEntry column .isNull) .and column false
  | comparison (c : Connective) (column : String) {op : String} :
      Operator.parse? op = some .equal →
      AsksNull (addComparison c column op (.value .null)) c column true
  | entryComparison (column : String) {op : String} : Operator.parse? op = some .equal →
      AsksNull (addEntry column (.compare op (.value .null))) .and column true

/-- A comparison with null by a text that names equality stays a comparison. -/
theorem comparison_null {op : String} (h : Operator.parse? op = some .equal) (column : String) :
    Predicate.comparison column op (.value .null) = .ok (.compare column .equal .null) := by
  simp only [Predicate.comparison, Operator.parse, h]
  rfl

theorem render_compare_null (column : String) (b : Bindings) :
    (Predicate.compare column .equal .null).render b =
      (column ++ " = " ++ (b.bind .null).1, (b.bind .null).2) := by
  have hsign : column ++ " " ++ "=" ++ " " = column ++ " = " := by
    rw [String.append_assoc, String.append_assoc]
    rfl
  simp only [Predicate.render, Operator.symbol, hsign]

/-- What an edit adds that asks for equality with null. -/
theorem AsksNull.eq_add {edit : Edit} {c : Connective} {column : String} {compared : Bool}
    (h : AsksNull edit c column compared) :
    edit = add c (if compared then .compare column .equal .null else .isNull column false) := by
  cases h with
  | equals => rfl
  | option => rfl
  | entryEquals => rfl
  | entryNull => rfl
  | comparison c column hop =>
      rw [addComparison, comparison_null hop]
      rfl
  | entryComparison column hop =>
      rw [addEntry, addComparison, comparison_null hop]
      rfl

/-- Null gets behind an equality sign only where a comparison by operator text asks for it: the
columns that are compared with a bound null, at any depth of a made statement or filter, are among
those that the steps compare with null in this way. And of the ways to ask for equality with null,
exactly these comparisons bind null behind `=`, while all others are written `IS NULL` and bind
nothing. -/
theorem null_bound_by_comparison (d : Draft) (steps : List FilterStep) {edit : Edit}
    {c : Connective} {column : String} {compared : Bool}
    (hasks : AsksNull edit c column compared) (f : Filter) (b : Bindings) :
    (∀ s, d.make = .ok s → s.nullEqualities ⊆ d.nullComparisons) ∧
      (FilterStep.runAll steps empty).2.nullEqualities ⊆ FilterStep.allNullComparisons steps ∧
      (edit f).1 = .ok () ∧
      (edit f).2.nullEqualities = f.nullEqualities ++ (if compared then [column] else []) ∧
      (edit f).2.render b =
        let (before, b) := f.render b
        let (token, bound) := b.bind .null
        if compared then (before ++ f.joint c ++ (column ++ " = " ++ token), bound)
        else (before ++ f.joint c ++ (column ++ " IS NULL"), b) := by
  refine ⟨?_, ?_, ?_⟩
  · intro s hmake
    exact d.nullEqualities_make (List.Subset.refl _) s hmake
  · exact FilterStep.nullEqualities_runAll steps (List.Subset.refl _) empty (List.nil_subset _)
  · rw [hasks.eq_add]
    refine ⟨rfl, ?_, ?_⟩
    · rw [add, nullEqualities_push]
      cases compared <;> rfl
    · rw [add, render_push]
      cases compared with
      | false => rfl
      | true => rw [if_pos rfl, render_compare_null]; rfl

/-- Null is asked for by an equality, in a group by a list of entries that fails half way, and in a
subquery. -/
def withNulls : Draft :=
  .table .postgres none "t"
    [.filter (.equals .and "a" .null),
      .filter (.group .or
        [.attempt (.entries
            [("b", .compare " = " (.value .null)), ("c", .compare "IN" (.value .null))]),
          .equalsOption "d" (some .null)]),
      .having (.existence
        (.table .mysql none "u" [.filter (.comparison .or "e" "=" (.value .null))]))]

theorem null_bound_by_comparison_nested :
    ∃ s, withNulls.make = .ok s ∧ s.nullEqualities = ["b", "e"] ∧
      s.nullEqualities ⊆ withNulls.nullComparisons ∧
      AsksNull (addComparison .or "e" "=" (.value .null)) .or "e" true ∧
      (addComparison .or "e" "=" (.value .null) empty).1 = .ok () := by
  have hasks : AsksNull (addComparison .or "e" "=" (.value .null)) .or "e" true :=
    .comparison _ _ (by decide)
  obtain ⟨hmade, -, hdone, -⟩ := null_bound_by_comparison withNulls [] hasks empty ⟨.postgres, []⟩
  exact ⟨_, rfl, by decide, hmade _ rfl, hasks, hdone⟩

/-- An equality with null by operator text is written with a placeholder, and null is bound. -/
theorem null_bound_behind_equality_sign :
    ∃ s, (Draft.table .postgres none "t"
        [.filter (.comparison .and "c" "=" (.value .null))]).make = .ok s ∧
      s.nullEqualities = ["c"] ∧ s.query.sql = "SELECT * FROM t WHERE c = $1" ∧
      s.query.params = [.null] := by
  refine ⟨_, rfl, by decide, by decide, rfl⟩

end Filter

end BoundSelect
