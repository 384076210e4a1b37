import BoundSelect.Draft
import BoundSelect.Proofs.Agreement

/-!
# Values do not reach the text

Two drafts are alike when they take the same steps and differ in bound values only (`Draft.Alike`).
The values keep what a step looks at: whether the value of an equality is null, how long a list is,
and whether a value that stands for a list is an array. Alike drafts fail alike or make statements
of one shape (`Draft.Alike.make`), which have the same text and equally many parameters.
-/

set_option autoImplicit false

namespace BoundSelect

/-- Whether a text names an operator that takes a list. -/
def Operator.TakesList (op : String) : Prop :=
  ∃ o, Operator.parse op = .ok o ∧ (o.shape = .list ∨ o.shape = .pair)

/-! ## Drafts that differ in values only -/

section Alike

/- How the values of optional equalities are compared. -/
variable (Given : Option Value → Option Value → Prop)

mutual

/-- Drafts that take the same steps and differ in bound values only. -/
inductive Draft.Alike : Draft → Draft → Prop
  | table (dialect : Dialect) (defaultLimit : Option UInt64) (name : String)
      {steps steps' : List Step} : Step.AllAlike steps steps' →
      Draft.Alike (.table dialect defaultLimit name steps) (.table dialect defaultLimit name steps')
  | query {inner inner' : Draft} (name : String) {steps steps' : List Step} :
      Draft.Alike inner inner' → Step.AllAlike steps steps' →
      Draft.Alike (.query inner name steps) (.query inner' name steps')

/-- Lists of steps that are alike one by one. -/
inductive Step.AllAlike : List Step → List Step → Prop
  | nil : Step.AllAlike [] []
  | cons {step step' : Step} {steps steps' : List Step} :
      Step.Alike step step' → Step.AllAlike steps steps' →
      Step.AllAlike (step :: steps) (step' :: steps')

/-- Steps that differ in bound values only. -/
inductive Step.Alike : Step → Step → Prop
  | dialect (d : Dialect) : Step.Alike (.dialect d) (.dialect d)
  | columns (names : List String) : Step.Alike (.columns names) (.columns names)
  | column (name : String) : Step.Alike (.column name) (.column name)
  | selectFrom {inner inner' : Draft} (name : String) : Draft.Alike inner inner' →
      Step.Alike (.selectFrom inner name) (.selectFrom inner' name)
  | join (j : Join) : Step.Alike (.join j) (.join j)
  | filter {step step' : FilterStep} : FilterStep.Alike step step' →
      Step.Alike (.filter step) (.filter step')
  | having {step step' : FilterStep} : FilterStep.Alike step step' →
      Step.Alike (.having step) (.having step')
  | groupBy (column : String) : Step.Alike (.groupBy column) (.groupBy column)
  | groupByAll (columns : List String) : Step.Alike (.groupByAll columns) (.groupByAll columns)
  | arm (all : Bool) {inner inner' : Draft} : Draft.Alike inner inner' →
      Step.Alike (.arm all inner) (.arm all inner')
  | orderBy (key : SortKey) : Step.Alike (.orderBy key) (.orderBy key)
  | limit (n : UInt64) : Step.Alike (.limit n) (.limit n)
  | offset (n : UInt64) : Step.Alike (.offset n) (.offset n)
  | page (page size : UInt64) : Step.Alike (.page page size) (.page page size)
  | commonTable (recursive : Bool) (name : String) {inner inner' : Draft} :
      Draft.Alike inner inner' →
      Step.Alike (.commonTable recursive name inner) (.commonTable recursive name inner')
  | count : Step.Alike .count .count

/-- Steps on a filter that differ in bound values only. -/
inductive FilterStep.Alike : FilterStep → FilterStep → Prop
  | equals (c : Connective) (column : String) {v v' : Value} : v.isNull = v'.isNull →
      FilterStep.Alike (.equals c column v) (.equals c column v')
  | equalsOption (column : String) {v v' : Option Value} : Given v v' →
      FilterStep.Alike (.equalsOption column v) (.equalsOption column v')
  | scalar (op : Scalar) (column : String) (v v' : Value) :
      FilterStep.Alike (.scalar op column v) (.scalar op column v')
  | comparison (c : Connective) (column op : String) {operand operand' : Operand Draft} :
      Operand.Alike op operand operand' →
      FilterStep.Alike (.comparison c column op operand) (.comparison c column op operand')
  | notNull (column : String) : FilterStep.Alike (.notNull column) (.notNull column)
  | inList (column : String) {members members' : List Value} (negated : Bool) :
      members.length = members'.length →
      FilterStep.Alike (.inList column members negated) (.inList column members' negated)
  | between (column : String) (low low' high high' : Value) :
      FilterStep.Alike (.between column low high) (.between column low' high')
  | existence {inner inner' : Draft} : Draft.Alike inner inner' →
      FilterStep.Alike (.existence inner) (.existence inner')
  | raw (c : Connective) (sql : String) : FilterStep.Alike (.raw c sql) (.raw c sql)
  | entries {es es' : List (String × Entry Draft)} : Entry.AllAlike es es' →
      FilterStep.Alike (.entries es) (.entries es')
  | group (c : Connective) {steps steps' : List FilterStep} : FilterStep.AllAlike steps steps' →
      FilterStep.Alike (.group c steps) (.group c steps')
  | attempt {step step' : FilterStep} : FilterStep.Alike step step' →
      FilterStep.Alike (.attempt step) (.attempt step')

/-- Lists of steps on a filter that are alike one by one. -/
inductive FilterStep.AllAlike : List FilterStep → List FilterStep → Prop
  | nil : FilterStep.AllAlike [] []
  | cons {step step' : FilterStep} {steps steps' : List FilterStep} :
      FilterStep.Alike step step' → FilterStep.AllAlike steps steps' →
      FilterStep.AllAlike (step :: steps) (step' :: steps')

/-- Operands that differ in bound values only. Where a list is asked for, a single value is an array
in both, of the same length, or in neither. -/
inductive Operand.Alike : String → Operand Draft → Operand Draft → Prop
  | value {op : String} {v v' : Value} :
      (Operator.TakesList op → v.arrayLength? = v'.arrayLength?) →
      Operand.Alike op (.value v) (.value v')
  | list {op : String} {vs vs' : List Value} : vs.length = vs'.length →
      Operand.Alike op (.list vs) (.list vs')
  | query {op : String} {inner inner' : Draft} : Draft.Alike inner inner' →
      Operand.Alike op (.query inner) (.query inner')

/-- Lists of entries that differ in bound values only. -/
inductive Entry.AllAlike : List (String × Entry Draft) → List (String × Entry Draft) → Prop
  | nil : Entry.AllAlike [] []
  | equals (column : String) {v v' : Value} {es es' : List (String × Entry Draft)} :
      v.isNull = v'.isNull → Entry.AllAlike es es' →
      Entry.AllAlike ((column, .equals v) :: es) ((column, .equals v') :: es')
  | isNull (column : String) {es es' : List (String × Entry Draft)} : Entry.AllAlike es es' →
      Entry.AllAlike ((column, .isNull) :: es) ((column, .isNull) :: es')
  | compare (column op : String) {operand operand' : Operand Draft}
      {es es' : List (String × Entry Draft)} :
      Operand.Alike op operand operand' → Entry.AllAlike es es' →
      Entry.AllAlike ((column, .compare op operand) :: es) ((column, .compare op operand') :: es')

end

end Alike

/-- Optional values that are null both, or not null both, or not there both. -/
def NullAlike (v v' : Option Value) : Prop := v.map Value.isNull = v'.map Value.isNull

/-! ## Alike drafts make statements of one shape -/

/-- The shapes of the comparisons that an operator makes with an operand, for every column. -/
def Operand.askedShapes (op : String) (operand : Operand Select) (column : String) :
    Except Fault Predicate :=
  (Predicate.comparison column op operand).map Predicate.shape

/-- What an entry asks of its column, or why it cannot. -/
def Entry.asked (column : String) : Entry Select → Except Fault Predicate
  | .equals v => .ok (.equals column v)
  | .isNull => .ok (.equals column .null)
  | .compare op operand => Predicate.comparison column op operand

/-- The shapes of what entries ask of their columns. -/
def Entry.askedShapes (es : List (String × Entry Select)) : List (Except Fault Predicate) :=
  es.map fun e => (e.2.asked e.1).map Predicate.shape

theorem Entry.askedShapes_cons (column : String) {e e' : Entry Select}
    {es es' : List (String × Entry Select)}
    (h : (e.asked column).map Predicate.shape = (e'.asked column).map Predicate.shape)
    (hes : Entry.askedShapes es = Entry.askedShapes es') :
    Entry.askedShapes ((column, e) :: es) = Entry.askedShapes ((column, e') :: es') := by
  simp only [Entry.askedShapes] at hes ⊢
  rw [List.map_cons, List.map_cons, h, hes]

theorem Filter.addEntry_eq (column : String) (e : Entry Select) :
    Filter.addEntry column e = Filter.addChecked .and (e.asked column) := by
  cases e <;> rfl

theorem Filter.agree_addEntries : (es es' : List (String × Entry Select)) →
    Entry.askedShapes es = Entry.askedShapes es' →
      Filter.Edit.Agree (Filter.addEntries es) (Filter.addEntries es')
  | [], [], _ => Filter.Edit.agree_skip
  | [], _ :: _, h => by cases h
  | _ :: _, [], h => by cases h
  | (column, e) :: es, (column', e') :: es', h => by
    -- entries are added one by one, so edits that agree on each of them agree on all
    have hheads := (List.cons.inj h).1
    have htails := (List.cons.inj h).2
    rw [Filter.addEntries, Filter.addEntries, Filter.addEntry_eq, Filter.addEntry_eq]
    exact (Filter.agree_addChecked .and hheads).andThen (Filter.agree_addEntries es es' htails)

/-- Entries are added once the drafts in them are made. -/
theorem FilterStep.agree_entries {es es' : List (String × Entry Draft)}
    (h : (Draft.makeEntries es).map Entry.askedShapes =
      (Draft.makeEntries es').map Entry.askedShapes) :
    Filter.Edit.Agree (FilterStep.entries es).run (FilterStep.entries es').run := by
  intro f f' hf
  simp only [FilterStep.run]
  -- either no draft list is made and nothing is added, or both are and ask for the same shapes
  rcases except_cases_of_map_eq h with ⟨e, he, he'⟩ | ⟨made, made', hm, hm', hasked⟩
  · rw [he, he']
    exact ⟨rfl, hf⟩
  · rw [hm, hm']
    exact Filter.agree_addEntries made made' hasked f f' hf

/-- A comparison with a draft is checked once the draft is made. -/
theorem FilterStep.run_comparison (c : Connective) (column op : String) (operand : Operand Draft) :
    (FilterStep.comparison c column op operand).run =
      Filter.addChecked c (Draft.makeOperand operand >>= Predicate.comparison column op) := by
  funext f
  simp only [FilterStep.run]
  cases Draft.makeOperand operand with
  | error e => rfl
  | ok operand => simp only [bind, Except.bind, Filter.addComparison]

theorem Filter.agree_addEqualsOption (column : String) : {v v' : Option Value} → NullAlike v v' →
    Filter.Edit.Agree (Filter.addEqualsOption column v) (Filter.addEqualsOption column v')
  | none, none, _ => Filter.Edit.agree_skip
  | some _, some _, h => Filter.agree_add .and (Predicate.shape_equals column (Option.some.inj h))

section Select

variable {s s' : Select}

theorem Select.shape_filter (h : s.shape = s'.shape) : s.filter.shape = s'.filter.shape := by
  rcases s
  rcases s'
  exact congrArg Select.filter h

theorem Select.shape_having (h : s.shape = s'.shape) : s.having.shape = s'.having.shape := by
  rcases s
  rcases s'
  exact congrArg Select.having h

/-- Editing the filters of statements of one shape. -/
theorem Select.shape_editFilter (h : s.shape = s'.shape) {edit edit' : Filter.Edit}
    (hedit : edit.Agree edit') :
    (s.editFilter edit).map Select.shape = (s'.editFilter edit').map Select.shape := by
  obtain ⟨r, g, g', hrun, hrun', hg⟩ := hedit.outcome (Select.shape_filter h)
  simp only [Select.editFilter]
  rw [hrun, hrun']
  -- both edits end in one way, so either both statements are lost or both have new filters
  cases r with
  | error e => rfl
  | ok u =>
      have hset : { s.shape with filter := g.shape } = { s'.shape with filter := g'.shape } := by
        rw [h, hg]
      rcases s
      rcases s'
      exact congrArg Except.ok hset

theorem Select.shape_editHaving (h : s.shape = s'.shape) {edit edit' : Filter.Edit}
    (hedit : edit.Agree edit') :
    (s.editHaving edit).map Select.shape = (s'.editHaving edit').map Select.shape := by
  obtain ⟨r, g, g', hrun, hrun', hg⟩ := hedit.outcome (Select.shape_having h)
  simp only [Select.editHaving]
  rw [hrun, hrun']
  cases r with
  | error e => rfl
  | ok u =>
      have hset : { s.shape with having := g.shape } = { s'.shape with having := g'.shape } := by
        rw [h, hg]
      rcases s
      rcases s'
      exact congrArg Except.ok hset

/-- A change that acts on the shape of a statement keeps statements of one shape together. -/
theorem Select.shape_congr (h : s.shape = s'.shape) {change : Select → Except Fault Select}
    (hchange : ∀ s : Select, (change s).map Select.shape = change s.shape) :
    (change s).map Select.shape = (change s').map Select.shape := by
  rw [hchange, hchange, h]

theorem Select.shape_ok_congr (h : s.shape = s'.shape) (change : Select → Select)
    (hchange : ∀ s : Select, (change s).shape = change s.shape) :
    (Except.ok (change s) : Except Fault Select).map Select.shape =
      (Except.ok (change s')).map Select.shape := by
  apply congrArg Except.ok
  rw [hchange, hchange, h]

variable {t t' : Select}

theorem Select.shape_selectFrom (hs : s.shape = s'.shape) (ht : t.shape = t'.shape)
    (name : String) :
    (s.selectFrom t name).map Select.shape = (s'.selectFrom t' name).map Select.shape :=
  calc (s.selectFrom t name).map Select.shape
      = s.shape.selectFrom t.shape name := Select.recast_selectFrom ..
    _ = s'.shape.selectFrom t'.shape name := by rw [hs, ht]
    _ = (s'.selectFrom t' name).map Select.shape := (Select.recast_selectFrom ..).symm

theorem Select.shape_ofQuery (ht : t.shape = t'.shape) (name : String) :
    (Select.ofQuery t name).map Select.shape = (Select.ofQuery t' name).map Select.shape := by
  -- the outer statement starts with the dialect of the inner one
  have hdialect : t.dialect = t'.dialect := by rw [← dialect_shape t, ht, dialect_shape]
  rw [Select.ofQuery]
  rw [hdialect]
  exact Select.shape_selectFrom rfl ht name

theorem Select.shape_addArm (hs : s.shape = s'.shape) (all : Bool) (ht : t.shape = t'.shape) :
    (s.addArm all t).shape = (s'.addArm all t').shape :=
  calc (s.addArm all t).shape
      = s.shape.addArm all t.shape := Select.recast_addArm ..
    _ = s'.shape.addArm all t'.shape := by rw [hs, ht]
    _ = (s'.addArm all t').shape := (Select.recast_addArm ..).symm

theorem Select.shape_addCommonTable (hs : s.shape = s'.shape) (recursive : Bool) (name : String)
    (ht : t.shape = t'.shape) :
    (s.addCommonTable recursive name t).map Select.shape =
      (s'.addCommonTable recursive name t').map Select.shape :=
  calc (s.addCommonTable recursive name t).map Select.shape
      = s.shape.addCommonTable recursive name t.shape := Select.recast_addCommonTable ..
    _ = s'.shape.addCommonTable recursive name t'.shape := by rw [hs, ht]
    _ = (s'.addCommonTable recursive name t').map Select.shape :=
      (Select.recast_addCommonTable ..).symm

end Select

mutual

/-- Alike drafts fail for the same cause, or make statements of one shape. -/
theorem Draft.Alike.make : {d d' : Draft} → Draft.Alike NullAlike d d' →
    d.make.map Select.shape = d'.make.map Select.shape
  | _, _, .table _ _ _ hsteps => hsteps.runAll rfl
  | _, _, .query name hinner hsteps =>
    except_map_bind_congr hinner.make fun _ _ ht =>
      except_map_bind_congr (Select.shape_ofQuery ht name) fun _ _ hs => hsteps.runAll hs

theorem Step.AllAlike.runAll : {steps steps' : List Step} → Step.AllAlike NullAlike steps steps' →
    {s s' : Select} → s.shape = s'.shape →
      (Step.runAll steps s).map Select.shape = (Step.runAll steps' s').map Select.shape
  | _, _, .nil, _, _, hs => congrArg Except.ok hs
  | _, _, .cons hstep hsteps, _, _, hs =>
    except_map_bind_congr (hstep.run hs) fun _ _ ht => hsteps.runAll ht

theorem Step.Alike.run : {step step' : Step} → Step.Alike NullAlike step step' →
    {s s' : Select} → s.shape = s'.shape →
      (step.run s).map Select.shape = (step'.run s').map Select.shape
  | _, _, .dialect d, _, _, hs =>
    -- steps without values act on shapes: to forget and to change is to change and to forget
    Select.shape_ok_congr hs (fun s => s.withDialect d) fun s => by cases s; rfl
  | _, _, .columns names, _, _, hs =>
    Select.shape_congr hs fun s => s.recast_selectColumns _ _ names
  | _, _, .column name, _, _, hs => Select.shape_congr hs fun s => s.recast_addColumn _ _ name
  | _, _, .selectFrom name hinner, _, _, hs =>
    -- steps that embed a statement make it first, from drafts that are alike in turn
    except_map_bind_congr hinner.make fun _ _ ht => Select.shape_selectFrom hs ht name
  | _, _, .join j, _, _, hs =>
    Select.shape_ok_congr hs (fun s => s.addJoin j) fun s => by cases s; rfl
  | _, _, .filter hstep, _, _, hs => Select.shape_editFilter hs hstep.run
  | _, _, .having hstep, _, _, hs => Select.shape_editHaving hs hstep.run
  | _, _, .groupBy column, _, _, hs => Select.shape_congr hs fun s => s.recast_groupBy _ _ column
  | _, _, .groupByAll columns, _, _, hs =>
    Select.shape_congr hs fun s => s.recast_groupByAll _ _ columns
  | _, _, .arm all hinner, _, _, hs =>
    except_map_bind_congr hinner.make fun _ _ ht =>
      congrArg Except.ok (Select.shape_addArm hs all ht)
  | _, _, .orderBy key, _, _, hs =>
    Select.shape_ok_congr hs (fun s => s.orderBy key) fun s => by cases s; rfl
  | _, _, .limit n, _, _, hs =>
    Select.shape_ok_congr hs (fun s => s.setLimit n) fun s => by cases s; rfl
  | _, _, .offset n, _, _, hs =>
    Select.shape_ok_congr hs (fun s => s.setOffset n) fun s => by cases s; rfl
  | _, _, .page page size, _, _, hs =>
    Select.shape_ok_congr hs (fun s => s.paginate page size) fun s => by cases s; rfl
  | _, _, .commonTable recursive name hinner, _, _, hs =>
    except_map_bind_congr hinner.make fun _ _ ht =>
      Select.shape_addCommonTable hs recursive name ht
  | _, _, .count, _, _, hs =>
    Select.shape_ok_congr hs Select.count fun s => s.recast_count _ _

theorem FilterStep.Alike.run : {step step' : FilterStep} → FilterStep.Alike NullAlike step step' →
    Filter.Edit.Agree step.run step'.run
  -- an equality asks its value only whether it is null
  | _, _, .equals c column h => Filter.agree_add c (Predicate.shape_equals column h)
  | _, _, .equalsOption column h => Filter.agree_addEqualsOption column h
  | _, _, .scalar op column v v' => Filter.agree_add .and rfl
  | _, _, .comparison c column op hoperand => by
    -- the operand is made first, and the comparison sees no more of it than its shape
    rw [FilterStep.run_comparison, FilterStep.run_comparison]
    exact Filter.agree_addChecked c (except_map_bind_congr hoperand.make fun _ _ h =>
      congrFun h column)
  | _, _, .notNull column => Filter.agree_add .and rfl
  | _, _, .inList column negated h =>
    Filter.agree_add .and (Predicate.shape_inList column negated h)
  | _, _, .between column low low' high high' => Filter.agree_add .and rfl
  | _, _, .existence hinner =>
    Filter.agree_addChecked .and (except_map_map_congr hinner.make fun _ _ h =>
      congrArg Predicate.existence h)
  | _, _, .raw c sql => Filter.agree_add c rfl
  | _, _, .entries hes => FilterStep.agree_entries hes.make
  | _, _, .group c hsteps => hsteps.runAll.addGroup c
  | _, _, .attempt hstep => hstep.run.attempt

theorem FilterStep.AllAlike.runAll : {steps steps' : List FilterStep} →
    FilterStep.AllAlike NullAlike steps steps' →
      Filter.Edit.Agree (FilterStep.runAll steps) (FilterStep.runAll steps')
  | _, _, .nil => Filter.Edit.agree_skip
  | _, _, .cons hstep hsteps => hstep.run.andThen hsteps.runAll

theorem Operand.Alike.make {op : String} : {operand operand' : Operand Draft} →
    Operand.Alike NullAlike op operand operand' →
      (Draft.makeOperand operand).map (Operand.askedShapes op) =
        (Draft.makeOperand operand').map (Operand.askedShapes op)
  | _, _, .value h => congrArg Except.ok <| funext fun column =>
    -- whether the operator takes a list is known from its text, so the relation can ask for it
    Predicate.shape_comparison column op fun o ho =>
      Predicate.shape_ofOperand?_value column fun hshape => h ⟨o, ho, hshape⟩
  | _, _, .list h => congrArg Except.ok <| funext fun column =>
    Predicate.shape_comparison column op fun _ _ => Predicate.shape_ofOperand?_members column h
  | _, _, .query hinner => except_map_map_congr hinner.make fun _ _ h => funext fun column =>
    Predicate.shape_comparison column op fun _ _ => Predicate.shape_ofOperand?_query column h

theorem Entry.AllAlike.make : {es es' : List (String × Entry Draft)} →
    Entry.AllAlike NullAlike es es' →
      (Draft.makeEntries es).map Entry.askedShapes = (Draft.makeEntries es').map Entry.askedShapes
  | _, _, .nil => rfl
  | _, _, .equals column h hes => except_map_bind_congr hes.make fun _ _ ht =>
    congrArg Except.ok
      (Entry.askedShapes_cons column (congrArg Except.ok (Predicate.shape_equals column h)) ht)
  | _, _, .isNull column hes => except_map_bind_congr hes.make fun _ _ ht =>
    congrArg Except.ok (Entry.askedShapes_cons column rfl ht)
  | _, _, .compare column op hoperand hes =>
    except_map_bind_congr hoperand.make fun _ _ ho => except_map_bind_congr hes.make fun _ _ ht =>
      congrArg Except.ok (Entry.askedShapes_cons column (congrFun ho column) ht)

end

/-! ## Alike drafts have one text -/

namespace Draft

/-- Two drafts fail for the same cause, or make statements that are written alike and have equally
many parameters. -/
def SameText (d d' : Draft) : Prop :=
  (∃ e, d.make = .error e ∧ d'.make = .error e) ∨
    ∃ s s', d.make = .ok s ∧ d'.make = .ok s' ∧ s.query.sql = s'.query.sql ∧
      s.query.params.length = s'.query.params.length

/-- Bound values do not reach the text. Drafts that differ in values only fail alike, or are written
alike, as long as the value of an equality, given as an option or not, is null in both or in
neither, and lists and the arrays that stand for lists are of one length in both. -/
theorem sameText_of_alike {d d' : Draft} (h : Draft.Alike NullAlike d d') : d.SameText d' := by
  rcases except_cases_of_map_eq h.make with ⟨e, he, he'⟩ | ⟨s, s', hs, hs', hshape⟩
  · exact .inl ⟨e, he, he'⟩
  · obtain ⟨hsql, hparams, -⟩ := Select.query_eq_of_shape hshape
    exact .inr ⟨s, s', hs, hs', hsql, hparams⟩

/-- A draft with values in a list, an array, a group, an optional equality and a subquery. -/
def sprinkled (v w : Value) : Draft :=
  .query (.table .postgres none "u" [.filter (.scalar .atLeast "k" v)]) "s"
    [.filter (.comparison .and "a" "not  in" (.value (.array [v, w, v]))),
      .filter (.group .or [.inList "b" [w, v] false, .equalsOption "c" (some w)]),
      .having (.entries [("d", .compare "=" (.value w)), ("e", .isNull)]),
      .arm true (.table .mysql (some 5) "x" [.filter (.equals .and "f" v), .count])]

theorem sameText_sprinkled :
    (sprinkled (.int 7) (.text "?")).Alike NullAlike (sprinkled (.bool true) (.array [])) ∧
      (sprinkled (.int 7) (.text "?")).SameText (sprinkled (.bool true) (.array [])) := by
  -- `=` takes no list, so an array and a truth value are alike behind it
  have hequal : ¬ Operator.TakesList "=" := by
    rintro ⟨o, ho, hlist⟩
    obtain rfl : Operator.equal = o := Except.ok.inj ho
    revert hlist
    decide
  have h : (sprinkled (.int 7) (.text "?")).Alike NullAlike
      (sprinkled (.bool true) (.array [])) := by
    refine .query _ (.table _ _ _ (.cons (.filter (.scalar ..)) .nil)) ?_
    refine .cons (.filter (.comparison _ _ _ (.value fun _ => rfl))) ?_
    refine .cons (.filter (.group _ (.cons (.inList _ _ rfl) ?_))) ?_
    · exact .cons (.equalsOption _ rfl) .nil
    refine .cons (.having (.entries (.compare _ _ (.value fun h => absurd h hequal) ?_))) ?_
    · exact .isNull _ .nil
    refine .cons (.arm _ (.table _ _ _ (.cons (.filter (.equals _ _ rfl)) ?_))) .nil
    exact .cons .count .nil
  exact ⟨h, sameText_of_alike h⟩

/-- An optional equality with a value that is there asks for another comparison when the value is
null, so it is not enough that there are values in both. -/
theorem not_sameText_of_given :
    ¬ ∀ d d' : Draft, Draft.Alike (fun v v' => v.isSome = v'.isSome) d d' → d.SameText d' := by
  intro h
  have halike : Draft.Alike (fun v v' => v.isSome = v'.isSome)
      (.table .postgres none "t" [.filter (.equalsOption "c" (some (.int 1)))])
      (.table .postgres none "t" [.filter (.equalsOption "c" (some .null))]) :=
    .table _ _ _ (.cons (.filter (.equalsOption _ rfl)) .nil)
  rcases h _ _ halike with ⟨e, he, -⟩ | ⟨s, s', hs, hs', hsql, -⟩
  · cases he
  · cases hs
    cases hs'
    revert hsql
    decide

end Draft

end BoundSelect
