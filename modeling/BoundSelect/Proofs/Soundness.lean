import BoundSelect.Draft

/-!
# What every made statement satisfies

A statement can only be made step by step, and each step checks what it is given. So every statement
that a draft makes is sound, at every depth (`Draft.make_sound`): the names in it have passed their
checks, no group is empty, and a comparison has an operator that takes a single value.

An edit keeps filters sound even when it fails half way, because a failure can be passed over and
what was added before it stays.
-/

set_option autoImplicit false

namespace BoundSelect

/-! ## Sound statements -/

/-- A name that says something and does not hold the character with code point zero. -/
def ProperName (name : String) : Prop :=
  name.toList.all Text.isBlank = false ∧ '\x00' ∉ name.toList

instance (name : String) : Decidable (ProperName name) :=
  inferInstanceAs (Decidable (_ ∧ _))

mutual

/-- The names of a statement are proper, its groups not empty and its operators suited. -/
def Select.Sound : Select → Prop
  | { columns, source, filter, groups, having, arms, commonTables, .. } =>
    CommonTable.Sound commonTables ∧ (∀ c ∈ columns, ProperName c) ∧ source.Sound ∧ filter.Sound ∧
      (∀ g ∈ groups, ProperName g) ∧ having.Sound ∧ Arm.Sound arms

/-- A source whose name, if it has one, is proper. -/
def Source.Sound : Source → Prop
  | .table _ => True
  | .query s name => s.Sound ∧ ProperName name

/-- Sound common tables. -/
def CommonTable.Sound : List CommonTable → Prop
  | [] => True
  | ⟨name, s, _⟩ :: ts => ProperName name ∧ s.Sound ∧ CommonTable.Sound ts

/-- Sound arms. -/
def Arm.Sound : List Arm → Prop
  | [] => True
  | ⟨_, s⟩ :: arms => s.Sound ∧ Arm.Sound arms

/-- A sound filter. It may be empty. -/
def Filter.Sound : Filter → Prop
  | ⟨ts⟩ => Term.Sound ts

/-- Sound terms. -/
def Term.Sound : List Term → Prop
  | [] => True
  | ⟨_, p⟩ :: ts => p.Sound ∧ Term.Sound ts

/-- A sound predicate. -/
def Predicate.Sound : Predicate → Prop
  | .compare _ op _ => op.shape = .single
  | .compareQuery _ op s => op.shape = .single ∧ s.Sound
  | .inQuery _ s _ => s.Sound
  | .existence s => s.Sound
  | .group inside => inside.terms ≠ [] ∧ inside.Sound
  | .isNull .. | .inList .. | .between .. | .raw _ => True

end

theorem Term.sound_iff_forall {ts : List Term} :
    Term.Sound ts ↔ ∀ t ∈ ts, t.predicate.Sound := by
  induction ts with
  | nil => exact ⟨fun _ _ ht => absurd ht List.not_mem_nil, fun _ => trivial⟩
  | cons t ts ih =>
      obtain ⟨c, p⟩ := t
      rw [Term.Sound, ih, List.forall_mem_cons]

theorem Arm.sound_iff_forall {arms : List Arm} :
    Arm.Sound arms ↔ ∀ arm ∈ arms, arm.statement.Sound := by
  induction arms with
  | nil => exact ⟨fun _ _ ht => absurd ht List.not_mem_nil, fun _ => trivial⟩
  | cons arm arms ih =>
      obtain ⟨all, s⟩ := arm
      rw [Arm.Sound, ih, List.forall_mem_cons]

theorem CommonTable.sound_iff_forall {ts : List CommonTable} :
    CommonTable.Sound ts ↔ ∀ t ∈ ts, ProperName t.name ∧ t.statement.Sound := by
  induction ts with
  | nil => exact ⟨fun _ _ ht => absurd ht List.not_mem_nil, fun _ => trivial⟩
  | cons t ts ih =>
      obtain ⟨name, s, recursive⟩ := t
      rw [CommonTable.Sound, ih, List.forall_mem_cons, and_assoc]

/-! ## Attempts whose results satisfy something -/

/-- What the attempt gives, if it gives something, satisfies `P`. -/
def Gives {α : Type} (P : α → Prop) (x : Except Fault α) : Prop :=
  ∀ a, x = .ok a → P a

section Gives

variable {α β : Type} {P : α → Prop} {Q : β → Prop}

theorem gives_ok {a : α} (h : P a) : Gives P (.ok a) := by
  intro b hb
  cases hb
  exact h

theorem gives_error (e : Fault) : Gives P (.error e) := by
  intro b hb
  cases hb

theorem Gives.bind {x : Except Fault α} (hx : Gives P x) {f : α → Except Fault β}
    (hf : ∀ a, P a → Gives Q (f a)) : Gives Q (x >>= f) := by
  cases x with
  | error e => exact gives_error e
  | ok a => exact hf a (hx a rfl)

/-- Where the first of two attempts only decides whether the second is made. -/
theorem gives_bind {x : Except Fault α} {f : α → Except Fault β} (hf : ∀ a, Gives Q (f a)) :
    Gives Q (x >>= f) := by
  cases x with
  | error e => exact gives_error e
  | ok a => exact hf a

theorem Gives.map {x : Except Fault α} (hx : Gives P x) {f : α → β}
    (hf : ∀ a, P a → Q (f a)) : Gives Q (x.map f) := by
  cases x with
  | error e => exact gives_error e
  | ok a => exact gives_ok (hf a (hx a rfl))

end Gives

/-! ## Predicates and edits -/

theorem Term.sound_append {ts us : List Term} (hts : Term.Sound ts) (hus : Term.Sound us) :
    Term.Sound (ts ++ us) := by
  rw [Term.sound_iff_forall, List.forall_mem_append]
  exact ⟨Term.sound_iff_forall.1 hts, Term.sound_iff_forall.1 hus⟩

namespace Operand

/-- An operand whose statement, if it is one, is sound. -/
def Sound : Operand Select → Prop
  | .query s => s.Sound
  | .value _ | .list _ => True

end Operand

namespace Predicate

theorem sound_equals (column : String) (v : Value) : (equals column v).Sound := by
  rw [equals]
  split
  · trivial
  · rfl

/-- What a comparison can be: its operand is of the shape that the operator takes. -/
theorem ofOperand?_cases {column : String} {op : Operator} {operand : Operand Select}
    {p : Predicate} (hp : ofOperand? column op operand = some p) :
    (∃ v, op.shape = .single ∧ operand = .value v ∧ p = .compare column op v) ∨
      (∃ s, op.shape = .single ∧ operand = .query s ∧ p = .compareQuery column op s) ∨
      (∃ s, op.shape = .list ∧ operand = .query s ∧ p = .inQuery column s (op = .nonMember)) ∨
      (∃ vs, op.shape = .list ∧ operand.members? = some vs ∧
        p = .inList column vs (op = .nonMember)) ∨
      (∃ low high, op.shape = .pair ∧ operand.members? = some [low, high] ∧
        p = .between column low high) ∨
      ∃ s, op.shape = .query ∧ operand = .query s ∧ p = .existence s := by
  unfold ofOperand? at hp
  split at hp
  -- a value or a statement, which the operator takes as its single operand
  · next v hop => exact .inl ⟨v, hop, rfl, (Option.some.inj hp).symm⟩
  · next s hop => exact .inr (.inl ⟨s, hop, rfl, (Option.some.inj hp).symm⟩)
  · cases hp
  -- a statement, or members, that the operator takes as a list
  · next s hop => exact .inr (.inr (.inl ⟨s, hop, rfl, (Option.some.inj hp).symm⟩))
  · next hop _ =>
      obtain ⟨vs, hvs, rfl⟩ := Option.map_eq_some_iff.1 hp
      exact .inr (.inr (.inr (.inl ⟨vs, hop, hvs, rfl⟩)))
  -- exactly two members for a range
  · next hop =>
      split at hp
      · next low high hpair =>
          exact .inr (.inr (.inr (.inr (.inl ⟨low, high, hop, hpair, (Option.some.inj hp).symm⟩))))
      · cases hp
  · next s hop =>
      exact .inr (.inr (.inr (.inr (.inr ⟨s, hop, rfl, (Option.some.inj hp).symm⟩))))
  · cases hp

/-- A comparison is made only with an operand of the shape that its operator takes. -/
theorem sound_ofOperand? {column : String} {op : Operator} {operand : Operand Select}
    (h : operand.Sound) {p : Predicate} (hp : ofOperand? column op operand = some p) : p.Sound := by
  rcases ofOperand?_cases hp with ⟨v, hop, -, rfl⟩ | ⟨s, hop, rfl, rfl⟩ | ⟨s, -, rfl, rfl⟩ |
    ⟨vs, -, -, rfl⟩ | ⟨low, high, -, -, rfl⟩ | ⟨s, -, rfl, rfl⟩
  · exact hop
  · exact ⟨hop, h⟩
  · exact h
  · trivial
  · trivial
  · exact h

/-- A comparison that is made has the operator that the text names. -/
theorem ofOperand?_of_comparison {column op : String} {operand : Operand Select} {p : Predicate}
    (hp : comparison column op operand = .ok p) :
    ∃ o, Operator.parse? op = some o ∧ ofOperand? column o operand = some p := by
  unfold comparison Operator.parse at hp
  cases hop : Operator.parse? op with
  | none => simp [hop, bind, Except.bind] at hp
  | some o =>
      simp only [hop, bind, Except.bind] at hp
      refine ⟨o, rfl, ?_⟩
      split at hp
      · next q hq => rw [hq, Except.ok.inj hp]
      · cases hp

theorem sound_comparison (column op : String) {operand : Operand Select} (h : operand.Sound) :
    Gives Sound (comparison column op operand) := by
  intro p hp
  obtain ⟨o, -, hmade⟩ := ofOperand?_of_comparison hp
  exact sound_ofOperand? h hmade

end Predicate

namespace Filter

theorem sound_push (c : Connective) {p : Predicate} {f : Filter} (hp : p.Sound) (hf : f.Sound) :
    (f.push c p).Sound := by
  obtain ⟨ts⟩ := f
  exact Term.sound_append hf ⟨hp, trivial⟩

/-- An edit that keeps a property of filters, whether it succeeds or not. -/
def Edit.Keeps (Q : Filter → Prop) (e : Edit) : Prop := ∀ f : Filter, Q f → Q (e f).2

section Keeps

variable {Q : Filter → Prop}

theorem Edit.keeps_skip : Edit.Keeps Q fun f => (.ok (), f) := fun _ h => h

/-- Adding a predicate keeps what the predicate cannot break. -/
theorem keeps_addChecked (c : Connective) {p : Except Fault Predicate}
    (h : Gives (fun p => ∀ f, Q f → Q (f.push c p)) p) : Edit.Keeps Q (addChecked c p) := by
  intro f hf
  cases p with
  | error e => exact hf
  | ok p => exact h p rfl f hf

theorem Edit.Keeps.andThen {first second : Edit} (hfirst : first.Keeps Q)
    (hsecond : second.Keeps Q) : (first.andThen second).Keeps Q := by
  intro f hf
  have hleft : Q (first f).2 := hfirst f hf
  rw [Edit.andThen]
  revert hleft
  -- where the first edit fails, what it left has the property already
  rcases first f with ⟨_ | _, g⟩
  · exact id
  · exact hsecond g

theorem Edit.Keeps.attempt {edit : Edit} (h : edit.Keeps Q) : edit.attempt.Keeps Q := h

/-- A group is added only when something is in it. -/
theorem Edit.Keeps.addGroup (c : Connective) {configure : Edit} (h : configure.Keeps Q)
    (hempty : Q empty)
    (hgroup : ∀ f g : Filter, Q f → Q g → g.terms ≠ [] → Q (f.push c (.group g))) :
    Edit.Keeps Q (Filter.addGroup c configure) := by
  intro f hf
  have hinside : Q (configure empty).2 := h empty hempty
  rw [Filter.addGroup]
  revert hinside
  -- only an edit that succeeds and leaves a term behind makes a group
  rcases configure empty with ⟨_ | _, ⟨_ | ⟨t, ts⟩⟩⟩
  · exact fun _ => hf
  · exact fun _ => hf
  · exact fun _ => hf
  · exact fun hinside => hgroup f ⟨t :: ts⟩ hf hinside (by simp)

end Keeps

theorem keepsSound_addChecked (c : Connective) {p : Except Fault Predicate}
    (hp : Gives Predicate.Sound p) : Edit.Keeps Sound (addChecked c p) :=
  keeps_addChecked c fun p hmade _ hf => sound_push c (hp p hmade) hf

theorem keepsSound_add (c : Connective) {p : Predicate} (hp : p.Sound) :
    Edit.Keeps Sound (add c p) :=
  keepsSound_addChecked c (gives_ok hp)

theorem keepsSound_addGroup (c : Connective) {configure : Edit} (h : configure.Keeps Sound) :
    Edit.Keeps Sound (addGroup c configure) :=
  h.addGroup c trivial fun _ _ hf hg hne => sound_push c ⟨hne, hg⟩ hf

end Filter

/-! ## Changes to statements -/

theorem Arm.sound_append {arms more : List Arm} (harms : Arm.Sound arms) (hmore : Arm.Sound more) :
    Arm.Sound (arms ++ more) := by
  rw [Arm.sound_iff_forall, List.forall_mem_append]
  exact ⟨Arm.sound_iff_forall.1 harms, Arm.sound_iff_forall.1 hmore⟩

theorem CommonTable.sound_append {ts us : List CommonTable} (hts : CommonTable.Sound ts)
    (hus : CommonTable.Sound us) : CommonTable.Sound (ts ++ us) := by
  rw [CommonTable.sound_iff_forall, List.forall_mem_append]
  exact ⟨CommonTable.sound_iff_forall.1 hts, CommonTable.sound_iff_forall.1 hus⟩

theorem NameUse.properName_of_check {use : NameUse} {name : String} :
    Gives (fun _ => ProperName name) (use.check name) := by
  intro u hu
  unfold NameUse.check at hu
  split at hu
  · cases hu
  · split at hu
    · cases hu
    · next hblank hnul => exact ⟨Bool.eq_false_iff.2 hblank, hnul⟩

theorem gives_forM_check {use : NameUse} {names : List String} :
    Gives (fun _ => ∀ name ∈ names, ProperName name) (names.forM (use.check ·)) := by
  induction names with
  | nil => exact gives_ok (by simp)
  | cons name names ih =>
      change Gives _ (use.check name >>= fun _ => names.forM (use.check ·))
      -- the first name has passed, and so have the others if the rest succeeds
      refine NameUse.properName_of_check.bind ?_
      intro u hname w hw m hm
      rcases List.mem_cons.1 hm with rfl | hm
      · exact hname
      · exact ih w hw m hm

namespace Select

variable {s t : Select}

theorem sound_ofTable (dialect : Dialect) (table : String) (defaultLimit : Option UInt64) :
    (ofTable dialect table defaultLimit).Sound := by
  simp [ofTable, Filter.empty, Select.Sound, CommonTable.Sound, Source.Sound, Filter.Sound,
    Term.Sound, Arm.Sound]

theorem sound_selectFrom (hs : s.Sound) (ht : t.Sound) (name : String) :
    Gives Sound (s.selectFrom t name) := by
  refine NameUse.properName_of_check.bind ?_
  intro u hname
  apply gives_ok
  rcases s
  obtain ⟨htables, hcolumns, -, hrest⟩ := hs
  exact ⟨htables, hcolumns, ⟨ht, hname⟩, hrest⟩

theorem sound_ofQuery (ht : t.Sound) (name : String) : Gives Sound (ofQuery t name) :=
  sound_selectFrom (sound_ofTable ..) ht name

theorem sound_selectColumns (hs : s.Sound) (columns : List String) :
    Gives Sound (s.selectColumns columns) := by
  refine gives_forM_check.bind ?_
  intro u hcolumns
  apply gives_ok
  rcases s
  obtain ⟨htables, -, hrest⟩ := hs
  exact ⟨htables, hcolumns, hrest⟩

/-- Adding a proper name to proper names. -/
theorem properName_of_mem_append {names : List String} {name : String}
    (hnames : ∀ m ∈ names, ProperName m) (hname : ProperName name) :
    ∀ m ∈ names ++ [name], ProperName m := by
  intro m hm
  rcases List.mem_append.1 hm with hm | hm
  · exact hnames m hm
  · exact List.mem_singleton.1 hm ▸ hname

theorem sound_addColumn (hs : s.Sound) (column : String) : Gives Sound (s.addColumn column) := by
  refine NameUse.properName_of_check.bind ?_
  intro u hcolumn
  apply gives_ok
  rcases s
  obtain ⟨htables, hcolumns, hrest⟩ := hs
  exact ⟨htables, properName_of_mem_append hcolumns hcolumn, hrest⟩

theorem sound_groupBy (hs : s.Sound) (column : String) : Gives Sound (s.groupBy column) := by
  refine NameUse.properName_of_check.bind ?_
  intro u hcolumn
  apply gives_ok
  rcases s
  obtain ⟨htables, hcolumns, hsource, hfilter, hgroups, hrest⟩ := hs
  exact ⟨htables, hcolumns, hsource, hfilter, properName_of_mem_append hgroups hcolumn, hrest⟩

theorem sound_groupByAll (hs : s.Sound) (columns : List String) :
    Gives Sound (s.groupByAll columns) := by
  rw [groupByAll]
  induction columns generalizing s with
  | nil => exact gives_ok hs
  | cons column columns ih =>
      rw [List.foldlM_cons]
      exact (sound_groupBy hs column).bind fun t ht => ih ht

theorem sound_editFilter (hs : s.Sound) {edit : Filter.Edit}
    (hedit : edit.Keeps Filter.Sound) :
    Gives Sound (s.editFilter edit) := by
  rcases s
  obtain ⟨htables, hcolumns, hsource, hfilter, hrest⟩ := hs
  have hleft := hedit _ hfilter
  rw [editFilter]
  -- a failed edit is not seen: the statement is gone with it
  split
  · next f hrun =>
      rw [hrun] at hleft
      exact gives_ok ⟨htables, hcolumns, hsource, hleft, hrest⟩
  · exact gives_error _

theorem sound_editHaving (hs : s.Sound) {edit : Filter.Edit}
    (hedit : edit.Keeps Filter.Sound) :
    Gives Sound (s.editHaving edit) := by
  rcases s
  obtain ⟨htables, hcolumns, hsource, hfilter, hgroups, hhaving, harms⟩ := hs
  have hleft := hedit _ hhaving
  rw [editHaving]
  split
  · next f hrun =>
      rw [hrun] at hleft
      exact gives_ok ⟨htables, hcolumns, hsource, hfilter, hgroups, hleft, harms⟩
  · exact gives_error _

theorem sound_addArm (hs : s.Sound) (all : Bool) (ht : t.Sound) : (s.addArm all t).Sound := by
  rcases s
  obtain ⟨htables, hcolumns, hsource, hfilter, hgroups, hhaving, harms⟩ := hs
  exact ⟨htables, hcolumns, hsource, hfilter, hgroups, hhaving,
    Arm.sound_append harms ⟨ht, trivial⟩⟩

theorem sound_addCommonTable (hs : s.Sound) (recursive : Bool) (name : String) (ht : t.Sound) :
    Gives Sound (s.addCommonTable recursive name t) := by
  refine NameUse.properName_of_check.bind ?_
  intro u hname
  apply gives_ok
  rcases s
  obtain ⟨htables, hrest⟩ := hs
  exact ⟨CommonTable.sound_append htables ⟨hname, ht, trivial⟩, hrest⟩

/-- The columns of a count and the name of its source are proper. -/
theorem sound_count (hs : s.Sound) : s.count.Sound := by
  have hcolumn : ∀ c ∈ [countColumn], ProperName c := by decide
  have hconstant : ∀ c ∈ ["1"], ProperName c := by decide
  rcases s
  obtain ⟨htables, hcolumns, hsource, hfilter, hgroups, hhaving, harms⟩ := hs
  rw [count]
  split
  -- counted in place: only the columns change
  · exact ⟨htables, hcolumn, hsource, hfilter, hgroups, hhaving, harms⟩
  -- counted from outside: the statement moves into the source, without its common tables
  · refine ⟨htables, hcolumn, ⟨?_, by decide⟩, trivial, by simp [ofTable], trivial, trivial⟩
    refine ⟨trivial, ?_, hsource, hfilter, hgroups, hhaving, harms⟩
    rw [countedColumns]
    split
    · exact hcolumns
    · exact hconstant

end Select

/-! ## Drafts -/

namespace Entry

/-- An entry whose operand, if it has one, is sound. -/
def Sound : Entry Select → Prop
  | .compare _ operand => operand.Sound
  | .equals _ | .isNull => True

end Entry

namespace Filter

theorem keepsSound_addEqualsOption (column : String) (v : Option Value) :
    Edit.Keeps Sound (addEqualsOption column v) := by
  cases v with
  | none => exact Edit.keeps_skip
  | some v => exact keepsSound_add .and (Predicate.sound_equals column v)

theorem keepsSound_addEntry (column : String) {e : Entry Select} (h : e.Sound) :
    Edit.Keeps Sound (addEntry column e) := by
  cases e with
  | equals v => exact keepsSound_add .and (Predicate.sound_equals column v)
  | isNull => exact keepsSound_add .and (Predicate.sound_equals column .null)
  | compare op operand =>
      exact keepsSound_addChecked .and (Predicate.sound_comparison column op h)

theorem keepsSound_addEntries {es : List (String × Entry Select)} (h : ∀ e ∈ es, e.2.Sound) :
    Edit.Keeps Sound (addEntries es) := by
  induction es with
  | nil => exact Edit.keeps_skip
  | cons e es ih =>
      have hfirst : Edit.Keeps Sound (addEntry e.1 e.2) :=
        keepsSound_addEntry e.1 (h e List.mem_cons_self)
      exact hfirst.andThen (ih fun e' he' => h e' (List.mem_cons_of_mem _ he'))

end Filter

mutual

/-- Every statement that a draft makes is sound. -/
theorem Draft.make_sound : (d : Draft) → Gives Select.Sound d.make
  | .table _ _ _ steps => Step.runAll_sound steps (Select.sound_ofTable ..)
  | .query inner name steps =>
    (Draft.make_sound inner).bind fun _ ht =>
      (Select.sound_ofQuery ht name).bind fun _ hs => Step.runAll_sound steps hs

theorem Step.runAll_sound : (steps : List Step) → {s : Select} → s.Sound →
    Gives Select.Sound (Step.runAll steps s)
  | [], _, hs => gives_ok hs
  | step :: steps, _, hs => (Step.run_sound step hs).bind fun _ ht => Step.runAll_sound steps ht

theorem Step.run_sound : (step : Step) → {s : Select} → s.Sound → Gives Select.Sound (step.run s)
  | .dialect _, s, hs => gives_ok (by cases s; exact hs)
  | .columns names, _, hs => Select.sound_selectColumns hs names
  | .column name, _, hs => Select.sound_addColumn hs name
  | .selectFrom inner name, _, hs =>
    (Draft.make_sound inner).bind fun _ ht => Select.sound_selectFrom hs ht name
  | .join _, s, hs => gives_ok (by cases s; exact hs)
  | .filter step, _, hs => Select.sound_editFilter hs (FilterStep.run_keepsSound step)
  | .having step, _, hs => Select.sound_editHaving hs (FilterStep.run_keepsSound step)
  | .groupBy column, _, hs => Select.sound_groupBy hs column
  | .groupByAll columns, _, hs => Select.sound_groupByAll hs columns
  | .arm all inner, _, hs =>
    (Draft.make_sound inner).bind fun _ ht => gives_ok (Select.sound_addArm hs all ht)
  | .orderBy _, s, hs => gives_ok (by cases s; exact hs)
  | .limit _, s, hs => gives_ok (by cases s; exact hs)
  | .offset _, s, hs => gives_ok (by cases s; exact hs)
  | .page _ _, s, hs => gives_ok (by cases s; exact hs)
  | .commonTable recursive name inner, _, hs =>
    (Draft.make_sound inner).bind fun _ ht => Select.sound_addCommonTable hs recursive name ht
  | .count, _, hs => gives_ok (Select.sound_count hs)

theorem FilterStep.run_keepsSound : (step : FilterStep) → step.run.Keeps Filter.Sound
  | .equals c column v => Filter.keepsSound_add c (Predicate.sound_equals column v)
  | .equalsOption column v => Filter.keepsSound_addEqualsOption column v
  | .scalar op column v => Filter.keepsSound_add .and (by cases op <;> rfl)
  | .comparison c column op operand => by
    have h := Draft.makeOperand_sound operand
    -- the statement of the operand is made first; where that fails nothing is added
    intro f hf
    simp only [FilterStep.run]
    cases hmade : Draft.makeOperand operand with
    | error e => exact hf
    | ok made =>
        have hcomparison := Predicate.sound_comparison column op (h made hmade)
        exact Filter.keepsSound_addChecked c hcomparison f hf
  | .notNull column => Filter.keepsSound_add .and trivial
  | .inList column members negated => Filter.keepsSound_add .and trivial
  | .between column low high => Filter.keepsSound_add .and trivial
  | .existence inner =>
    Filter.keepsSound_addChecked .and ((Draft.make_sound inner).map fun _ hs => hs)
  | .raw c sql => Filter.keepsSound_add c trivial
  | .entries es => by
    have h := Draft.makeEntries_sound es
    intro f hf
    simp only [FilterStep.run]
    cases hmade : Draft.makeEntries es with
    | error e => exact hf
    | ok made => exact Filter.keepsSound_addEntries (h made hmade) f hf
  | .group c steps => Filter.keepsSound_addGroup c (FilterStep.runAll_keepsSound steps)
  | .attempt step => (FilterStep.run_keepsSound step).attempt

theorem FilterStep.runAll_keepsSound : (steps : List FilterStep) →
    (FilterStep.runAll steps).Keeps Filter.Sound
  | [] => Filter.Edit.keeps_skip
  | step :: steps => (FilterStep.run_keepsSound step).andThen (FilterStep.runAll_keepsSound steps)

theorem Draft.makeOperand_sound : (operand : Operand Draft) →
    Gives Operand.Sound (Draft.makeOperand operand)
  | .value _ => gives_ok trivial
  | .list _ => gives_ok trivial
  | .query d => (Draft.make_sound d).map fun _ hs => hs

theorem Draft.makeEntries_sound : (es : List (String × Entry Draft)) →
    Gives (fun made => ∀ e ∈ made, e.2.Sound) (Draft.makeEntries es)
  | [] => gives_ok (by simp)
  | (_, .equals _) :: es =>
    (Draft.makeEntries_sound es).bind fun _ h => gives_ok (List.forall_mem_cons.2 ⟨trivial, h⟩)
  | (_, .isNull) :: es =>
    (Draft.makeEntries_sound es).bind fun _ h => gives_ok (List.forall_mem_cons.2 ⟨trivial, h⟩)
  | (_, .compare _ operand) :: es =>
    (Draft.makeOperand_sound operand).bind fun _ ho => (Draft.makeEntries_sound es).bind fun _ h =>
      gives_ok (List.forall_mem_cons.2 ⟨ho, h⟩)

end

/-! ## What can be reached -/

/-- Takes steps one after the other and passes over those that fail. A step that fails leaves the
statement as it was. -/
def Step.attemptAll : List Step → Select → Select
  | [], s => s
  | step :: steps, s =>
    match step.run s with
    | .ok t => Step.attemptAll steps t
    | .error _ => Step.attemptAll steps s

theorem Step.attemptAll_sound (steps : List Step) {s : Select} (hs : s.Sound) :
    (Step.attemptAll steps s).Sound := by
  induction steps generalizing s with
  | nil => exact hs
  | cons step steps ih =>
      rw [Step.attemptAll]
      split
      · next t hrun => exact ih (step.run_sound hs t hrun)
      · exact ih hs

theorem Operator.shape_eq_single_iff (op : Operator) :
    op.shape = .single ↔
      op.symbol ∈ ["=", ">", "<", ">=", "<=", "!=", "<>", "LIKE", "ILIKE"] := by
  cases op <;> decide

/-- Whatever can be reached is sound, at every depth: a statement that a draft makes, with further
steps taken of which some may fail, and a filter that steps have left, whether they succeeded or
not. The operators that take a single operand are those without lists, ranges and `EXISTS`. -/
theorem sound_of_reached :
    (∀ (d : Draft) (s : Select), d.make = .ok s →
      s.Sound ∧ ∀ steps : List Step, (Step.attemptAll steps s).Sound) ∧
      (∀ steps : List FilterStep, (FilterStep.runAll steps .empty).2.Sound) ∧
      ∀ op : Operator, op.shape = .single ↔
        op.symbol ∈ ["=", ">", "<", ">=", "<=", "!=", "<>", "LIKE", "ILIKE"] := by
  refine ⟨?_, ?_, Operator.shape_eq_single_iff⟩
  · intro d s hmake
    have hs : s.Sound := d.make_sound s hmake
    exact ⟨hs, fun steps => Step.attemptAll_sound steps hs⟩
  · intro steps
    exact FilterStep.runAll_keepsSound steps .empty trivial

/-- A count over a grouped statement with a group in a group, where a range without ends is passed
over. -/
def countedPages : Draft :=
  .query
    (.table .mysql (some 5) "visits"
      [.groupBy "page",
        .having (.group .or
          [.attempt (.comparison .and "n" "between" (.list [])),
            .group .and [.scalar .atLeast "n" (.int 3)]]),
        .count])
    "v" [.commonTable true "w" (.table .postgres none "days" [.columns ["day"]])]

theorem sound_of_reached_count :
    ∃ s, countedPages.make = .ok s ∧ s.Sound ∧
      (Step.attemptAll [.column "\u00a0", .column "total"] s).Sound ∧
      (Step.attemptAll [.column "\u00a0", .column "total"] s).columns = ["total"] := by
  obtain ⟨hsound, hsteps⟩ := sound_of_reached.1 countedPages _ rfl
  exact ⟨_, rfl, hsound, hsteps _, rfl⟩

end BoundSelect
