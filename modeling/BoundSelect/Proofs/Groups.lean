import BoundSelect.Proofs.BulkEntries

/-!
# What fails in a group

A group is built by a script: calls on its filter, one after the other, where each call may depend
on what came back from those before it, and on the filter as it is by then. A script may go on after
a call has failed, and groups may be built inside it by scripts of their own. What a script adds
before it fails stays in the filter that it works on; what it adds to a group that fails is dropped
with the group, at every depth (`Filter.addGroup_outcome`).
-/

set_option autoImplicit false

namespace BoundSelect

namespace Filter

/-! ## Scripts -/

/-- One edit after another, which knows what came back from the first. -/
def Edit.followedBy (first : Edit) (next : Except Fault Unit → Edit) : Edit := fun f =>
  match first f with
  | (r, g) => next r g

/-- Calls on a filter. After a call, what comes next depends on what came back. -/
inductive Script where
  /-- Returns. A script may also fail of its own accord. -/
  | finish (r : Except Fault Unit)
  /-- Looks at the filter as it is. -/
  | look (next : Filter → Script)
  /-- Adds a predicate, or fails because there is none. -/
  | add (c : Connective) (p : Except Fault Predicate) (next : Except Fault Unit → Script)
  | entries (es : List (String × Entry Select)) (next : Except Fault Unit → Script)
  | group (c : Connective) (inside : Script) (next : Except Fault Unit → Script)

namespace Script

/-- Makes the calls. -/
def run : Script → Edit
  | finish r => fun f => (r, f)
  | look next => fun f => (next f).run f
  | add c p next => (addChecked c p).followedBy fun r => (next r).run
  | entries es next => (addEntries es).followedBy fun r => (next r).run
  | group c inside next => (addGroup c inside.run).followedBy fun r => (next r).run

/-- No group that is begun fails, at any depth. -/
def NoGroupFails : Script → Prop
  | finish _ => True
  | look next => ∀ f, (next f).NoGroupFails
  | add _ _ next | entries _ next => ∀ r, (next r).NoGroupFails
  | group _ inside next =>
    (inside.run empty).1 = .ok () ∧ inside.NoGroupFails ∧ ∀ r, (next r).NoGroupFails

/-- The script without the groups that fail, at any depth. Where one was begun, only its fault is
left for what comes next. -/
def pruned : Script → Script
  | finish r => finish r
  | look next => look fun f => (next f).pruned
  | add c p next => add c p fun r => (next r).pruned
  | entries es next => entries es fun r => (next r).pruned
  | group c inside next =>
    match (inside.run empty).1 with
    | .ok () => group c inside.pruned fun r => (next r).pruned
    | .error e => (next (.error e)).pruned

end Script

/-! ## One group -/

variable {c : Connective} {configure : Edit}

/-- A group that fails is one call that fails and does nothing. -/
theorem addGroup_of_error {e : Fault} (h : (configure empty).1 = .error e) :
    addGroup c configure = fun f => (.error e, f) := by
  funext f
  rw [addGroup]
  revert h
  rcases configure empty with ⟨_ | _, g⟩
  · rintro ⟨⟩
    rfl
  · rintro ⟨⟩

/-- A group that succeeds is one term more, unless nothing was left in it. -/
theorem addGroup_of_ok {left : List Term} (h : configure empty = (.ok (), ⟨left⟩)) (f : Filter) :
    addGroup c configure f =
      (.ok (), ⟨f.terms ++ if left = [] then [] else [⟨c, .group ⟨left⟩⟩]⟩) := by
  rw [addGroup, h]
  cases left with
  | nil =>
      rw [if_pos rfl, mk_append_nil]
      rfl
  | cons t ts => rfl

/-! ## Scripts only add -/

/-- An edit leaves the terms that were there in front, whether it succeeds or not. -/
def Edit.Extends (e : Edit) : Prop := ∀ f : Filter, f.terms <+: (e f).2.terms

theorem Edit.Extends.followedBy {first : Edit} {next : Except Fault Unit → Edit}
    (hfirst : first.Extends) (hnext : ∀ r, (next r).Extends) : (first.followedBy next).Extends := by
  intro f
  exact (hfirst f).trans (hnext (first f).1 (first f).2)

theorem extends_addChecked (c : Connective) (p : Except Fault Predicate) :
    (addChecked c p).Extends := by
  intro f
  cases p with
  | error e => exact List.prefix_refl _
  | ok p => exact List.prefix_append _ _

theorem extends_addEntries (es : List (String × Entry Select)) : (addEntries es).Extends := by
  intro f
  rcases f.addEntries_cases es with ⟨new, -, hrun⟩ | ⟨_, _, _, new, _, -, -, -, hrun⟩
  · rw [hrun]
    exact List.prefix_append _ _
  · rw [hrun]
    exact List.prefix_append _ _

theorem extends_addGroup (c : Connective) (configure : Edit) : (addGroup c configure).Extends := by
  intro f
  rcases hrun : configure empty with ⟨e | ⟨⟩, ⟨left⟩⟩
  · have he : (configure empty).1 = .error e := congrArg Prod.fst hrun
    simp only [addGroup_of_error he, List.prefix_refl]
  · rw [addGroup_of_ok hrun]
    exact List.prefix_append _ _

namespace Script

theorem extends_run (script : Script) : script.run.Extends := by
  induction script with
  | finish r => exact fun f => List.prefix_refl _
  | look next ih => exact fun f => ih f f
  | add c p next ih => exact (extends_addChecked c p).followedBy ih
  | entries es next ih => exact (extends_addEntries es).followedBy ih
  | group c inside next _ ih => exact (extends_addGroup c inside.run).followedBy ih

/-! ## Groups that fail leave nothing -/

/-- A script and the script without its failing groups do the same to every filter. -/
theorem run_pruned (script : Script) : script.pruned.run = script.run := by
  induction script with
  | finish r => rfl
  | look next ih =>
      funext f
      exact congrFun (ih f) f
  | add c p next ih => exact congrArg (addChecked c p).followedBy (funext ih)
  | entries es next ih => exact congrArg (addEntries es).followedBy (funext ih)
  | group c inside next ihinside ih =>
      rw [pruned]
      split
      · -- the group stays, and inside it only what fails there is left out
        rw [run, run, ihinside, funext ih]
      · next e he =>
          rw [ih, run, addGroup_of_error he]
          rfl

theorem noGroupFails_pruned (script : Script) : script.pruned.NoGroupFails := by
  induction script with
  | finish r => trivial
  | look next ih => exact ih
  | add c p next ih => exact ih
  | entries es next ih => exact ih
  | group c inside next ihinside ih =>
      rw [pruned]
      split
      · next hok => exact ⟨by rw [run_pruned]; exact hok, ihinside, ih⟩
      · next e _ => exact ih (.error e)

end Script

end Filter

/-! ## The scripts of drafts -/

mutual

/-- The calls of a step, and what comes next after them. A step whose statements cannot be made has
no call to make. -/
def FilterStep.calls : FilterStep → (Except Fault Unit → Filter.Script) → Filter.Script
  | .equals c column v, next => .add c (.ok (.equals column v)) next
  | .equalsOption column (some v), next => .add .and (.ok (.equals column v)) next
  | .equalsOption _ none, next => next (.ok ())
  | .scalar op column v, next => .add .and (.ok (.compare column op.operator v)) next
  | .comparison c column op operand, next =>
    .add c (Draft.makeOperand operand >>= Predicate.comparison column op) next
  | .notNull column, next => .add .and (.ok (.isNull column true)) next
  | .inList column members negated, next => .add .and (.ok (.inList column members negated)) next
  | .between column low high, next => .add .and (.ok (.between column low high)) next
  | .existence inner, next => .add .and (inner.make.map .existence) next
  | .raw c sql, next => .add c (.ok (.raw sql)) next
  | .entries es, next =>
    match Draft.makeEntries es with
    | .ok es => .entries es next
    | .error e => next (.error e)
  | .group c steps, next => .group c (FilterStep.script steps) next
  | .attempt step, next => step.calls fun _ => next (.ok ())

/-- The script that takes steps one after the other, up to the first that fails. -/
def FilterStep.script : List FilterStep → Filter.Script
  | [] => .finish (.ok ())
  | step :: steps => step.calls fun r =>
    match r with
    | .ok () => FilterStep.script steps
    | .error e => .finish (.error e)

end

mutual

theorem FilterStep.run_calls : (step : FilterStep) → (next : Except Fault Unit → Filter.Script) →
    (step.calls next).run = step.run.followedBy fun r => (next r).run
  | .equals .., _ => by rw [calls, run]; rfl
  | .equalsOption _ (some _), _ => by rw [calls, run]; rfl
  | .equalsOption _ none, _ => by rw [calls, run]; rfl
  | .scalar .., _ => by rw [calls, run]; rfl
  | .comparison .., _ => by rw [calls, run_comparison]; rfl
  | .notNull _, _ => by rw [calls, run]; rfl
  | .inList .., _ => by rw [calls, run]; rfl
  | .between .., _ => by rw [calls, run]; rfl
  | .existence _, _ => by rw [calls, run]; rfl
  | .raw .., _ => by rw [calls, run]; rfl
  | .entries es, next => by
    rw [calls, run]
    cases Draft.makeEntries es <;> rfl
  | .group c steps, next => by
    rw [calls, run, Filter.Script.run, FilterStep.run_script steps]
  | .attempt step, next => by
    rw [calls, FilterStep.run_calls step, run]
    rfl

theorem FilterStep.run_script : (steps : List FilterStep) →
    (FilterStep.script steps).run = FilterStep.runAll steps
  | [] => by rw [script, runAll]; rfl
  | step :: steps => by
    rw [script, FilterStep.run_calls step, runAll, ← FilterStep.run_script steps]
    funext f
    simp only [Filter.Edit.followedBy, Filter.Edit.andThen]
    rcases step.run f with ⟨_ | _, g⟩
    · rfl
    · rfl

end

/-- A group of a draft is built by the script of its steps. -/
theorem FilterStep.run_group (c : Connective) (steps : List FilterStep) :
    (FilterStep.group c steps).run = Filter.addGroup c (FilterStep.script steps).run := by
  rw [run, run_script]

namespace Filter

/-! ## Groups as a whole -/

/-- A group call, whatever the script inside it does. If the script fails, the call returns its fault
and the filter is as it was, however much the script had added. If it succeeds, the filter has one
term more, which holds just what the script left in a fresh filter, or none more if it left nothing.
A script itself only adds behind what is there, so what it added before it failed stays where it
worked. The groups in it that failed have left nothing there, at any depth: without them it does the
same to every filter, and none of the groups that are left fails. -/
theorem addGroup_outcome (c : Connective) (inside : Script) (b : Filter) :
    (∀ e, (inside.run empty).1 = .error e → addGroup c inside.run b = (.error e, b)) ∧
    (∀ left, inside.run empty = (.ok (), ⟨left⟩) →
      addGroup c inside.run b =
        (.ok (), ⟨b.terms ++ if left = [] then [] else [⟨c, .group ⟨left⟩⟩]⟩)) ∧
    b.terms <+: (inside.run b).2.terms ∧
    inside.pruned.run = inside.run ∧ inside.pruned.NoGroupFails := by
  refine ⟨?_, ?_, inside.extends_run b, inside.run_pruned, inside.noGroupFails_pruned⟩
  · intro e he
    rw [addGroup_of_error he]
  · intro left hleft
    exact addGroup_of_ok hleft b

/-- A group whose entries fail part-way. -/
def failingGroup : FilterStep :=
  .group .or
    [.raw .and "p", .entries [("q", .equals (.int 1)), ("r", .compare "DROP" (.value (.int 2)))]]

/-- Inside a group, its failure is first passed over and then escapes. -/
theorem addGroup_outcome_nested :
    (FilterStep.group .or [.raw .and "a", .attempt failingGroup, .raw .or "z"]).run
        ⟨[⟨.and, .raw "x"⟩]⟩ =
      (.ok (), ⟨[⟨.and, .raw "x"⟩, ⟨.or, .group ⟨[⟨.and, .raw "a"⟩, ⟨.or, .raw "z"⟩]⟩⟩]⟩) ∧
    (FilterStep.group .or [.raw .and "a", failingGroup, .raw .or "z"]).run
        ⟨[⟨.and, .raw "x"⟩]⟩ =
      (.error (.unknownOperator "DROP"), ⟨[⟨.and, .raw "x"⟩]⟩) := by
  rw [FilterStep.run_group, FilterStep.run_group]
  constructor
  · obtain ⟨-, hok, -⟩ := addGroup_outcome .or
      (FilterStep.script [.raw .and "a", .attempt failingGroup, .raw .or "z"])
      ⟨[⟨.and, .raw "x"⟩]⟩
    exact hok [⟨.and, .raw "a"⟩, ⟨.or, .raw "z"⟩] rfl
  · obtain ⟨herror, -⟩ := addGroup_outcome .or
      (FilterStep.script [.raw .and "a", failingGroup, .raw .or "z"]) ⟨[⟨.and, .raw "x"⟩]⟩
    exact herror (.unknownOperator "DROP") rfl

end Filter

end BoundSelect
