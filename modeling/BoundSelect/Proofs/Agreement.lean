import BoundSelect.Proofs.Shape

/-!
# Edits that agree

Two edits agree when, on filters of one shape, they succeed or fail alike and leave filters of one
shape (`Filter.Edit.Agree`). Everything edits are made of keeps this: predicates of one shape, one
edit after another, groups, and failures that are passed over. Which predicate a comparison makes
depends on its operand only through how many members there are, where the operator asks for any.
-/

set_option autoImplicit false

namespace BoundSelect

/-! ## Attempts that are alike -/

/-- Two options that are alike up to `h`. -/
theorem option_cases_of_map_eq {α γ : Type} {h : α → γ} {x x' : Option α}
    (hx : x.map h = x'.map h) :
    (x = none ∧ x' = none) ∨ ∃ a a', x = some a ∧ x' = some a' ∧ h a = h a' := by
  cases x with
  | none =>
      cases x' with
      | none => exact .inl ⟨rfl, rfl⟩
      | some a' => cases hx
  | some a =>
      cases x' with
      | none => cases hx
      | some a' => exact .inr ⟨a, a', rfl, rfl, Option.some.inj hx⟩

/-- Two attempts that are alike up to `h`: both fail for the same cause, or both succeed. -/
theorem except_cases_of_map_eq {ε α γ : Type} {h : α → γ} {x x' : Except ε α}
    (hx : x.map h = x'.map h) :
    (∃ e, x = .error e ∧ x' = .error e) ∨ ∃ a a', x = .ok a ∧ x' = .ok a' ∧ h a = h a' := by
  cases x with
  | error e =>
      cases x' with
      | error e' =>
          cases hx
          exact .inl ⟨e, rfl, rfl⟩
      | ok a' => cases hx
  | ok a =>
      cases x' with
      | error e' => cases hx
      | ok a' => exact .inr ⟨a, a', rfl, rfl, Except.ok.inj hx⟩

/-- Attempts that are alike up to `h` stay alike when something is done with what they give that
depends on it only up to `h`. -/
theorem except_map_bind_congr {ε α β γ δ : Type} {h : α → γ} {g : β → δ} {x x' : Except ε α}
    {f f' : α → Except ε β} (hx : x.map h = x'.map h)
    (hf : ∀ a a', h a = h a' → (f a).map g = (f' a').map g) :
    (x >>= f).map g = (x' >>= f').map g := by
  rcases except_cases_of_map_eq hx with ⟨e, rfl, rfl⟩ | ⟨a, a', rfl, rfl, ha⟩
  · rfl
  · exact hf a a' ha

theorem except_map_map_congr {ε α β γ δ : Type} {h : α → γ} {f : α → β} {g : β → δ}
    {x x' : Except ε α} (hx : x.map h = x'.map h) (hf : ∀ a a', h a = h a' → g (f a) = g (f a')) :
    (x.map f).map g = (x'.map f).map g := by
  rcases except_cases_of_map_eq hx with ⟨e, rfl, rfl⟩ | ⟨a, a', rfl, rfl, ha⟩
  · rfl
  · exact congrArg Except.ok (hf a a' ha)

/-! ## Edits -/

namespace Filter

theorem shape_push {p p' : Predicate} {f f' : Filter} (c : Connective) (hp : p.shape = p'.shape)
    (hf : f.shape = f'.shape) : (f.push c p).shape = (f'.push c p').shape := by
  have h := recast_push id (fun _ => Value.null) c p f
  have h' := recast_push id (fun _ => Value.null) c p' f'
  simp only [shape, Predicate.shape] at hf hp ⊢
  rw [h, h', hf, hp]

theorem isEmpty_eq_of_shape {f f' : Filter} (h : f.shape = f'.shape) : f.isEmpty = f'.isEmpty := by
  rw [← recast_isEmpty id (fun _ => Value.null) f, ← recast_isEmpty id (fun _ => Value.null) f']
  exact congrArg Filter.isEmpty h

/-- Two edits that end alike on filters of one shape, and leave filters of one shape. -/
def Edit.Agree (e e' : Edit) : Prop :=
  ∀ f f' : Filter, f.shape = f'.shape →
    (e f).1 = (e' f').1 ∧ (e f).2.shape = (e' f').2.shape

theorem Edit.agree_skip : Edit.Agree (fun f => (.ok (), f)) fun f => (.ok (), f) :=
  fun _ _ h => ⟨rfl, h⟩

/-- Adding predicates that are faults alike, or have one shape. -/
theorem agree_addChecked (c : Connective) {p p' : Except Fault Predicate}
    (h : p.map Predicate.shape = p'.map Predicate.shape) :
    Edit.Agree (addChecked c p) (addChecked c p') := by
  intro f f' hf
  rcases except_cases_of_map_eq h with ⟨e, rfl, rfl⟩ | ⟨p, p', rfl, rfl, hp⟩
  · exact ⟨rfl, hf⟩
  · exact ⟨rfl, shape_push c hp hf⟩

theorem agree_add (c : Connective) {p p' : Predicate} (h : p.shape = p'.shape) :
    Edit.Agree (add c p) (add c p') := by
  change Edit.Agree (addChecked c (.ok p)) (addChecked c (.ok p'))
  exact agree_addChecked c (congrArg Except.ok h)

/-- What edits that agree do: they end in one way, and leave filters of one shape. -/
theorem Edit.Agree.outcome {e e' : Edit} (h : e.Agree e') {f f' : Filter}
    (hf : f.shape = f'.shape) :
    ∃ r g g', e f = (r, g) ∧ e' f' = (r, g') ∧ g.shape = g'.shape := by
  rcases h f f' hf with ⟨hend, hleft⟩
  exact ⟨(e f).1, (e f).2, (e' f').2, rfl, by rw [hend], hleft⟩

theorem Edit.Agree.andThen {first first' second second' : Edit} (hfirst : first.Agree first')
    (hsecond : second.Agree second') : (first.andThen second).Agree (first'.andThen second') := by
  intro f f' hf
  obtain ⟨r, g, g', hrun, hrun', hleft⟩ := hfirst.outcome hf
  simp only [Edit.andThen]
  rw [hrun, hrun']
  cases r with
  | error e => exact ⟨rfl, hleft⟩
  | ok u => exact hsecond g g' hleft

theorem Edit.Agree.attempt {edit edit' : Edit} (h : edit.Agree edit') :
    edit.attempt.Agree edit'.attempt :=
  fun f f' hf => ⟨rfl, (h f f' hf).2⟩

/-- Groups that edits which agree make of the empty filter. -/
theorem Edit.Agree.addGroup (c : Connective) {configure configure' : Edit}
    (h : configure.Agree configure') :
    Edit.Agree (Filter.addGroup c configure) (Filter.addGroup c configure') := by
  intro f f' hf
  obtain ⟨r, g, g', hrun, hrun', hleft⟩ := h.outcome (rfl : empty.shape = empty.shape)
  simp only [Filter.addGroup]
  rw [hrun, hrun']
  cases r with
  | error e => exact ⟨rfl, hf⟩
  | ok u =>
      constructor
      · rfl
      · -- whether the group is added depends on its shape only
        have hempty : g.isEmpty = g'.isEmpty := isEmpty_eq_of_shape hleft
        have hgroup : (Predicate.group g).shape = (Predicate.group g').shape :=
          congrArg Predicate.group hleft
        cases hg : g'.isEmpty with
        | true => simpa [hempty, hg] using hf
        | false => simpa [hempty, hg] using shape_push c hgroup hf

end Filter

/-! ## Predicates -/

/-- The length of an array. -/
def Value.arrayLength? : Value → Option Nat
  | .array vs => some vs.length
  | _ => none

namespace Predicate

/-- What an equality asks for depends only on whether its value is null. -/
theorem shape_equals (column : String) {v v' : Value} (h : v.isNull = v'.isNull) :
    (equals column v).shape = (equals column v').shape := by
  simp only [equals]
  rw [h]
  split <;> rfl

theorem shape_inList (column : String) {members members' : List Value} (negated : Bool)
    (h : members.length = members'.length) :
    (inList column members negated).shape = (inList column members' negated).shape := by
  simp only [shape, recast, List.map_const', h]

theorem ofOperand?_of_list {op : Operator} (hop : op.shape = .list) (column : String)
    {operand : Operand Select} (hquery : ∀ s, operand ≠ .query s) :
    ofOperand? column op operand =
      operand.members?.map fun vs => inList column vs (op = .nonMember) := by
  cases operand with
  | value v => simp only [ofOperand?, hop]
  | list vs => simp only [ofOperand?, hop]
  | query s => exact absurd rfl (hquery s)

theorem ofOperand?_of_pair {op : Operator} (hop : op.shape = .pair) (column : String)
    (operand : Operand Select) :
    ofOperand? column op operand = operand.members?.bind fun
      | [low, high] => some (between column low high)
      | _ => none := by
  simp only [ofOperand?, hop]
  cases operand.members? with
  | none => rfl
  | some vs => rcases vs with _ | ⟨v, _ | ⟨w, _ | _⟩⟩ <;> rfl

/-- Where an operator asks for members, only their number shows in the predicate. -/
theorem shape_ofOperand?_of_members {op : Operator} (hop : op.shape = .list ∨ op.shape = .pair)
    (column : String) {operand operand' : Operand Select} (hquery : ∀ s, operand ≠ .query s)
    (hquery' : ∀ s, operand' ≠ .query s)
    (h : operand.members?.map List.length = operand'.members?.map List.length) :
    (ofOperand? column op operand).map shape = (ofOperand? column op operand').map shape := by
  rcases hop with hop | hop
  -- a list is made of any members, and its shape shows how many they are
  · rw [ofOperand?_of_list hop column hquery, ofOperand?_of_list hop column hquery']
    rcases option_cases_of_map_eq h with ⟨hnone, hnone'⟩ | ⟨vs, vs', hvs, hvs', hlength⟩
    · rw [hnone, hnone']
    · rw [hvs, hvs']
      exact congrArg some (shape_inList column _ hlength)
  -- a range is made of exactly two members, so equal numbers of them settle whether it is made
  · rw [ofOperand?_of_pair hop, ofOperand?_of_pair hop]
    rcases option_cases_of_map_eq h with ⟨hnone, hnone'⟩ | ⟨vs, vs', hvs, hvs', hlength⟩
    · rw [hnone, hnone']
    · rw [hvs, hvs']
      rcases vs with _ | ⟨v, _ | ⟨w, _ | ⟨x, vs⟩⟩⟩ <;>
        rcases vs' with _ | ⟨v', _ | ⟨w', _ | ⟨x', vs'⟩⟩⟩ <;>
        first | rfl | simp at hlength

theorem length_members?_value (v : Value) :
    (Operand.value v : Operand Select).members?.map List.length = v.arrayLength? := by
  cases v <;> rfl

theorem shape_ofOperand?_value {op : Operator} (column : String) {v v' : Value}
    (h : op.shape = .list ∨ op.shape = .pair → v.arrayLength? = v'.arrayLength?) :
    (ofOperand? column op (.value v)).map shape = (ofOperand? column op (.value v')).map shape := by
  -- by what the operator takes: only lists and ranges look into the value
  cases hop : op.shape with
  | single =>
      simp only [ofOperand?, hop]
      rfl
  | list =>
      apply shape_ofOperand?_of_members (.inl hop) column (by simp) (by simp)
      rw [length_members?_value, length_members?_value, h (.inl hop)]
  | pair =>
      apply shape_ofOperand?_of_members (.inr hop) column (by simp) (by simp)
      rw [length_members?_value, length_members?_value, h (.inr hop)]
  | query => simp only [ofOperand?, hop]

theorem shape_ofOperand?_members {op : Operator} (column : String) {vs vs' : List Value}
    (h : vs.length = vs'.length) :
    (ofOperand? column op (.list vs)).map shape = (ofOperand? column op (.list vs')).map shape := by
  cases hop : op.shape with
  | single => simp only [ofOperand?, hop]
  | list =>
      exact shape_ofOperand?_of_members (.inl hop) column (by simp) (by simp) (congrArg some h)
  | pair =>
      exact shape_ofOperand?_of_members (.inr hop) column (by simp) (by simp) (congrArg some h)
  | query => simp only [ofOperand?, hop]

theorem shape_ofOperand?_query {op : Operator} (column : String) {s s' : Select}
    (h : s.shape = s'.shape) :
    (ofOperand? column op (.query s)).map shape = (ofOperand? column op (.query s')).map shape := by
  cases hop : op.shape with
  | single =>
      simp only [ofOperand?, hop]
      exact congrArg some (congrArg (compareQuery column op) h)
  | list =>
      simp only [ofOperand?, hop]
      exact congrArg some (congrArg (inQuery column · (op = .nonMember)) h)
  | pair => simp only [ofOperand?_of_pair hop, Operand.members?, Option.bind_none]
  | query =>
      simp only [ofOperand?, hop]
      exact congrArg some (congrArg existence h)

/-- A comparison is refused, or has a shape, that depends on the operator and on what it makes of
the operand. -/
theorem shape_comparison (column text : String) {operand operand' : Operand Select}
    (h : ∀ op, Operator.parse text = .ok op →
      (ofOperand? column op operand).map shape = (ofOperand? column op operand').map shape) :
    (comparison column text operand).map shape = (comparison column text operand').map shape := by
  simp only [comparison]
  -- the operator is checked before the operand, and without it
  cases hop : Operator.parse text with
  | error e => rfl
  | ok op =>
      simp only [bind, Except.bind]
      rcases option_cases_of_map_eq (h op hop) with ⟨hnone, hnone'⟩ | ⟨p, p', hp, hp', hshapes⟩
      · rw [hnone, hnone']
      · rw [hp, hp']
        exact congrArg Except.ok hshapes

end Predicate

end BoundSelect
