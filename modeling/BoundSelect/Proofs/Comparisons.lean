import BoundSelect.Proofs.Agreement
import BoundSelect.Proofs.Lockstep
import BoundSelect.Proofs.Soundness
import BoundSelect.Proofs.Spelling

/-!
# Which comparisons are made

A comparison is made of a text that spells an operator and an operand that the operator takes. Which
operands these are, and which values the comparison then binds, is said here by a relation that
looks at the operator and the operand only (`Operator.Takes`). The outcome of adding a comparison
follows it exactly: success, or one of two faults that leave the filter as it was
(`Filter.addComparison_outcome`).
-/

set_option autoImplicit false

namespace BoundSelect

/-! ## Operands that list members -/

namespace Operand

variable {σ : Type} {operand : Operand σ} {vs : List Value}

/-- The operand lists these members, as a list or as one array. -/
inductive Lists : Operand σ → List Value → Prop where
  | list (vs : List Value) : Lists (.list vs) vs
  | array (vs : List Value) : Lists (.value (.array vs)) vs

theorem members?_eq_some_iff : operand.members? = some vs ↔ operand.Lists vs := by
  constructor
  · intro h
    unfold members? at h
    split at h
    · next ws =>
        cases h
        exact .list vs
    · next ws =>
        cases h
        exact .array vs
    · cases h
  · rintro (_ | _)
    · rfl
    · rfl

end Operand

/-! ## Operands that an operator takes -/

/-- The operator takes the operand, and their comparison binds the values, in this order. -/
inductive Operator.Takes : Operator → Operand Select → List Value → Prop where
  /-- Membership is asked of any number of members. -/
  | members {op : Operator} (hop : op ∈ [.member, .nonMember]) {operand : Operand Select}
      {vs : List Value} (hvs : operand.Lists vs) : Takes op operand vs
  /-- It is also asked of the rows of a statement. -/
  | rows {op : Operator} (hop : op ∈ [.member, .nonMember]) (s : Select) :
      Takes op (.query s) s.query.params
  /-- A range has two ends and is never given by a statement. -/
  | range {operand : Operand Select} {low high : Value} (h : operand.Lists [low, high]) :
      Takes .between operand [low, high]
  | existence (s : Select) : Takes .existence (.query s) s.query.params
  /-- All others compare with one value, which may be an array. -/
  | value {op : Operator} (hop : op ∉ [.member, .nonMember, .between, .existence]) (v : Value) :
      Takes op (.value v) [v]
  /-- They also compare with what a statement gives, but never with a list. -/
  | query {op : Operator} (hop : op ∉ [.member, .nonMember, .between, .existence]) (s : Select) :
      Takes op (.query s) s.query.params

namespace Operator

theorem shape_eq_list_iff {op : Operator} : op.shape = .list ↔ op ∈ [.member, .nonMember] := by
  cases op <;> decide

theorem shape_eq_pair_iff {op : Operator} : op.shape = .pair ↔ op = .between := by
  cases op <;> decide

theorem shape_eq_query_iff {op : Operator} : op.shape = .query ↔ op = .existence := by
  cases op <;> decide

theorem shape_eq_single_iff_not_mem {op : Operator} :
    op.shape = .single ↔ op ∉ [.member, .nonMember, .between, .existence] := by
  cases op <;> decide

end Operator

theorem Select.params_query (s : Select) : s.query.params = s.literals := by
  rw [query_eq]

namespace Predicate

variable {column text : String} {op : Operator} {operand : Operand Select} {bound : List Value}

/-- A comparison that is made is one that its operator takes, and its literals are bound. -/
theorem takes_of_ofOperand? {p : Predicate} (hp : ofOperand? column op operand = some p) :
    op.Takes operand p.literals := by
  rcases ofOperand?_cases hp with ⟨v, hop, rfl, rfl⟩ | ⟨s, hop, rfl, rfl⟩ | ⟨s, hop, rfl, rfl⟩ |
    ⟨vs, hop, hvs, rfl⟩ | ⟨low, high, hop, hpair, rfl⟩ | ⟨s, hop, rfl, rfl⟩
  · exact .value (Operator.shape_eq_single_iff_not_mem.1 hop) v
  · rw [literals, ← s.params_query]
    exact .query (Operator.shape_eq_single_iff_not_mem.1 hop) s
  · rw [literals, ← s.params_query]
    exact .rows (Operator.shape_eq_list_iff.1 hop) s
  · exact .members (Operator.shape_eq_list_iff.1 hop) (Operand.members?_eq_some_iff.1 hvs)
  · obtain rfl := Operator.shape_eq_pair_iff.1 hop
    exact .range (Operand.members?_eq_some_iff.1 hpair)
  · obtain rfl := Operator.shape_eq_query_iff.1 hop
    rw [literals, ← s.params_query]
    exact .existence s

theorem ofOperand?_value (hop : op.shape = .single) (v : Value) :
    ofOperand? column op (.value v) = some (.compare column op v) := by
  simp only [ofOperand?, hop]

theorem ofOperand?_query (hop : op.shape = .single) (s : Select) :
    ofOperand? column op (.query s) = some (.compareQuery column op s) := by
  simp only [ofOperand?, hop]

theorem ofOperand?_rows (hop : op.shape = .list) (s : Select) :
    ofOperand? column op (.query s) = some (.inQuery column s (op = .nonMember)) := by
  simp only [ofOperand?, hop]

theorem ofOperand?_members (hop : op.shape = .list) {vs : List Value} (hvs : operand.Lists vs) :
    ofOperand? column op operand = some (.inList column vs (op = .nonMember)) := by
  have hquery : ∀ s, operand ≠ .query s := by
    rintro s rfl
    cases hvs
  rw [ofOperand?_of_list hop column hquery, Operand.members?_eq_some_iff.2 hvs, Option.map_some]

theorem ofOperand?_range {low high : Value} (h : operand.Lists [low, high]) :
    ofOperand? column .between operand = some (.between column low high) := by
  rw [ofOperand?_of_pair rfl, Operand.members?_eq_some_iff.2 h, Option.bind_some]

/-- What an operator takes makes a comparison, whose literals are the values that are bound. -/
theorem ofOperand?_of_takes (column : String) (h : op.Takes operand bound) :
    ∃ p, ofOperand? column op operand = some p ∧ p.literals = bound := by
  cases h with
  | members hop hvs => exact ⟨_, ofOperand?_members (Operator.shape_eq_list_iff.2 hop) hvs, rfl⟩
  | rows hop s =>
      exact ⟨_, ofOperand?_rows (Operator.shape_eq_list_iff.2 hop) s, s.params_query.symm⟩
  | range hpair => exact ⟨_, ofOperand?_range hpair, rfl⟩
  | existence s => exact ⟨.existence s, rfl, s.params_query.symm⟩
  | value hop v =>
      exact ⟨_, ofOperand?_value (Operator.shape_eq_single_iff_not_mem.2 hop) v, rfl⟩
  | query hop s =>
      exact ⟨_, ofOperand?_query (Operator.shape_eq_single_iff_not_mem.2 hop) s,
        s.params_query.symm⟩

theorem comparison_of_ofOperand? {p : Predicate} (hop : op.Spelled text)
    (hp : ofOperand? column op operand = some p) : comparison column text operand = .ok p := by
  simp only [comparison, Operator.parse_eq_ok_iff.2 hop, hp, bind, Except.bind]

theorem comparison_of_not_takes (hop : op.Spelled text) (h : ∀ bound, ¬ op.Takes operand bound) :
    comparison column text operand = .error (.unsuitedOperand op.symbol op.shape.words) := by
  cases hp : ofOperand? column op operand with
  | none => simp only [comparison, Operator.parse_eq_ok_iff.2 hop, hp, bind, Except.bind]
  | some p => exact absurd (takes_of_ofOperand? hp) (h p.literals)

theorem comparison_of_not_spelled (h : ∀ op : Operator, ¬ op.Spelled text) :
    comparison column text operand = .error (.unknownOperator text) := by
  simp only [comparison, Operator.parse_of_not_spelled h, bind, Except.bind]

/-- Writing a predicate binds its literals. -/
theorem render_snd (p : Predicate) (b : Bindings) :
    (p.render b).2 = { b with values := b.values ++ p.literals } := by
  rw [render_eq, Bindings.write_eq, values_fragment]

end Predicate

/-! ## Adding a comparison -/

namespace Filter

/-- Adding a comparison succeeds exactly if the text spells an operator that takes the operand. It
then adds one predicate, and writing this one binds the values that the operator takes, in order. A
text that spells no operator is refused with the text as it was given, whatever the operand is, and
an operand that the operator does not take with the operator's own symbol. A refusal leaves the
filter as it was. -/
theorem addComparison_outcome (c : Connective) (column text : String) (operand : Operand Select)
    (f : Filter) :
    ((addComparison c column text operand f).1 = .ok () ↔
      ∃ op : Operator, op.Spelled text ∧ ∃ bound, op.Takes operand bound) ∧
    (∀ op : Operator, op.Spelled text → ∀ bound, op.Takes operand bound →
      ∃ p, addComparison c column text operand f = (.ok (), ⟨f.terms ++ [⟨c, p⟩]⟩) ∧
        ∀ b : Bindings, (p.render b).2 = { b with values := b.values ++ bound }) ∧
    (∀ op : Operator, op.Spelled text → (∀ bound, ¬ op.Takes operand bound) →
      addComparison c column text operand f =
        (.error (.unsuitedOperand op.symbol op.shape.words), f)) ∧
    ((∀ op : Operator, ¬ op.Spelled text) →
      addComparison c column text operand f = (.error (.unknownOperator text), f)) := by
  have hadded : ∀ op : Operator, op.Spelled text → ∀ bound, op.Takes operand bound →
      ∃ p, addComparison c column text operand f = (.ok (), ⟨f.terms ++ [⟨c, p⟩]⟩) ∧
        ∀ b : Bindings, (p.render b).2 = { b with values := b.values ++ bound } := by
    intro op hop bound hbound
    obtain ⟨p, hp, rfl⟩ := Predicate.ofOperand?_of_takes column hbound
    refine ⟨p, ?_, p.render_snd⟩
    rw [addComparison, Predicate.comparison_of_ofOperand? hop hp]
    rfl
  refine ⟨⟨?_, ?_⟩, hadded, ?_, ?_⟩
  -- what was added is a comparison that was made
  · intro hok
    cases hcomparison : Predicate.comparison column text operand with
    | error e =>
        rw [addComparison, hcomparison] at hok
        cases hok
    | ok p =>
        obtain ⟨op, hparse, hp⟩ := Predicate.ofOperand?_of_comparison hcomparison
        exact ⟨op, Operator.parse?_eq_some_iff.1 hparse, p.literals,
          Predicate.takes_of_ofOperand? hp⟩
  · rintro ⟨op, hop, bound, hbound⟩
    obtain ⟨p, hp, -⟩ := hadded op hop bound hbound
    rw [hp]
  · intro op hop hbound
    rw [addComparison, Predicate.comparison_of_not_takes hop hbound]
    rfl
  · intro hnone
    rw [addComparison, Predicate.comparison_of_not_spelled hnone]
    rfl

/-- Membership spelled in other words, of an array and of a plain value. The array is the list that
is bound, and the plain value is refused. -/
theorem addComparison_outcome_membership :
    (∃ p, addComparison .or "id" "\u2003nOt\u00a0 in" (.value (.array [.int 3, .null]))
        ⟨[⟨.and, .isNull "id" true⟩]⟩ = (.ok (), ⟨[⟨.and, .isNull "id" true⟩, ⟨.or, p⟩]⟩) ∧
      (p.render ⟨.postgres, [.int 1]⟩).2 = ⟨.postgres, [.int 1, .int 3, .null]⟩) ∧
    addComparison .or "id" "\u2003nOt\u00a0 in" (.value (.int 3)) ⟨[⟨.and, .isNull "id" true⟩]⟩ =
      (.error (.unsuitedOperand "NOT IN" "a list of values or a subquery"),
        ⟨[⟨.and, .isNull "id" true⟩]⟩) := by
  have hspelled : Operator.nonMember.Spelled "\u2003nOt\u00a0 in" :=
    Operator.parse?_eq_some_iff.1 (by decide)
  have hmember : Operator.nonMember ∈ [Operator.member, Operator.nonMember] := by decide
  constructor
  · obtain ⟨p, hadded, hbound⟩ := (addComparison_outcome .or "id" "\u2003nOt\u00a0 in"
      (.value (.array [.int 3, .null])) ⟨[⟨.and, .isNull "id" true⟩]⟩).2.1 _ hspelled _
      (.members hmember (.array _))
    exact ⟨p, hadded, hbound ⟨.postgres, [.int 1]⟩⟩
  · apply (addComparison_outcome .or "id" "\u2003nOt\u00a0 in" (.value (.int 3)) _).2.2.1 _ hspelled
    rintro bound (⟨_, ⟨⟩⟩ | _ | _ | _ | ⟨hother⟩)
    exact hother (by decide)

end Filter

end BoundSelect
