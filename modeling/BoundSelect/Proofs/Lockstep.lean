import BoundSelect.Proofs.Leaves
import BoundSelect.Proofs.Recast
import BoundSelect.Query

/-!
# Text and values in step

A statement is written clause by clause, with the bindings passed from one to the next. This is the
same as writing its fragment (`Select.render_eq`): the text is that of the fragment, counted on from
the values bound before, and the values of the fragment are bound in their order. They are the
literals of the statement (`Select.values_fragment`). `Select.render_in_step` puts this together:
text and values come from one list of pieces, which no dialect has a part in.
-/

set_option autoImplicit false

namespace BoundSelect

/-! ## Writing several fragments -/

namespace Fragment

/-- The texts of fragments that are written one after the other. -/
def spellAll (placeholder : Nat → String) (bound : Nat) : List Fragment → List String
  | [] => []
  | f :: fs =>
    f.spell placeholder bound :: spellAll placeholder (bound + f.values.length) fs

theorem join_cons_cons (separator : String) (f g : Fragment) (fs : List Fragment) :
    join separator (f :: g :: fs) = f ++ .text separator :: join separator (g :: fs) := rfl

@[simp] theorem values_join (separator : String) (fs : List Fragment) :
    (join separator fs).values = fs.flatMap values := by
  induction fs with
  | nil => rfl
  | cons f fs ih =>
      cases fs with
      | nil => simp [join]
      | cons g fs => simpa [join_cons_cons] using ih

theorem spell_join (placeholder : Nat → String) (bound : Nat) (separator : String)
    (fs : List Fragment) :
    (join separator fs).spell placeholder bound =
      separator.intercalate (spellAll placeholder bound fs) := by
  induction fs generalizing bound with
  | nil => simp [join, spell, spellAll]
  | cons f fs ih =>
      cases fs with
      | nil => simp [join, spellAll]
      | cons g fs =>
          -- the separator has no values, so the second fragment counts on from the first
          rw [join_cons_cons, spell_append, spell, ih]
          simp only [spellAll, String.intercalate_cons_cons, String.append_assoc]

@[simp] theorem values_parens (f : Fragment) : (parens f).values = f.values := by
  simp [parens]

@[simp] theorem spell_parens (placeholder : Nat → String) (bound : Nat) (f : Fragment) :
    (parens f).spell placeholder bound = Select.parensText (f.spell placeholder bound) := by
  simp [parens, Select.parensText, spell, spell_append, String.append_assoc]

end Fragment

/-! ## Bindings after a fragment -/

namespace Bindings

open Fragment

theorem bindAll_eq (b : Bindings) (vs : List Value) :
    b.bindAll vs = (spellAll b.dialect.placeholder b.values.length (vs.map ofValue),
      { b with values := b.values ++ vs }) := by
  induction vs generalizing b with
  | nil => simp [bindAll, spellAll]
  | cons v vs ih => simp [bindAll, bind, spellAll, ofValue, spell, ih, values_value]

end Bindings

/-! ## Predicates leave a fragment -/

theorem Predicate.fragment_ne_nil (p : Predicate) : p.fragment ≠ [] := by
  cases p with
  | inList column members negated => cases members <;> simp [Predicate.fragment]
  | _ => simp [Predicate.fragment, Fragment.parens]

theorem Filter.fragment_eq_nil_iff (f : Filter) : f.fragment = [] ↔ f.terms = [] := by
  obtain ⟨terms⟩ := f
  cases terms with
  | nil => simp [Filter.fragment]
  | cons t ts =>
      obtain ⟨c, p⟩ := t
      simp [Filter.fragment, Predicate.fragment_ne_nil]

namespace Select

open Fragment

theorem values_ofValue (vs : List Value) : (vs.map ofValue).flatMap Fragment.values = vs := by
  induction vs with
  | nil => rfl
  | cons v vs ih => simp [ofValue, ih]

theorem values_clause (keyword : String) (f : Filter) :
    ((f.fragment.clause keyword).spaced).values = f.fragment.values := by
  cases f.fragment <;> simp [clause, spaced]

theorem spell_clause (placeholder : Nat → String) (bound : Nat) (keyword : String) (f : Filter) :
    ((f.fragment.clause keyword).spaced).spell placeholder bound =
      conditionText keyword f (f.fragment.spell placeholder bound) := by
  cases hf : f.fragment with
  | nil => simp [clause, spaced, conditionText, (Filter.fragment_eq_nil_iff f).1 hf, spell]
  | cons p g =>
      have hne : f.terms ≠ [] := fun h => by simp [(Filter.fragment_eq_nil_iff f).2 h] at hf
      simp [clause, spaced, conditionText, hne, spell, String.append_assoc]

theorem values_withClause (recursive : Bool) (tables : List Fragment) :
    (withClause recursive tables).values = tables.flatMap values := by
  cases tables <;> simp [withClause]

theorem spell_withClause (placeholder : Nat → String) (bound : Nat) (recursive : Bool)
    (tables : List Fragment) :
    (withClause recursive tables).spell placeholder bound =
      tablesText recursive (spellAll placeholder bound tables) := by
  cases tables with
  | nil => simp [withClause, tablesText, spellAll, spell]
  | cons f fs =>
      have hne : spellAll placeholder bound (f :: fs) ≠ [] := by simp [spellAll]
      simp [withClause, tablesText, hne, spell, spell_append, spell_join, String.append_assoc]

end Select

/-! ## Writing is writing the fragment -/

section Render

open Fragment Bindings Select

mutual

theorem Select.render_eq : (s : Select) → (b : Bindings) → s.render b = b.write s.fragment
  | { columns, source, joins, filter, groups, having, arms, order, limit, offset, defaultLimit,
      commonTables, .. }, b => by
    -- both sides count on from clause to clause; what is left is how the texts are bracketed
    simp only [Select.render, CommonTable.renderAll_eq commonTables, Source.render_eq source,
      Filter.render_eq filter, Filter.render_eq having, Arm.renderAll_eq arms, write_eq,
      Select.fragment, values_append, values_text, values_nil, values_clause, values_withClause,
      spell_append, spell, spell_clause, spell_withClause, List.length_append, List.append_nil,
      List.append_assoc, List.cons_append, Nat.add_assoc, String.append_assoc, String.append_empty]

theorem Source.render_eq : (s : Source) → (b : Bindings) → s.render b = b.write s.fragment
  | .table name, b => by simp [Source.render, Source.fragment, write_eq, spell]
  | .query s name, b => by
    simp [Source.render, Source.fragment, Select.render_eq s, write_eq, spell, spell_append,
      String.append_assoc]

theorem CommonTable.renderAll_eq : (ts : List CommonTable) → (b : Bindings) →
    CommonTable.renderAll ts b =
      (spellAll b.dialect.placeholder b.values.length (CommonTable.fragments ts),
        { b with values := b.values ++ (CommonTable.fragments ts).flatMap Fragment.values })
  | [], b => by simp [CommonTable.renderAll, CommonTable.fragments, spellAll]
  | ⟨name, s, _⟩ :: ts, b => by
    simp [CommonTable.renderAll, CommonTable.fragments, Select.render_eq s,
      CommonTable.renderAll_eq ts, write_eq, spellAll, spell, String.append_assoc]

theorem Arm.renderAll_eq : (arms : List Arm) → (b : Bindings) →
    Arm.renderAll arms b = b.write (Arm.fragments arms)
  | [], b => by simp [Arm.renderAll, Arm.fragments, write_eq, spell]
  | ⟨all, s⟩ :: arms, b => by
    cases hp : s.needsParens <;>
      simp [Arm.renderAll, Arm.fragments, Select.render_eq s, Arm.renderAll_eq arms, write_eq,
        parensIf, hp, spell, spell_append, String.append_assoc]

theorem Filter.render_eq : (f : Filter) → (b : Bindings) → f.render b = b.write f.fragment
  | ⟨[]⟩, b => by simp [Filter.render, Filter.fragment, write_eq, spell]
  | ⟨⟨_, p⟩ :: ts⟩, b => by
    simp [Filter.render, Filter.fragment, Predicate.render_eq p, Term.renderAll_eq ts, write_eq,
      spell_append]

theorem Term.renderAll_eq : (ts : List Term) → (b : Bindings) →
    Term.renderAll ts b = b.write (Term.fragments ts)
  | [], b => by simp [Term.renderAll, Term.fragments, write_eq, spell]
  | ⟨c, p⟩ :: ts, b => by
    simp [Term.renderAll, Term.fragments, Predicate.render_eq p, Term.renderAll_eq ts, write_eq,
      spell, spell_append, String.append_assoc]

theorem Predicate.render_eq : (p : Predicate) → (b : Bindings) → p.render b = b.write p.fragment
  | .compare column op v, b => by
    simp [Predicate.render, Predicate.fragment, Bindings.bind, write_eq, spell, String.append_assoc]
  | .compareQuery column op s, b => by
    simp [Predicate.render, Predicate.fragment, Select.render_eq s, write_eq, spell,
      String.append_assoc]
  | .isNull column negated, b => by
    simp [Predicate.render, Predicate.fragment, write_eq, spell]
  | .inList column [] negated, b => by
    simp [Predicate.render, Predicate.fragment, write_eq, spell]
  | .inList column (v :: vs) negated, b => by
    have hvs : (ofValue v :: vs.map ofValue).flatMap Fragment.values = v :: vs :=
      values_ofValue (v :: vs)
    cases negated <;>
      simp only [Predicate.render, Predicate.fragment, bindAll_eq, write_eq, spell, spell_parens,
        spell_join, String.append_assoc, values_text, values_parens, values_join, hvs]
    all_goals rfl
  | .inQuery column s negated, b => by
    cases negated <;>
      simp [Predicate.render, Predicate.fragment, Select.render_eq s, write_eq, spell,
        String.append_assoc]
  | .between column low high, b => by
    simp [Predicate.render, Predicate.fragment, Bindings.bind, write_eq, spell, String.append_assoc]
  | .existence s, b => by
    simp [Predicate.render, Predicate.fragment, Select.render_eq s, write_eq, spell]
  | .raw sql, b => by simp [Predicate.render, Predicate.fragment, write_eq, spell]
  | .group inside, b => by
    simp [Predicate.render, Predicate.fragment, Filter.render_eq inside, write_eq]

end

end Render

/-! ## The values of the fragment are the literals of the statement -/

section Values

open Fragment

mutual

/-- The values of the fragment are the literals. -/
theorem Select.values_fragment : (s : Select) → s.fragment.values = s.literals
  | { source, filter, having, arms, commonTables, .. } => by
    simp [Select.fragment, Select.literals, Select.values_clause, Select.values_withClause,
      CommonTable.values_fragments commonTables, Source.values_fragment source,
      Filter.values_fragment filter, Filter.values_fragment having, Arm.values_fragments arms]

theorem Source.values_fragment : (s : Source) → s.fragment.values = s.literals
  | .table _ => rfl
  | .query s _ => by simp [Source.fragment, Source.literals, Select.values_fragment s]

theorem CommonTable.values_fragments : (ts : List CommonTable) →
    (CommonTable.fragments ts).flatMap Fragment.values = CommonTable.literals ts
  | [] => rfl
  | ⟨_, s, _⟩ :: ts => by
    simp [CommonTable.fragments, CommonTable.literals, Select.values_fragment s,
      CommonTable.values_fragments ts]

theorem Arm.values_fragments : (arms : List Arm) →
    (Arm.fragments arms).values = Arm.literals arms
  | [] => rfl
  | ⟨_, s⟩ :: arms => by
    cases hp : s.needsParens <;>
      simp [Arm.fragments, Arm.literals, parensIf, hp, Select.values_fragment s,
        Arm.values_fragments arms]

theorem Filter.values_fragment : (f : Filter) → f.fragment.values = f.literals
  | ⟨[]⟩ => rfl
  | ⟨⟨_, p⟩ :: ts⟩ => by
    simp [Filter.fragment, Filter.literals, Term.literals, Predicate.values_fragment p,
      Term.values_fragments ts]

theorem Term.values_fragments : (ts : List Term) →
    (Term.fragments ts).values = Term.literals ts
  | [] => rfl
  | ⟨_, p⟩ :: ts => by
    simp [Term.fragments, Term.literals, Predicate.values_fragment p, Term.values_fragments ts]

theorem Predicate.values_fragment : (p : Predicate) → p.fragment.values = p.literals
  | .compare .. => rfl
  | .compareQuery _ _ s => by
    simp [Predicate.fragment, Predicate.literals, Select.values_fragment s]
  | .isNull .. => rfl
  | .inList _ [] _ => rfl
  | .inList _ (v :: vs) _ => by
    simpa [Predicate.fragment, Predicate.literals] using Select.values_ofValue (v :: vs)
  | .inQuery _ s _ => by simp [Predicate.fragment, Predicate.literals, Select.values_fragment s]
  | .between .. => rfl
  | .existence s => by simp [Predicate.fragment, Predicate.literals, Select.values_fragment s]
  | .raw _ => rfl
  | .group inside => by
    simp [Predicate.fragment, Predicate.literals, Filter.values_fragment inside]

end

end Values

/-! ## The written statement -/

namespace Fragment

/-- A value of a fragment stands at a place of it, after the values before it. -/
theorem exists_split (f : Fragment) (k : Nat) (hk : k < f.values.length) :
    ∃ front back : Fragment,
      f = front ++ .value f.values[k] :: back ∧ front.values.length = k := by
  induction f generalizing k with
  | nil => simp at hk
  | cons p f ih =>
      cases p with
      | text s =>
          -- a text has no value, so the place is further on
          obtain ⟨front, back, hf, hlen⟩ := ih k hk
          refine ⟨.text s :: front, back, ?_, hlen⟩
          rw [List.cons_append, List.cons.injEq]
          exact ⟨rfl, hf⟩
      | value v =>
          -- this value, or one behind it with a smaller number
          cases k with
          | zero => exact ⟨[], f, rfl, rfl⟩
          | succ k =>
              obtain ⟨front, back, hf, hlen⟩ := ih k (by simpa using hk)
              refine ⟨.value v :: front, back, ?_, by simp [hlen]⟩
              rw [List.cons_append, List.cons.injEq]
              exact ⟨rfl, hf⟩

end Fragment

namespace Select

theorem query_eq (s : Select) :
    s.query = ⟨s.fragment.spell s.dialect.placeholder 0, s.literals, s.dialect.name⟩ := by
  simp [query, build, render_eq, Bindings.write_eq, values_fragment]

/-- Writing a statement into any bindings appends its literals to the values, and its text is that
of its pieces, the placeholders counted on from the values bound before. The pieces are the same
whatever dialects are stored in the statement, and their values are its literals. So in a built
query each placeholder stands at the place of the parameter that has its number. -/
theorem render_in_step (s : Select) :
    (∀ b : Bindings, s.render b =
      (s.fragment.spell b.dialect.placeholder b.values.length,
        { b with values := b.values ++ s.literals })) ∧
    s.fragment.values = s.literals ∧
    (∀ onDialect : Dialect → Dialect, (s.recast onDialect id).fragment = s.fragment) ∧
    ∀ k : Fin s.query.params.length, ∃ front back : Fragment,
      s.fragment = front ++ .value s.query.params[k] :: back ∧ front.values.length = k ∧
      s.query.sql = front.spell s.dialect.placeholder 0 ++ s.dialect.placeholder (k + 1) ++
        back.spell s.dialect.placeholder (k + 1) := by
  refine ⟨?_, values_fragment s, ?_, ?_⟩
  · intro b
    rw [render_eq, Bindings.write_eq, values_fragment]
  · intro onDialect
    rw [fragment_recast, Fragment.recast_id]
  · intro k
    have hparams : s.query.params = s.fragment.values := by rw [query_eq, values_fragment]
    have hsql : s.query.sql = s.fragment.spell s.dialect.placeholder 0 := by rw [query_eq]
    have hk : k < s.fragment.values.length := hparams ▸ k.isLt
    obtain ⟨front, back, hf, hlen⟩ := s.fragment.exists_split k hk
    refine ⟨front, back, ?_, hlen, ?_⟩
    · rw [Fin.getElem_fin, List.getElem_of_eq hparams]
      exact hf
    · -- the text parts where the piece stands, and the placeholder counts the values before it
      have hspell := Fragment.spell_append s.dialect.placeholder 0 front
        (.value s.fragment.values[k.val] :: back)
      rw [← hf, hlen, Nat.zero_add, Fragment.spell, ← String.append_assoc] at hspell
      rw [hsql, hspell]

end Select

end BoundSelect
