import BoundSelect.Proofs.Lockstep

/-!
# A written filter with its statements closed

A filter is written as a text in which some stretches belong to the statements inside it. Its marks
keep the two apart: each is a character of the filter itself, or a whole statement in parentheses,
of which only the text is known. Put together again, the marks are the text (`Filter.chars_marks`).
-/

set_option autoImplicit false

namespace BoundSelect

/-! ## Outlines -/

/-- A part of a filter: a piece of its own, or a whole statement in parentheses. -/
inductive Part where
  | piece (p : Piece)
  | query (s : Select)

/-- A filter with its statements in their places. -/
abbrev Outline := List Part

namespace Outline

/-- The fragment of an outline. -/
def fragment : Outline → Fragment
  | [] => []
  | .piece p :: o => p :: fragment o
  | .query s :: o => Fragment.parens s.fragment ++ fragment o

/-- The values of an outline, those of its statements among them. -/
def values : Outline → List Value
  | [] => []
  | .piece (.text _) :: o => values o
  | .piece (.value v) :: o => v :: values o
  | .query s :: o => s.literals ++ values o

theorem fragment_append (o o' : Outline) : fragment (o ++ o') = fragment o ++ fragment o' := by
  induction o with
  | nil => rfl
  | cons part o ih => cases part <;> simp [fragment, ih]

theorem values_fragment (o : Outline) : (fragment o).values = values o := by
  induction o with
  | nil => rfl
  | cons part o ih =>
      rcases part with ⟨⟨t⟩ | ⟨v⟩⟩ | ⟨s⟩ <;>
        simp [fragment, values, ih, Select.values_fragment]

theorem values_append (o o' : Outline) : values (o ++ o') = values o ++ values o' := by
  simp only [← values_fragment, fragment_append, Fragment.values_append]

/-- A fragment as an outline without statements. -/
theorem fragment_map_piece (f : Fragment) : fragment (f.map .piece) = f := by
  induction f with
  | nil => rfl
  | cons p f ih => rw [List.map_cons, fragment, ih]

end Outline

mutual

/-- The outline of a filter without a keyword. -/
def Filter.outline : Filter → Outline
  | ⟨[]⟩ => []
  | ⟨⟨_, p⟩ :: ts⟩ => p.outline ++ Term.outline ts

/-- The outline of the terms after the first, each after its connective. -/
def Term.outline : List Term → Outline
  | [] => []
  | ⟨c, p⟩ :: ts => .piece (.text (" " ++ c.keyword ++ " ")) :: (p.outline ++ Term.outline ts)

/-- The outline of a predicate. -/
def Predicate.outline : Predicate → Outline
  | .compareQuery column op s => [.piece (.text (column ++ " " ++ op.symbol ++ " ")), .query s]
  | .inQuery column s negated =>
    [.piece (.text (column ++ if negated then " NOT IN " else " IN ")), .query s]
  | .existence s => [.piece (.text "EXISTS "), .query s]
  | .group inside => .piece (.text "(") :: (inside.outline ++ [.piece (.text ")")])
  | p => p.fragment.map .piece

end

mutual

theorem Filter.fragment_outline : (f : Filter) → f.outline.fragment = f.fragment
  | ⟨[]⟩ => rfl
  | ⟨⟨_, p⟩ :: ts⟩ => by
    rw [Filter.outline, Outline.fragment_append, p.fragment_outline, Term.fragment_outline ts,
      Filter.fragment]

theorem Term.fragment_outline : (ts : List Term) → (Term.outline ts).fragment = Term.fragments ts
  | [] => rfl
  | ⟨c, p⟩ :: ts => by
    rw [Term.outline, Outline.fragment, Outline.fragment_append, p.fragment_outline,
      Term.fragment_outline ts, Term.fragments, List.cons_append]

theorem Predicate.fragment_outline : (p : Predicate) → p.outline.fragment = p.fragment
  | .compareQuery _ _ s => by
    simp [Predicate.outline, Outline.fragment, Predicate.fragment]
  | .inQuery _ s _ => by simp [Predicate.outline, Outline.fragment, Predicate.fragment]
  | .existence s => by simp [Predicate.outline, Outline.fragment, Predicate.fragment]
  | .group inside => by
    rw [Predicate.outline, Outline.fragment, Outline.fragment_append, inside.fragment_outline]
    rfl
  | .compare .. | .isNull .. | .inList .. | .between .. | .raw _ => Outline.fragment_map_piece _

end

/-! ## Marks -/

/-- A mark of a written filter: a character, or a whole statement in parentheses, of which the text
is known but not looked into. -/
inductive Mark where
  | char (c : Char)
  | query (s : Select) (text : String)

/-- The characters of a mark. -/
def Mark.chars : Mark → List Char
  | .char c => [c]
  | .query _ text => '(' :: (text.toList ++ [')'])

/-- The marks of an outline when `bound` values are bound before it. -/
def Outline.marks (placeholder : Nat → String) (bound : Nat) : Outline → List Mark
  | [] => []
  | .piece (.text t) :: o => t.toList.map .char ++ marks placeholder bound o
  | .piece (.value _) :: o =>
    (placeholder (bound + 1)).toList.map .char ++ marks placeholder (bound + 1) o
  | .query s :: o =>
    .query s (s.fragment.spell placeholder bound) ::
      marks placeholder (bound + s.literals.length) o

/-- The marks of a filter that is written into bindings. -/
def Filter.marks (f : Filter) (b : Bindings) : List Mark :=
  f.outline.marks b.dialect.placeholder b.values.length

theorem flatMap_chars_map_char (cs : List Char) : (cs.map Mark.char).flatMap Mark.chars = cs := by
  induction cs with
  | nil => rfl
  | cons c cs ih => rw [List.map_cons, List.flatMap_cons, ih, Mark.chars, List.singleton_append]

theorem Outline.marks_append (placeholder : Nat → String) (bound : Nat) (o o' : Outline) :
    marks placeholder bound (o ++ o') =
      marks placeholder bound o ++ marks placeholder (bound + o.values.length) o' := by
  induction o generalizing bound with
  | nil => rfl
  | cons part o ih =>
      rcases part with ⟨⟨t⟩ | ⟨v⟩⟩ | ⟨s⟩
      · rw [List.cons_append, marks, ih, marks, values, List.append_assoc]
      · rw [List.cons_append, marks, ih, marks, values, List.append_assoc, List.length_cons,
          Nat.add_assoc, Nat.add_comm 1]
      · rw [List.cons_append, marks, ih, marks, values, List.cons_append, List.length_append,
          Nat.add_assoc]

theorem Outline.chars_marks (placeholder : Nat → String) (bound : Nat) (o : Outline) :
    (marks placeholder bound o).flatMap Mark.chars =
      (o.fragment.spell placeholder bound).toList := by
  induction o generalizing bound with
  | nil => simp [marks, fragment, Fragment.spell]
  | cons part o ih =>
      rcases part with ⟨⟨t⟩ | ⟨v⟩⟩ | ⟨s⟩
      · rw [marks, List.flatMap_append, flatMap_chars_map_char, ih, fragment, Fragment.spell,
          String.toList_append]
      · rw [marks, List.flatMap_append, flatMap_chars_map_char, ih, fragment, Fragment.spell,
          String.toList_append]
      · simp [marks, Mark.chars, ih, fragment, Fragment.spell_append, Fragment.spell_parens,
          Fragment.values_parens, Select.values_fragment, Select.parensText]

/-- The marks of a filter are its text. -/
theorem Filter.chars_marks (f : Filter) (b : Bindings) :
    (f.marks b).flatMap Mark.chars = (f.render b).1.toList := by
  rw [Filter.marks, Outline.chars_marks, f.fragment_outline, Filter.render_eq, Bindings.write_eq]

end BoundSelect
