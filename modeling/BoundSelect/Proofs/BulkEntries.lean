import BoundSelect.Proofs.Noninterference
import Mathlib.Data.List.Forall2

/-!
# Lists of entries

The entries of a list are added to a filter one by one. If all of them can be added, each has become
one term, in their order. Otherwise the first that cannot is the fault, and those before it stay
(`Filter.addEntries_outcome`): the list is given up as a whole only if its first entry fails.
-/

set_option autoImplicit false

namespace BoundSelect

/-- Whether a term is what an entry adds for its column. -/
def Entry.Adds (entry : String × Entry Select) (t : Term) : Prop :=
  t.connective = .and ∧ entry.2.asked entry.1 = .ok t.predicate

namespace Filter

variable (f : Filter) {entry : String × Entry Select}

theorem mk_append_nil : (⟨f.terms ++ []⟩ : Filter) = f := by
  rcases f with ⟨ts⟩
  rw [List.append_nil]

theorem push_append (c : Connective) (p : Predicate) (new : List Term) :
    (⟨(f.push c p).terms ++ new⟩ : Filter) = ⟨f.terms ++ ⟨c, p⟩ :: new⟩ := by
  rw [push, List.append_assoc]
  rfl

/-- An entry that asks for a predicate adds it, and the others are added behind it. -/
theorem addEntries_cons_of_ok {p : Predicate} (h : entry.2.asked entry.1 = .ok p)
    (es : List (String × Entry Select)) :
    addEntries (entry :: es) f = addEntries es (f.push .and p) := by
  simp only [addEntries, Edit.andThen, addEntry_eq, addChecked, h]

/-- An entry that asks for nothing leaves the filter as it is, and the others are not looked at. -/
theorem addEntries_cons_of_error {fault : Fault} (h : entry.2.asked entry.1 = .error fault)
    (es : List (String × Entry Select)) : addEntries (entry :: es) f = (.error fault, f) := by
  simp only [addEntries, Edit.andThen, addEntry_eq, addChecked, h]

/-- Either all entries have added their terms, or those before the first that fails have. -/
theorem addEntries_cases (es : List (String × Entry Select)) :
    (∃ new, List.Forall₂ Entry.Adds es new ∧ addEntries es f = (.ok (), ⟨f.terms ++ new⟩)) ∨
      ∃ front entry back new fault, es = front ++ entry :: back ∧
        List.Forall₂ Entry.Adds front new ∧ entry.2.asked entry.1 = .error fault ∧
        addEntries es f = (.error fault, ⟨f.terms ++ new⟩) := by
  induction es generalizing f with
  | nil =>
      left
      refine ⟨[], .nil, ?_⟩
      rw [mk_append_nil]
      rfl
  | cons entry es ih =>
      cases hasked : entry.2.asked entry.1 with
      | error fault =>
          right
          refine ⟨[], entry, es, [], fault, rfl, .nil, hasked, ?_⟩
          rw [addEntries_cons_of_error f hasked, mk_append_nil]
      | ok p =>
          have hadds : Entry.Adds entry ⟨.and, p⟩ := ⟨rfl, hasked⟩
          rw [addEntries_cons_of_ok f hasked]
          rcases ih (f.push .and p) with
            ⟨new, hnew, hrun⟩ | ⟨front, last, back, new, fault, rfl, hnew, hlast, hrun⟩
          · left
            refine ⟨⟨.and, p⟩ :: new, .cons hadds hnew, ?_⟩
            rw [hrun, push_append]
          · right
            refine ⟨entry :: front, last, back, ⟨.and, p⟩ :: new, fault, rfl, .cons hadds hnew,
              hlast, ?_⟩
            rw [hrun, push_append]

/-- Adding a list of entries to a filter. It succeeds with one term more for each entry, in their
order and each joined by `AND`; or it fails with the fault of the first entry that fails, and the
filter has the terms of the entries before that one. After a failure the filter is as it was exactly
if there are no entries before. -/
theorem addEntries_outcome (es : List (String × Entry Select)) :
    (∃ new, List.Forall₂ Entry.Adds es new ∧ addEntries es f = (.ok (), ⟨f.terms ++ new⟩)) ∨
      ∃ front entry back new fault, es = front ++ entry :: back ∧
        List.Forall₂ Entry.Adds front new ∧ entry.2.asked entry.1 = .error fault ∧
        addEntries es f = (.error fault, ⟨f.terms ++ new⟩) ∧
        ((addEntries es f).2 = f ↔ front = []) := by
  rcases f.addEntries_cases es with
    hall | ⟨front, entry, back, new, fault, hes, hnew, hentry, hrun⟩
  · exact .inl hall
  right
  refine ⟨front, entry, back, new, fault, hes, hnew, hentry, hrun, ?_⟩
  have hsame : (addEntries es f).2 = f ↔ new = [] := by
    rcases f with ⟨ts⟩
    rw [hrun, Filter.mk.injEq, List.append_right_eq_self]
  rw [hsame, ← List.length_eq_zero_iff, ← List.length_eq_zero_iff, hnew.length_eq]

/-- An entry that can be added, and one whose operator is not allowed. -/
def halfAllowed : List (String × Entry Select) :=
  [("a", .equals (.int 1)), ("b", .compare "DROP" (.value (.int 2)))]

theorem addEntries_halfAllowed :
    addEntries halfAllowed .empty =
        (.error (.unknownOperator "DROP"), ⟨[⟨.and, .compare "a" .equal (.int 1)⟩]⟩) ∧
      (addEntries halfAllowed .empty).2 ≠ .empty := by
  have hrun : addEntries halfAllowed .empty =
      (.error (.unknownOperator "DROP"), ⟨[⟨.and, .compare "a" .equal (.int 1)⟩]⟩) := rfl
  refine ⟨hrun, ?_⟩
  rw [hrun]
  simp [empty]

end Filter

end BoundSelect
