import BoundSelect.Proofs.Leaves
import BoundSelect.Select.Fragment

/-!
# What stands around a value

Nothing that a statement writes runs into a placeholder. After a value comes a blank, a comma or a
closing parenthesis, or nothing at all (`Select.fenced`). The clauses that may be absent begin with
a blank, so it does not matter which of them comes first behind a value.
-/

set_option autoImplicit false

namespace BoundSelect

/-! ## Texts between pieces -/

/-- A character that parts what stands before it from what comes after. -/
def isBreak (c : Char) : Bool :=
  c = ' ' || c = ',' || c = '(' || c = ')'

theorem isDigit_of_isBreak {c : Char} (h : isBreak c = true) : c.isDigit = false := by
  simp only [isBreak, Bool.or_eq_true, decide_eq_true_eq] at h
  rcases h with ((rfl | rfl) | rfl) | rfl <;> rfl

theorem Dialect.toList_placeholder_postgres (n : Nat) :
    (Dialect.postgres.placeholder n).toList = '$' :: Nat.toDigits 10 n := by
  simp [Dialect.postgres, Nat.toString_eq_repr, Nat.toList_repr]

/-- A text that is empty or begins with a blank. -/
def OpensBlank (s : String) : Prop := ∀ c ∈ s.toList.head?, c = ' '

theorem opensBlank_empty : OpensBlank "" := by simp [OpensBlank]

theorem opensBlank_append {s t : String} (hs : OpensBlank s) (ht : OpensBlank t) :
    OpensBlank (s ++ t) := by
  intro c hc
  rw [String.toList_append, List.head?_append] at hc
  -- the first text that is not empty opens the whole
  cases h : s.toList.head? with
  | none =>
      rw [h] at hc
      exact ht c hc
  | some d =>
      rw [h] at hc
      exact hs c (by rw [h]; exact hc)

/-- A blank and what comes after it. -/
theorem opensBlank_of_head {s : String} (h : s.toList.head? = some ' ') (t : String) :
    OpensBlank (s ++ t) := by
  intro c hc
  rw [String.toList_append, List.head?_append, h] at hc
  simpa using hc.symm

namespace Select

theorem opensBlank_joinsText (joins : List Join) : OpensBlank (joinsText joins) := by
  rcases joins with _ | ⟨j, joins⟩
  · exact opensBlank_empty
  · simp only [joinsText, List.map_cons, OpensBlank, String.toList_join, List.flatMap_cons]
    simp

theorem opensBlank_groupsText (groups : List String) : OpensBlank (groupsText groups) := by
  rw [groupsText]
  split
  · exact opensBlank_empty
  · exact opensBlank_of_head rfl _

theorem opensBlank_boundText {keyword : String} (h : keyword.toList.head? = some ' ')
    (bound : Option UInt64) : OpensBlank (boundText keyword bound) := by
  cases bound with
  | none => exact opensBlank_empty
  | some n => exact opensBlank_of_head h _

theorem opensBlank_pagingText (order : List SortKey) (limit offset : Option UInt64) :
    OpensBlank (pagingText order limit offset) := by
  rw [pagingText]
  refine opensBlank_append (opensBlank_append ?_ ?_) ?_
  · rw [orderText]
    split
    · exact opensBlank_empty
    · exact opensBlank_of_head rfl _
  · exact opensBlank_boundText rfl limit
  · exact opensBlank_boundText rfl offset

end Select

/-! ## Fenced fragments -/

namespace Fragment

/-- What is written begins with a break, if anything is written. -/
def Parted : Fragment → Prop
  | [] => True
  | .text s :: f =>
    match s.toList with
    | [] => Parted f
    | c :: _ => isBreak c = true
  | .value _ :: _ => False

/-- After each value comes a break, or nothing. -/
def Fenced : Fragment → Prop
  | [] => True
  | .text _ :: f => Fenced f
  | .value _ :: f => Parted f ∧ Fenced f

theorem parted_text_of_opensBlank {s : String} {f : Fragment} (hs : OpensBlank s)
    (hf : f.Parted) : Parted (.text s :: f) := by
  rw [Parted]
  split
  · exact hf
  · next c cs h =>
      have hc : c = ' ' := hs c (by rw [h]; rfl)
      rw [hc]
      rfl

theorem parted_append {f g : Fragment} (hf : f.Parted) (hg : g.Parted) :
    Parted (f ++ g) := by
  induction f with
  | nil => exact hg
  | cons p f ih =>
      cases p with
      | value v => exact hf.elim
      | text s =>
          rw [List.cons_append]
          -- an empty text leaves it to the pieces behind it, any other settles it
          rw [Parted] at hf ⊢
          split at hf
          · exact ih hf
          · exact hf

theorem fenced_append {f g : Fragment} (hf : f.Fenced) (hg : g.Fenced) (hp : g.Parted) :
    Fenced (f ++ g) := by
  induction f with
  | nil => exact hg
  | cons p f ih =>
      cases p with
      | text s => exact ih hf
      -- what stands behind a value is in the first fragment, or begins the second
      | value v => exact ⟨parted_append hf.1 hp, ih hf.2⟩

theorem fenced_parens {f : Fragment} (hf : f.Fenced) : Fenced (parens f) :=
  fenced_append (g := [.text ")"]) hf trivial rfl

theorem fenced_parensIf {needed : Bool} {f : Fragment} (hf : f.Fenced) :
    Fenced (parensIf needed f) := by
  cases needed with
  | false => exact hf
  | true => exact fenced_parens hf

theorem fenced_clause {keyword : String} {f : Fragment} (hf : f.Fenced) :
    Fenced (f.clause keyword).spaced := by
  cases f with
  | nil => exact hf
  | cons p f => exact hf

theorem parted_clause (keyword : String) (f : Fragment) : Parted (f.clause keyword).spaced := by
  cases f with
  | nil => trivial
  | cons p f => rfl

theorem fenced_join {fs : List Fragment} (hfs : ∀ f ∈ fs, Fenced f) :
    Fenced (join ", " fs) := by
  induction fs with
  | nil => trivial
  | cons f fs ih =>
      have hf : Fenced f := hfs f List.mem_cons_self
      cases fs with
      | nil => exact hf
      | cons g fs =>
          refine fenced_append hf ?_ rfl
          exact ih fun h hh => hfs h (List.mem_cons_of_mem _ hh)

/-- The blank after common tables fences off what comes next. -/
theorem fenced_withClause {recursive : Bool} {tables : List Fragment} {g : Fragment}
    (h : ∀ f ∈ tables, Fenced f) (hg : g.Fenced) :
    Fenced (withClause recursive tables ++ g) := by
  rw [withClause]
  split
  · exact hg
  · simp only [List.cons_append, List.append_assoc, List.nil_append]
    exact fenced_append (g := .text " " :: g) (fenced_join h) hg rfl

end Fragment

/-! ## Statements are fenced -/

section Fenced

open Fragment

theorem Arm.parted_fragments (arms : List Arm) : Parted (Arm.fragments arms) := by
  rcases arms with _ | ⟨⟨all, s⟩, arms⟩
  · trivial
  · cases all <;> rfl

theorem Term.parted_fragments (ts : List Term) : Parted (Term.fragments ts) := by
  rcases ts with _ | ⟨⟨c, p⟩, ts⟩
  · trivial
  · cases c <;> rfl

mutual

/-- No placeholder of a statement runs into what comes after it. -/
theorem Select.fenced : (s : Select) → Fenced s.fragment
  | { source, joins, filter, groups, having, arms, order, limit, offset, defaultLimit,
      commonTables, .. } => by
    -- from the last clause to the first: each is fenced off from those before it by its blank
    have hpaging : Parted [.text (Select.pagingText order (limit.or defaultLimit) offset)] :=
      parted_text_of_opensBlank (Select.opensBlank_pagingText _ _ _) trivial
    have htail : Fenced ((having.fragment.clause "HAVING").spaced ++ Arm.fragments arms) :=
      fenced_append (fenced_clause (Filter.fenced having)) (Arm.fenced arms)
        (Arm.parted_fragments arms)
    have htailParted : Parted (.text (Select.groupsText groups) ::
        ((having.fragment.clause "HAVING").spaced ++ Arm.fragments arms)) :=
      parted_text_of_opensBlank (Select.opensBlank_groupsText groups)
        (parted_append (parted_clause _ _) (Arm.parted_fragments arms))
    have hbody : Fenced (source.fragment ++ .text (Select.joinsText joins) ::
        ((filter.fragment.clause "WHERE").spaced ++ .text (Select.groupsText groups) ::
          ((having.fragment.clause "HAVING").spaced ++ Arm.fragments arms))) := by
      refine fenced_append (Source.fenced source) ?_ ?_
      · exact fenced_append (fenced_clause (Filter.fenced filter)) htail htailParted
      · exact parted_text_of_opensBlank (Select.opensBlank_joinsText joins)
          (parted_append (parted_clause _ _) htailParted)
    exact fenced_append (fenced_withClause (CommonTable.fenced commonTables) hbody) trivial hpaging

theorem Source.fenced : (s : Source) → Fenced s.fragment
  | .table _ => trivial
  | .query s _ =>
    fenced_append (fenced_parens (Select.fenced s)) trivial
    (parted_text_of_opensBlank (opensBlank_of_head rfl _) trivial)

theorem CommonTable.fenced : (ts : List CommonTable) → ∀ f ∈ CommonTable.fragments ts, Fenced f
  | [], f, hf => by simp [CommonTable.fragments] at hf
  | ⟨_, s, _⟩ :: ts, f, hf => by
    rw [CommonTable.fragments, List.mem_cons] at hf
    rcases hf with rfl | hf
    · exact fenced_parens (Select.fenced s)
    · exact CommonTable.fenced ts f hf

theorem Arm.fenced : (arms : List Arm) → Fenced (Arm.fragments arms)
  | [] => trivial
  | ⟨_, s⟩ :: arms =>
    fenced_append (fenced_parensIf (Select.fenced s)) (Arm.fenced arms) (Arm.parted_fragments arms)

theorem Filter.fenced : (f : Filter) → Fenced f.fragment
  | ⟨[]⟩ => trivial
  | ⟨⟨_, p⟩ :: ts⟩ =>
    fenced_append (Predicate.fenced p) (Term.fenced ts) (Term.parted_fragments ts)

theorem Term.fenced : (ts : List Term) → Fenced (Term.fragments ts)
  | [] => trivial
  | ⟨_, p⟩ :: ts =>
    fenced_append (Predicate.fenced p) (Term.fenced ts) (Term.parted_fragments ts)

theorem Predicate.fenced : (p : Predicate) → Fenced p.fragment
  | .compare .. => ⟨trivial, trivial⟩
  | .compareQuery _ _ s => fenced_parens (Select.fenced s)
  | .isNull .. => trivial
  | .inList _ [] _ => trivial
  | .inList _ (v :: vs) _ => by
    refine fenced_parens (fenced_join fun f hf => ?_)
    obtain ⟨w, -, rfl⟩ : ∃ w ∈ v :: vs, ofValue w = f := List.mem_map.1 hf
    exact ⟨trivial, trivial⟩
  | .inQuery _ s _ => fenced_parens (Select.fenced s)
  -- the blank before `AND` fences the lower bound off
  | .between .. => ⟨rfl, trivial, trivial⟩
  | .existence s => fenced_parens (Select.fenced s)
  | .raw _ => trivial
  | .group inside => fenced_parens (Filter.fenced inside)

end

end Fenced

end BoundSelect
