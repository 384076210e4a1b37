import BoundSelect.Proofs.Leaves
import BoundSelect.Select.Fragment

/-!
# The characters of a statement

The clauses of a statement are spelled with capital letters, digits, blanks and a few signs. Any
other character is written only where a text of the statement holds it (`Select.free_fragment`).
-/

set_option autoImplicit false

namespace BoundSelect

/-- The characters that clauses are spelled with. -/
def isClauseChar (c : Char) : Bool :=
  c.isUpper || c.isDigit || c ∈ [' ', ',', '(', ')', '=', '<', '>', '!', '*']

/-- The text does not have the character. -/
abbrev Free (x : Char) (s : String) : Prop := x ∉ s.toList

/-- No text of the fragment has the character. -/
def Fragment.Free (x : Char) (f : Fragment) : Prop :=
  ∀ s, Piece.text s ∈ f → BoundSelect.Free x s

section Free

variable {x : Char}

/-! ## Texts -/

theorem Free.append {s t : String} (hs : Free x s) (ht : Free x t) : Free x (s ++ t) := by
  rw [Free, String.toList_append, List.mem_append]
  exact fun h => h.elim hs ht

theorem free_join {ss : List String} (h : ∀ s ∈ ss, Free x s) : Free x (String.join ss) := by
  rw [Free, String.toList_join, List.mem_flatMap]
  rintro ⟨s, hs, hx⟩
  exact h s hs hx

theorem free_intercalate {separator : String} {ss : List String} (hsep : Free x separator)
    (h : ∀ s ∈ ss, Free x s) : Free x (separator.intercalate ss) := by
  induction ss with
  | nil => simp [Free]
  | cons s ss ih =>
      have hs : Free x s := h s List.mem_cons_self
      have hss : Free x (separator.intercalate ss) :=
        ih fun t ht => h t (List.mem_cons_of_mem _ ht)
      cases ss with
      | nil => rwa [String.intercalate_singleton]
      | cons t ss =>
          rw [String.intercalate_cons_cons]
          exact (hs.append hsep).append hss

section Clauses

variable (hx : isClauseChar x = false)

include hx

/-- A text that clauses are spelled with. -/
theorem free_of_all {s : String} (h : s.toList.all isClauseChar = true) : Free x s := by
  intro hmem
  have hc := List.all_eq_true.1 h x hmem
  rw [hx] at hc
  exact Bool.false_ne_true hc

theorem free_toString (n : Nat) : Free x (toString n) := by
  intro hmem
  rw [Nat.toString_eq_repr, Nat.toList_repr] at hmem
  have hdigit : x.isDigit = true := Nat.isDigit_of_mem_toDigits (by decide) (by decide) hmem
  simp [isClauseChar, hdigit] at hx

/-! ## Clauses without values -/

namespace Select

theorem free_columnsText {columns : List String} (h : ∀ c ∈ columns, Free x c) :
    Free x (columnsText columns) := by
  rw [columnsText]
  split
  · exact free_of_all hx (by decide)
  · exact free_intercalate (free_of_all hx (by decide)) h

theorem free_joinsText {joins : List Join} (h : ∀ j ∈ joins, j.Verbatim (Free x)) :
    Free x (joinsText joins) := by
  apply free_join
  intro s hs
  obtain ⟨j, hj, rfl⟩ := List.mem_map.1 hs
  obtain ⟨htable, hleft, hright⟩ := h j hj
  -- the kind of join is the only word of it that varies
  have hkind : Free x (" " ++ j.kind.keyword ++ " ") := by
    cases j.kind <;> exact free_of_all hx (by decide)
  have hon : Free x " ON " := free_of_all hx (by decide)
  have hequals : Free x " = " := free_of_all hx (by decide)
  have htables := (hkind.append htable).append hon
  exact ((htables.append hleft).append hequals).append hright

theorem free_groupsText {groups : List String} (h : ∀ g ∈ groups, Free x g) :
    Free x (groupsText groups) := by
  rw [groupsText]
  split
  · exact free_of_all hx (by decide)
  · exact (free_of_all hx (by decide)).append (free_intercalate (free_of_all hx (by decide)) h)

theorem free_orderText {order : List SortKey} (h : ∀ k ∈ order, Free x k.column) :
    Free x (orderText order) := by
  rw [orderText]
  split
  · exact free_of_all hx (by decide)
  · refine (free_of_all hx (by decide)).append
      (free_intercalate (free_of_all hx (by decide)) fun s hs => ?_)
    obtain ⟨k, hk, rfl⟩ := List.mem_map.1 hs
    have hdirection : Free x k.direction.keyword := by
      cases k.direction <;> exact free_of_all hx (by decide)
    exact ((h k hk).append (free_of_all hx (by decide))).append hdirection

theorem free_boundText {keyword : String} (hkeyword : Free x keyword) (bound : Option UInt64) :
    Free x (boundText keyword bound) := by
  cases bound with
  | none => simp [boundText, Free]
  | some n => exact hkeyword.append (free_toString hx n.toNat)

theorem free_pagingText {order : List SortKey} (h : ∀ k ∈ order, Free x k.column)
    (limit offset : Option UInt64) : Free x (pagingText order limit offset) :=
  ((free_orderText hx h).append (free_boundText hx (free_of_all hx (by decide)) limit)).append
    (free_boundText hx (free_of_all hx (by decide)) offset)

end Select

end Clauses

/-! ## Fragments -/

namespace Fragment

theorem free_nil : Fragment.Free x [] := fun _ hs => by simp at hs

theorem free_text {s : String} {f : Fragment} (hs : BoundSelect.Free x s) (hf : f.Free x) :
    Fragment.Free x (.text s :: f) := by
  intro t ht
  rcases List.mem_cons.1 ht with ht | ht
  · cases ht
    exact hs
  · exact hf t ht

theorem free_value {v : Value} {f : Fragment} (hf : f.Free x) :
    Fragment.Free x (.value v :: f) := by
  intro t ht
  rcases List.mem_cons.1 ht with ht | ht
  · cases ht
  · exact hf t ht

theorem free_append {f g : Fragment} (hf : f.Free x) (hg : g.Free x) :
    Fragment.Free x (f ++ g) := by
  intro t ht
  exact (List.mem_append.1 ht).elim (hf t) (hg t)

section Clauses

variable (hx : isClauseChar x = false)

include hx

theorem free_parens {f : Fragment} (hf : f.Free x) : f.parens.Free x :=
  free_text (free_of_all hx (by decide))
    (free_append hf (free_text (free_of_all hx (by decide)) free_nil))

theorem free_parensIf {needed : Bool} {f : Fragment} (hf : f.Free x) :
    (parensIf needed f).Free x := by
  cases needed with
  | false => exact hf
  | true => exact free_parens hx hf

theorem free_clause {keyword : String} (hkeyword : BoundSelect.Free x (keyword ++ " "))
    {f : Fragment} (hf : f.Free x) : ((f.clause keyword).spaced).Free x := by
  cases f with
  | nil => exact free_nil
  | cons p f => exact free_text (free_of_all hx (by decide)) (free_text hkeyword hf)

theorem free_fragmentJoin {fs : List Fragment} (h : ∀ f ∈ fs, f.Free x) :
    (join ", " fs).Free x := by
  induction fs with
  | nil => exact free_nil
  | cons f fs ih =>
      have hf : f.Free x := h f List.mem_cons_self
      cases fs with
      | nil => exact hf
      | cons g fs =>
          refine free_append hf (free_text (free_of_all hx (by decide)) ?_)
          exact ih fun h' hh' => h h' (List.mem_cons_of_mem _ hh')

theorem free_withClause {recursive : Bool} {tables : List Fragment}
    (h : ∀ f ∈ tables, f.Free x) : (withClause recursive tables).Free x := by
  have hkeyword : BoundSelect.Free x (if recursive then "WITH RECURSIVE " else "WITH ") := by
    cases recursive <;> exact free_of_all hx (by decide)
  rw [withClause]
  split
  · exact free_nil
  · exact free_text hkeyword (free_append (free_fragmentJoin hx h)
      (free_text (free_of_all hx (by decide)) free_nil))

end Clauses

end Fragment

section Statements

open Fragment

mutual

/-- A character that clauses are not spelled with is written only where a text holds it. -/
theorem Select.free_fragment (hx : isClauseChar x = false) :
    (s : Select) → s.Verbatim (Free x) → s.fragment.Free x
  | { source, joins, filter, groups, having, arms, order, limit, offset, defaultLimit,
      commonTables, .. },
    ⟨htables, hcolumns, hsource, hjoins, hfilter, hgroups, hhaving, harms, horder⟩ => by
    -- from the last clause to the first, each in front of those behind it
    have hpaging : Fragment.Free x
        [.text (Select.pagingText order (limit.or defaultLimit) offset)] :=
      free_text (Select.free_pagingText hx horder _ _) free_nil
    have htail : Fragment.Free x
        ((having.fragment.clause "HAVING").spaced ++ Arm.fragments arms) := by
      apply free_append
      · exact free_clause hx (free_of_all hx (by decide)) (Filter.free_fragment hx having hhaving)
      · exact Arm.free_fragments hx arms harms
    have hmiddle : Fragment.Free x ((filter.fragment.clause "WHERE").spaced ++
        .text (Select.groupsText groups) ::
          ((having.fragment.clause "HAVING").spaced ++ Arm.fragments arms)) := by
      apply free_append
      · exact free_clause hx (free_of_all hx (by decide)) (Filter.free_fragment hx filter hfilter)
      · exact free_text (Select.free_groupsText hx hgroups) htail
    have hsources : Fragment.Free x (source.fragment ++ .text (Select.joinsText joins) ::
        ((filter.fragment.clause "WHERE").spaced ++ .text (Select.groupsText groups) ::
          ((having.fragment.clause "HAVING").spaced ++ Arm.fragments arms))) := by
      apply free_append
      · exact Source.free_fragment hx source hsource
      · exact free_text (Select.free_joinsText hx hjoins) hmiddle
    have hselect := free_text (Select.free_columnsText hx hcolumns)
      (free_text (s := " FROM ") (free_of_all hx (by decide)) hsources)
    have htablesFree := CommonTable.free_fragments hx commonTables htables
    refine free_append (free_append (free_withClause hx htablesFree) ?_) hpaging
    exact free_text (free_of_all hx (by decide)) hselect

theorem Source.free_fragment (hx : isClauseChar x = false) :
    (s : Source) → s.Verbatim (Free x) → s.fragment.Free x
  | .table _, h => free_text h free_nil
  | .query s _, ⟨hs, hname⟩ =>
    free_append (free_parens hx (Select.free_fragment hx s hs))
      (free_text ((free_of_all hx (by decide)).append hname) free_nil)

theorem CommonTable.free_fragments (hx : isClauseChar x = false) :
    (ts : List CommonTable) →
    CommonTable.Verbatim (Free x) ts → ∀ f ∈ CommonTable.fragments ts, f.Free x
  | [], _, f, hf => by simp [CommonTable.fragments] at hf
  | ⟨_, s, _⟩ :: ts, ⟨hname, hs, hts⟩, f, hf => by
    rw [CommonTable.fragments, List.mem_cons] at hf
    rcases hf with rfl | hf
    · exact free_text (hname.append (free_of_all hx (by decide)))
        (free_parens hx (Select.free_fragment hx s hs))
    · exact CommonTable.free_fragments hx ts hts f hf

theorem Arm.free_fragments (hx : isClauseChar x = false) :
    (arms : List Arm) → Arm.Verbatim (Free x) arms →
    (Arm.fragments arms).Free x
  | [], _ => free_nil
  | ⟨all, s⟩ :: arms, ⟨hs, harms⟩ => by
    have hkeyword : Free x (if all then " UNION ALL " else " UNION ") := by
      cases all <;> exact free_of_all hx (by decide)
    exact free_text hkeyword (free_append (free_parensIf hx (Select.free_fragment hx s hs))
      (Arm.free_fragments hx arms harms))

theorem Filter.free_fragment (hx : isClauseChar x = false) :
    (f : Filter) → f.Verbatim (Free x) → f.fragment.Free x
  | ⟨[]⟩, _ => free_nil
  | ⟨⟨_, p⟩ :: ts⟩, ⟨hp, hts⟩ =>
    free_append (Predicate.free_fragment hx p hp) (Term.free_fragments hx ts hts)

theorem Term.free_fragments (hx : isClauseChar x = false) :
    (ts : List Term) → Term.Verbatim (Free x) ts →
    (Term.fragments ts).Free x
  | [], _ => free_nil
  | ⟨c, p⟩ :: ts, ⟨hp, hts⟩ => by
    have hkeyword : Free x (" " ++ c.keyword ++ " ") := by
      cases c <;> exact free_of_all hx (by decide)
    exact free_text hkeyword (free_append (Predicate.free_fragment hx p hp)
      (Term.free_fragments hx ts hts))

theorem Predicate.free_fragment (hx : isClauseChar x = false) :
    (p : Predicate) → p.Verbatim (Free x) → p.fragment.Free x
  | .compare column op v, h => by
    have hop : Free x op.symbol := by cases op <;> exact free_of_all hx (by decide)
    exact free_text (((Free.append h (free_of_all hx (by decide))).append hop).append
      (free_of_all hx (by decide))) (free_value free_nil)
  | .compareQuery column op s, ⟨h, hs⟩ => by
    have hop : Free x op.symbol := by cases op <;> exact free_of_all hx (by decide)
    exact free_text (((Free.append h (free_of_all hx (by decide))).append hop).append
      (free_of_all hx (by decide))) (free_parens hx (Select.free_fragment hx s hs))
  | .isNull column negated, h => by
    have hword : Free x (if negated then " IS NOT NULL" else " IS NULL") := by
      cases negated <;> exact free_of_all hx (by decide)
    exact free_text (Free.append h hword) free_nil
  | .inList column [] negated, _ => by
    -- an empty list leaves a constant, so its column may hold anything
    cases negated <;> exact free_text (free_of_all hx (by decide)) free_nil
  | .inList column (v :: vs) negated, h => by
    have hword : Free x (if negated then " NOT IN " else " IN ") := by
      cases negated <;> exact free_of_all hx (by decide)
    refine free_text (Free.append (h (List.cons_ne_nil v vs)) hword)
      (free_parens hx (free_fragmentJoin hx fun f hf => ?_))
    obtain ⟨w, -, rfl⟩ : ∃ w ∈ v :: vs, ofValue w = f := List.mem_map.1 hf
    exact free_value free_nil
  | .inQuery column s negated, ⟨h, hs⟩ => by
    have hword : Free x (if negated then " NOT IN " else " IN ") := by
      cases negated <;> exact free_of_all hx (by decide)
    exact free_text (Free.append h hword) (free_parens hx (Select.free_fragment hx s hs))
  | .between column low high, h =>
    free_text (Free.append h (free_of_all hx (by decide)))
      (free_value (free_text (free_of_all hx (by decide)) (free_value free_nil)))
  | .existence s, h =>
    free_text (free_of_all hx (by decide)) (free_parens hx (Select.free_fragment hx s h))
  | .raw _, h => free_text h free_nil
  | .group inside, h => free_parens hx (Filter.free_fragment hx inside h)

end

end Statements

end Free

end BoundSelect
