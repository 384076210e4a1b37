import BoundSelect.Proofs.Counting

/-!
# References to the columns of a counted statement

A statement with groups is counted from outside, as the source of the count. A column to group by
may refer to an entry of the list of columns, by the alias of the entry or by its place, and a
condition on groups may name an alias. So what the list becomes in the source decides what is
grouped and filtered by. A union or a condition on groups keeps the list, and with it all
references. Otherwise a constant takes its place, and every reference to it is lost, but for the
first place of a list that starts with this constant (`Select.count_refersTo`).
-/

set_option autoImplicit false

namespace BoundSelect

/-- Whether a column to group by refers to an entry of a list of columns: it is the alias of the
entry, or the place of the entry, counted from one. -/
inductive RefersTo (columns : List String) : String → String → Prop where
  | byAlias (expression item : String) (hentry : expression ++ " AS " ++ item ∈ columns) :
      RefersTo columns item (expression ++ " AS " ++ item)
  | byPlace (k : Nat) (entry : String) (hentry : columns[k]? = some entry) :
      RefersTo columns (toString (k + 1)) entry

theorem RefersTo.ne_nil {columns : List String} {item entry : String}
    (h : RefersTo columns item entry) : columns ≠ [] := by
  rintro rfl
  cases h with
  | byAlias expression item hentry => cases hentry
  | byPlace k entry hentry => cases hentry

/-- The constant has no alias, so it can be referred to by its place alone. -/
theorem refersTo_constant_iff {item entry : String} :
    RefersTo ["1"] item entry ↔ item = "1" ∧ entry = "1" := by
  constructor
  · intro h
    cases h with
    | byAlias expression item hentry =>
        have hlength := congrArg String.length (List.mem_singleton.1 hentry)
        have hword : " AS ".length = 4 := rfl
        have hone : "1".length = 1 := rfl
        rw [String.length_append, String.length_append] at hlength
        omega
    | byPlace k entry hentry =>
        cases k with
        | zero => exact ⟨rfl, (Option.some.inj hentry).symm⟩
        | succ k => cases hentry
  · rintro ⟨rfl, rfl⟩
    exact .byPlace 0 "1" rfl

namespace Select

/-- The source of the count of a statement with groups. -/
theorem source_count {s : Select} (hgroups : s.groups ≠ []) :
    s.count.source = .query s.counted "t" := by
  have hflat : s.isFlat = false := by
    rw [Bool.eq_false_iff]
    intro h
    exact hgroups ((isFlat_iff s).1 h).1
  rw [count_of_not_isFlat hflat]
  rfl

/-- What becomes of the list of columns when a statement with groups is counted. The source of the
count has the groups of the statement and its conditions on groups. A column to group by that refers
to an entry of the list still refers to it exactly if there is a union or a condition on groups, or
if the entry is the constant in the first place. With a condition on groups, whatever it names, all
entries are in their places. -/
theorem count_refersTo {s : Select} (hgroups : s.groups ≠ []) :
    ∃ inner : Select, s.count.source = .query inner "t" ∧ inner.groups = s.groups ∧
      inner.having = s.having ∧
      (∀ item ∈ s.groups, ∀ entry, RefersTo s.columns item entry →
        (RefersTo inner.columns item entry ↔
          s.arms ≠ [] ∨ s.having.terms ≠ [] ∨ (item = "1" ∧ entry = "1"))) ∧
      (∀ term ∈ s.having.terms, ∀ (k : Nat) (entry : String), s.columns[k]? = some entry →
        inner.columns[k]? = some entry) ∧
      (s.arms = [] → s.having.terms = [] → inner.columns = ["1"]) := by
  refine ⟨s.counted, source_count hgroups, rfl, rfl, ?_, ?_, ?_⟩
  · intro item _ entry hrefers
    have hcolumns : s.columns ≠ [] := hrefers.ne_nil
    change RefersTo s.countedColumns item entry ↔ _
    rw [countedColumns_eq]
    by_cases harms : s.arms = []
    · by_cases hhaving : s.having.terms = []
      · rw [if_neg (by simp [harms, hhaving]), refersTo_constant_iff]
        simp [harms, hhaving]
      · rw [if_pos (.inr ⟨hhaving, hcolumns⟩)]
        exact ⟨fun _ => .inr (.inl hhaving), fun _ => hrefers⟩
    · rw [if_pos (.inl harms)]
      exact ⟨fun _ => .inl harms, fun _ => hrefers⟩
  · intro term hterm k entry hentry
    have hhaving : s.having.terms ≠ [] := List.ne_nil_of_mem hterm
    have hcolumns : s.columns ≠ [] := by
      intro hnil
      rw [hnil] at hentry
      cases hentry
    change s.countedColumns[k]? = some entry
    rw [countedColumns_eq, if_pos (.inr ⟨hhaving, hcolumns⟩)]
    exact hentry
  · intro harms hhaving
    change s.countedColumns = ["1"]
    rw [countedColumns_eq, if_neg (by simp [harms, hhaving])]

/-- The days with orders, in the groups that a reference to the only column makes, and with
conditions on groups. -/
def days (item : String) (having : List Term) : Select :=
  { ofTable .postgres "orders" (some 10) with
    columns := ["date_trunc('day', created_at) AS day"], groups := [item], having := ⟨having⟩ }

theorem count_refersTo_day :
    (days "day" [⟨.and, .compare "COUNT(*)" .greater (.int 3)⟩]).groups ≠ [] ∧
      ∃ inner, (days "day" [⟨.and, .compare "COUNT(*)" .greater (.int 3)⟩]).count.source =
          .query inner "t" ∧
        RefersTo inner.columns "day" "date_trunc('day', created_at) AS day" := by
  have hgroups : (days "day" [⟨.and, .compare "COUNT(*)" .greater (.int 3)⟩]).groups ≠ [] := by
    simp [days]
  obtain ⟨inner, hsource, -, -, hrefers, -⟩ := count_refersTo hgroups
  refine ⟨hgroups, inner, hsource, ?_⟩
  have hday : RefersTo ["date_trunc('day', created_at) AS day"] "day"
      "date_trunc('day', created_at) AS day" :=
    .byAlias "date_trunc('day', created_at)" "day" List.mem_cons_self
  refine (hrefers "day" List.mem_cons_self _ hday).2 (.inr (.inl ?_))
  simp [days]

/-- Without a condition on groups, neither the alias nor the place of the column is there for the
groups of the count. -/
theorem count_refersTo_lost :
    (Draft.table .postgres none "orders" [.columns ["date_trunc('day', created_at) AS day"],
        .groupBy "day", .count]).make.map (·.query.sql) =
        .ok "SELECT COUNT(*) FROM (SELECT 1 FROM orders GROUP BY day) AS t" ∧
      (RefersTo (days "day" []).columns "day" "date_trunc('day', created_at) AS day" ∧
        ∀ inner, (days "day" []).count.source = .query inner "t" →
          ∀ entry, ¬ RefersTo inner.columns "day" entry) ∧
      (RefersTo (days "1" []).columns "1" "date_trunc('day', created_at) AS day" ∧
        ∀ inner, (days "1" []).count.source = .query inner "t" →
          ∀ entry, RefersTo inner.columns "1" entry → entry = "1") := by
  refine ⟨?_, ⟨?_, ?_⟩, ?_, ?_⟩
  · rfl
  · exact .byAlias "date_trunc('day', created_at)" "day" List.mem_cons_self
  · rintro inner hsource entry hrefers
    cases hsource
    exact absurd (refersTo_constant_iff.1 hrefers).1 (by decide)
  · exact .byPlace 0 _ rfl
  · rintro inner hsource entry hrefers
    cases hsource
    exact (refersTo_constant_iff.1 hrefers).2

end Select

end BoundSelect
