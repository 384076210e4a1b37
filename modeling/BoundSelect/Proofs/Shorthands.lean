import BoundSelect.Proofs.Comparisons
import BoundSelect.Proofs.Noninterference

/-!
# Steps that are short for comparisons

Several steps build a predicate directly that a comparison builds after it has looked at the text of
an operator and the form of an operand. `FilterStep.ShortFor` pairs each of them with the
comparisons it stands for, and both do the same to every filter (`FilterStep.ShortFor.run_eq`). A
list of entries stands for a step an entry (`Step.runAll_ofEntry`).
-/

set_option autoImplicit false

namespace BoundSelect

/-! ## Operators by their words -/

/-- A text has the words of another one, in any ASCII case and with any blanks around and between
them. -/
def Text.Respells (words text : String) : Prop :=
  SameWords text.toList words.toList

/-- The words that ask a comparison for what a step for one value does. -/
def Scalar.words : Scalar → String
  | .different => "!="
  | .greater => ">"
  | .atLeast => ">="
  | .less => "<"
  | .atMost => "<="
  | .like => "LIKE"
  | .likeAnyCase => "ILIKE"

theorem Scalar.spelled_of_respells {op : Scalar} {text : String}
    (h : Text.Respells op.words text) : op.operator.Spelled text := by
  cases op <;> exact h

/-! ## One step for one comparison -/

/-- The first step is short for the second, a comparison whose operator is given by its words. -/
inductive FilterStep.ShortFor : FilterStep → FilterStep → Prop where
  | scalar (op : Scalar) (column : String) (v : Value) {text : String}
      (htext : Text.Respells op.words text) :
      ShortFor (.scalar op column v) (.comparison .and column text (.value v))
  /-- Equality with null asks for null instead, which no comparison does. -/
  | equals (c : Connective) (column : String) {v : Value} (hv : v.isNull = false) {text : String}
      (htext : Text.Respells "=" text) :
      ShortFor (.equals c column v) (.comparison c column text (.value v))
  | inList (column : String) {operand : Operand Draft} {vs : List Value} (hvs : operand.Lists vs)
      {text : String} (htext : Text.Respells "IN" text) :
      ShortFor (.inList column vs false) (.comparison .and column text operand)
  | notInList (column : String) {operand : Operand Draft} {vs : List Value}
      (hvs : operand.Lists vs) {text : String} (htext : Text.Respells "NOT IN" text) :
      ShortFor (.inList column vs true) (.comparison .and column text operand)
  | between (column : String) {operand : Operand Draft} {low high : Value}
      (hpair : operand.Lists [low, high]) {text : String} (htext : Text.Respells "BETWEEN" text) :
      ShortFor (.between column low high) (.comparison .and column text operand)
  /-- The column of such a comparison is not looked at. -/
  | existence (inner : Draft) (column : String) {text : String}
      (htext : Text.Respells "EXISTS" text) :
      ShortFor (.existence inner) (.comparison .and column text (.query inner))

theorem Draft.exists_makeOperand {operand : Operand Draft} {vs : List Value}
    (hvs : operand.Lists vs) :
    ∃ made, Draft.makeOperand operand = .ok made ∧ made.Lists vs := by
  cases hvs with
  | list => exact ⟨.list vs, rfl, .list vs⟩
  | array => exact ⟨.value (.array vs), rfl, .array vs⟩

theorem Scalar.shape_operator (op : Scalar) : op.operator.shape = .single := by
  cases op <;> rfl

namespace FilterStep

variable {c : Connective} {column text : String} {op : Operator}

/-- A comparison that is made of a draft is added. -/
theorem run_comparison_eq_add {operand : Operand Draft} {made : Operand Select} {p : Predicate}
    (hmade : Draft.makeOperand operand = .ok made) (hop : op.Spelled text)
    (hp : Predicate.ofOperand? column op made = some p) :
    (comparison c column text operand).run = Filter.add c p := by
  have hcomparison : (Draft.makeOperand operand >>= Predicate.comparison column text) = .ok p := by
    simp only [hmade, bind, Except.bind]
    exact Predicate.comparison_of_ofOperand? hop hp
  rw [run_comparison, hcomparison]
  rfl

theorem run_comparison_value (hop : op.Spelled text) (hshape : op.shape = .single) (v : Value) :
    (comparison c column text (.value v)).run = Filter.add c (.compare column op v) :=
  run_comparison_eq_add rfl hop (Predicate.ofOperand?_value hshape v)

theorem run_comparison_members {operand : Operand Draft} {vs : List Value}
    (hvs : operand.Lists vs) (hop : op.Spelled text) (hshape : op.shape = .list) :
    (comparison c column text operand).run =
      Filter.add c (.inList column vs (op = .nonMember)) := by
  obtain ⟨made, hmade, hlists⟩ := Draft.exists_makeOperand hvs
  exact run_comparison_eq_add hmade hop (Predicate.ofOperand?_members hshape hlists)

theorem run_comparison_range {operand : Operand Draft} {low high : Value}
    (hpair : operand.Lists [low, high]) (hop : Operator.between.Spelled text) :
    (comparison c column text operand).run = Filter.add c (.between column low high) := by
  obtain ⟨made, hmade, hlists⟩ := Draft.exists_makeOperand hpair
  exact run_comparison_eq_add hmade hop (Predicate.ofOperand?_range hlists)

theorem run_comparison_query {inner : Draft} {s : Select} (hmake : inner.make = .ok s)
    (hop : Operator.member.Spelled text) :
    (comparison c column text (.query inner)).run = Filter.add c (.inQuery column s false) := by
  have hmade : Draft.makeOperand (.query inner) = .ok (.query s) := by
    rw [Draft.makeOperand, hmake]
    rfl
  exact run_comparison_eq_add hmade hop (Predicate.ofOperand?_rows rfl s)

/-- The statement that is asked for rows is made or not, and then both steps fail. -/
theorem run_existence (inner : Draft) (hop : Operator.existence.Spelled text) :
    (existence inner).run = (comparison .and column text (.query inner)).run := by
  rw [run_comparison, run, Draft.makeOperand]
  cases inner.make with
  | error e => rfl
  | ok s =>
      have hcomparison : Predicate.comparison column text (.query s) = .ok (.existence s) :=
        Predicate.comparison_of_ofOperand? hop rfl
      simp only [Except.map, bind, Except.bind, hcomparison]

/-- Both steps do the same to every filter. -/
theorem ShortFor.run_eq {short general : FilterStep} (h : short.ShortFor general) :
    short.run = general.run := by
  cases h with
  | scalar op column v htext =>
      rw [run_comparison_value (Scalar.spelled_of_respells htext) op.shape_operator]
      rfl
  | @equals c column v hv text htext =>
      have hequal : Operator.equal.Spelled text := htext
      rw [run_comparison_value hequal rfl]
      simp only [run, Filter.addEquals, Predicate.equals, hv, Bool.false_eq_true, if_false]
  | @inList column operand vs hvs text htext =>
      have hmember : Operator.member.Spelled text := htext
      rw [run_comparison_members hvs hmember rfl]
      rfl
  | @notInList column operand vs hvs text htext =>
      have hnonMember : Operator.nonMember.Spelled text := htext
      rw [run_comparison_members hvs hnonMember rfl]
      rfl
  | between column hpair htext =>
      rw [run_comparison_range hpair htext]
      rfl
  | existence inner column htext => exact run_existence inner htext

end FilterStep

/-! ## One step for a list of comparisons -/

/-- The step that one entry of a list is short for. -/
def FilterStep.ofEntry : String × Entry Draft → FilterStep
  | (column, .equals v) => .equals .and column v
  | (column, .isNull) => .equals .and column .null
  | (column, .compare op operand) => .comparison .and column op operand

/-- Makes the statement of one entry. -/
def Draft.makeEntry : Entry Draft → Except Fault (Entry Select)
  | .equals v => .ok (.equals v)
  | .isNull => .ok .isNull
  | .compare op operand => (Draft.makeOperand operand).map (.compare op)

theorem Draft.makeEntries_cons (column : String) (e : Entry Draft)
    (es : List (String × Entry Draft)) :
    Draft.makeEntries ((column, e) :: es) = do
      let first ← Draft.makeEntry e
      let rest ← Draft.makeEntries es
      return (column, first) :: rest := by
  cases e with
  | equals v =>
      rw [Draft.makeEntries]
      rfl
  | isNull =>
      rw [Draft.makeEntries]
      rfl
  | compare op operand =>
      rw [Draft.makeEntries, Draft.makeEntry]
      cases Draft.makeOperand operand <;> rfl

theorem FilterStep.run_ofEntry (column : String) {e : Entry Draft} {made : Entry Select}
    (h : Draft.makeEntry e = .ok made) :
    (FilterStep.ofEntry (column, e)).run = Filter.addEntry column made := by
  cases e with
  | equals v =>
      cases h
      rw [ofEntry, run]
      rfl
  | isNull =>
      cases h
      rw [ofEntry, run]
      rfl
  | compare op operand =>
      rw [ofEntry, run_comparison]
      cases hmade : Draft.makeOperand operand with
      | error fault =>
          rw [Draft.makeEntry, hmade] at h
          cases h
      | ok operand =>
          rw [Draft.makeEntry, hmade] at h
          cases h
          simp only [bind, Except.bind]
          rfl

theorem Select.editFilter_andThen (s : Select) (first second : Filter.Edit) :
    s.editFilter (first.andThen second) =
      (s.editFilter first >>= fun t => t.editFilter second) := by
  simp only [editFilter, Filter.Edit.andThen]
  rcases first s.filter with ⟨_ | _, f⟩
  · rfl
  · rfl

/-- Once the statements in them are made, entries do what their steps do one after the other, also
where one of them fails. -/
theorem Step.runAll_ofEntry {es : List (String × Entry Draft)} {made : List (String × Entry Select)}
    (h : Draft.makeEntries es = .ok made) (s : Select) :
    Step.runAll (es.map fun entry => .filter (.ofEntry entry)) s =
      s.editFilter (Filter.addEntries made) := by
  induction es generalizing made s with
  | nil =>
      obtain rfl : [] = made := Except.ok.inj h
      rw [List.map_nil, Step.runAll]
      cases s
      rfl
  | cons entry es ih =>
      obtain ⟨column, e⟩ := entry
      rw [Draft.makeEntries_cons] at h
      cases hfirst : Draft.makeEntry e with
      | error fault => simp [hfirst, bind, Except.bind] at h
      | ok first =>
          cases hrest : Draft.makeEntries es with
          | error fault => simp [hfirst, hrest, bind, Except.bind] at h
          | ok rest =>
              rw [hfirst, hrest] at h
              obtain rfl : (column, first) :: rest = made := Except.ok.inj h
              rw [List.map_cons, Step.runAll, Step.run, FilterStep.run_ofEntry column hfirst,
                Filter.addEntries, Select.editFilter_andThen]
              exact congrArg _ (funext fun t => ih hrest t)

/-! ## Shorthands on a statement -/

/-- For every statement, a step that is short for a comparison does the same as the comparison,
whatever blanks and letter case the words of its operator are given with. Asking for membership in
the rows of a statement is the comparison `IN`, and never fails once that statement is there. A list
of entries that succeeds has done what its entries do one by one. -/
theorem Step.run_shorthand (s : Select) :
    (∀ short general : FilterStep, short.ShortFor general →
      (Step.filter short).run s = (Step.filter general).run s) ∧
    (∀ (column : String) (inner : Draft) (q : Select), inner.make = .ok q →
      ∃ t, (Step.inQuery column inner).run s = .ok t ∧
        ∀ text : String, Text.Respells "IN" text →
          (Step.filter (.comparison .and column text (.query inner))).run s = .ok t) ∧
    (∀ (es : List (String × Entry Draft)) (t : Select), (Step.filter (.entries es)).run s = .ok t →
      Step.runAll (es.map fun entry => .filter (.ofEntry entry)) s = .ok t) := by
  refine ⟨?_, ?_, ?_⟩
  · intro short general hshort
    rw [Step.run, Step.run, hshort.run_eq]
  · intro column inner q hmake
    have hrun : ∀ text : String, Text.Respells "IN" text →
        (Step.filter (.comparison .and column text (.query inner))).run s =
          .ok { s with filter := s.filter.push .and (.inQuery column q false) } := by
      intro text htext
      rw [Step.run, FilterStep.run_comparison_query hmake htext]
      rfl
    exact ⟨_, hrun "IN" (Operator.spelled_symbol .member), hrun⟩
  · intro es t hrun
    cases hmade : Draft.makeEntries es with
    | error e => simp [Step.run, FilterStep.run, Select.editFilter, hmade] at hrun
    | ok made =>
        have hentries : (FilterStep.entries es).run = Filter.addEntries made := by
          funext f
          simp only [FilterStep.run, hmade]
        rw [Step.runAll_ofEntry hmade, ← hrun, Step.run, hentries]

/-- Entries for three columns, one of them without a value. -/
def threeEntries : List (String × Entry Draft) :=
  [("a", .equals (.int 1)), ("b", .isNull), ("c", .compare " ilike" (.value (.text "x%")))]

/-- A bound and a pattern, no members in a list, the rows of a statement, and a list of entries. -/
theorem Step.run_shorthand_spelled :
    (Step.filter (.scalar .atLeast "a" (.int 3))).run (.ofTable .mysql "t" none) =
      (Step.filter (.comparison .and "a" "\n>=\u2003" (.value (.int 3)))).run
        (.ofTable .mysql "t" none) ∧
    (Step.filter (.scalar .likeAnyCase "a" (.text "x%"))).run (.ofTable .mysql "t" none) =
      (Step.filter (.comparison .and "a" " iLike" (.value (.text "x%")))).run
        (.ofTable .mysql "t" none) ∧
    (Step.filter (.inList "a" [] true)).run (.ofTable .mysql "t" none) =
      (Step.filter (.comparison .and "a" " not\u00a0 In" (.value (.array [])))).run
        (.ofTable .mysql "t" none) ∧
    (∃ t, (Step.inQuery "a" (.table .mysql none "u" [])).run (.ofTable .mysql "t" none) = .ok t ∧
      (Step.filter (.comparison .and "a" "\tin" (.query (.table .mysql none "u" [])))).run
        (.ofTable .mysql "t" none) = .ok t) ∧
    ∃ t, Step.runAll
        [.filter (.equals .and "a" (.int 1)), .filter (.equals .and "b" .null),
          .filter (.comparison .and "c" " ilike" (.value (.text "x%")))]
        (.ofTable .mysql "t" none) = .ok t ∧ t.filter.length = 3 := by
  obtain ⟨hshort, hrows, hentries⟩ := Step.run_shorthand (.ofTable .mysql "t" none)
  refine ⟨?_, ?_, ?_, ?_, ?_⟩
  · have hbound : Text.Respells ">=" "\n>=\u2003" := Text.sameWords_iff_spaced.2 (by decide)
    exact hshort _ _ (.scalar .atLeast "a" (.int 3) hbound)
  · have hpattern : Text.Respells "ILIKE" " iLike" := Text.sameWords_iff_spaced.2 (by decide)
    exact hshort _ _ (.scalar .likeAnyCase "a" (.text "x%") hpattern)
  · have hnone : Text.Respells "NOT IN" " not\u00a0 In" := Text.sameWords_iff_spaced.2 (by decide)
    exact hshort _ _ (.notInList "a" (.array []) hnone)
  · have hmember : Text.Respells "IN" "\tin" := Text.sameWords_iff_spaced.2 (by decide)
    obtain ⟨t, hrun, hany⟩ := hrows "a" (.table .mysql none "u" []) _ rfl
    exact ⟨t, hrun, hany "\tin" hmember⟩
  · exact ⟨_, hentries threeEntries _ (by rfl), by rfl⟩

end BoundSelect
