import BoundSelect.Draft
import BoundSelect.Proofs.Lexemes
import Mathlib.Data.List.SplitBy
import Mathlib.Data.List.TakeWhile

/-!
# What a written filter means

A filter means the value of its nodes: the list is split before every node that `OR` joins, the
first of all excepted, each piece is the conjunction of its nodes, and the whole is the disjunction
of its pieces. A group is one node and has the value of its own list. Values are those of logic with
null: neither true nor false is a third one.

The written filter means the same. Its text can be read as a condition in exactly one way, and that
condition has the value of the nodes, whatever values the atoms have
(`Filter.existsUnique_reading`).
-/

set_option autoImplicit false

namespace BoundSelect

/-! ## Truth -/

/-- The truth of a condition on a row. -/
inductive Truth where
  | no
  | unknown
  | yes
  deriving DecidableEq

namespace Truth

/-- False if one side is, and true if both sides are. -/
def and : Truth → Truth → Truth
  | .no, _ | _, .no => .no
  | .yes, .yes => .yes
  | _, _ => .unknown

/-- True if one side is, and false if both sides are. -/
def or : Truth → Truth → Truth
  | .yes, _ | _, .yes => .yes
  | .no, .no => .no
  | _, _ => .unknown

/-- The conjunction of a list. -/
def all (ts : List Truth) : Truth := ts.foldr and .yes

/-- The disjunction of a list. -/
def any (ts : List Truth) : Truth := ts.foldr or .no

theorem and_assoc (a b c : Truth) : (a.and b).and c = a.and (b.and c) := by
  cases a <;> cases b <;> cases c <;> rfl

theorem or_assoc (a b c : Truth) : (a.or b).or c = a.or (b.or c) := by
  cases a <;> cases b <;> cases c <;> rfl

theorem and_yes (a : Truth) : a.and .yes = a := by cases a <;> rfl

theorem no_or (a : Truth) : Truth.no.or a = a := by cases a <;> rfl

theorem or_no (a : Truth) : a.or .no = a := by cases a <;> rfl

/-- The value of nodes, each with what joins it to those before it: a new piece begins with every
node that `OR` joins, and what joins the first does not matter. -/
def ofNodes (nodes : List (Connective × Truth)) : Truth :=
  any ((nodes.splitBy fun _ node => node.1 = .and).map fun piece => all (piece.map Prod.snd))

end Truth

/-! ## Pieces of a list of nodes -/

theorem isChain_cons_of_forall {α : Type} {p : α → Bool} {as : List α} (h : ∀ b ∈ as, p b = true)
    (a : α) : (a :: as).IsChain fun _ b => p b = true := by
  induction as generalizing a with
  | nil => exact List.isChain_singleton a
  | cons b as ih =>
      refine List.isChain_cons_cons.2 ⟨h b List.mem_cons_self, ih ?_ b⟩
      exact fun c hc => h c (List.mem_cons_of_mem b hc)

/-- Where only the second of two neighbours decides whether to split between them, the first piece
goes up to the first element that begins a new one. -/
theorem splitBy_cons {α : Type} (p : α → Bool) (a : α) (as : List α) :
    (a :: as).splitBy (fun _ b => p b) =
      (a :: as.takeWhile p) :: (as.dropWhile p).splitBy (fun _ b => p b) := by
  have hpiece : (a :: as.takeWhile p).splitBy (fun _ b => p b) = [a :: as.takeWhile p] := by
    apply List.splitBy_of_isChain (List.cons_ne_nil _ _)
    exact isChain_cons_of_forall (fun _ hb => List.mem_takeWhile_imp hb) a
  have hbegin : ∀ b ∈ (as.dropWhile p).head?, p b = false := by
    intro b hb
    have hhead := List.head?_dropWhile_not p as
    rwa [Option.mem_def.1 hb] at hhead
  calc (a :: as).splitBy (fun _ b => p b)
      = ((a :: as.takeWhile p) ++ as.dropWhile p).splitBy (fun _ b => p b) := by
        rw [List.cons_append, List.takeWhile_append_dropWhile]
    _ = (a :: as.takeWhile p) :: (as.dropWhile p).splitBy (fun _ b => p b) := by
        rw [List.splitBy_append fun _ _ b hb => hbegin b hb, hpiece, List.singleton_append]

namespace Truth

variable (c : Connective) (a b : Truth) (nodes : List (Connective × Truth))

theorem ofNodes_cons :
    ofNodes ((c, a) :: nodes) =
      (a.and (all ((nodes.takeWhile fun node => node.1 = .and).map Prod.snd))).or
        (ofNodes (nodes.dropWhile fun node => node.1 = .and)) := by
  rw [ofNodes, splitBy_cons]
  rfl

theorem ofNodes_singleton : ofNodes [(c, a)] = a := by
  rw [ofNodes_cons]
  exact (or_no _).trans (and_yes a)

/-- A node that `AND` joins belongs to the piece of the one before it. -/
theorem ofNodes_and :
    ofNodes ((c, a) :: (.and, b) :: nodes) = ofNodes ((c, a.and b) :: nodes) := by
  rw [ofNodes_cons, ofNodes_cons, and_assoc]
  rfl

/-- A node that `OR` joins begins a piece. -/
theorem ofNodes_or :
    ofNodes ((c, a) :: (.or, b) :: nodes) = a.or (ofNodes ((.or, b) :: nodes)) := by
  rw [ofNodes_cons]
  exact congrArg (or · _) (and_yes a)

end Truth

/-! ## The value of a filter -/

section Assignment

variable (assign : Predicate → Truth)

/-- The value of a condition, for values of its atoms. -/
def Condition.truth : Condition → Truth
  | .atom p => assign p
  | .and a b => a.truth.and b.truth
  | .or a b => a.truth.or b.truth

/-- What is seen of a predicate. Of an empty list no column is written. -/
def Predicate.shown : Predicate → Predicate
  | .inList _ [] negated => .inList "" [] negated
  | p => p

mutual

/-- The value of a filter, for values of its predicates. -/
def Filter.truth : Filter → Truth
  | ⟨ts⟩ => .ofNodes (Term.truths ts)

/-- The nodes of a list of terms. -/
def Term.truths : List Term → List (Connective × Truth)
  | [] => []
  | ⟨c, p⟩ :: ts => (c, p.truth) :: Term.truths ts

/-- The value of a predicate. A group has that of its own list. -/
def Predicate.truth : Predicate → Truth
  | .group inside => inside.truth
  | p => assign p.shown

end

end Assignment

/-! ## Reading a filter -/

/-- The value of conjunctions that are complete, if there are any. -/
def completeTruth (assign : Predicate → Truth) : Option Condition → Truth
  | none => .no
  | some d => d.truth assign

/-- Lexemes of a condition that may go on: the conjunctions that are complete, and the last one. -/
inductive Open : Option Condition → Condition → List Lexeme → Prop where
  | first {ss : List Lexeme} {a : Condition} (h : Conjunction ss a) : Open none a ss
  | later {ss ts : List Lexeme} {d a : Condition} (hd : Disjunction ss d) (h : Conjunction ts a) :
      Open (some d) a (ss ++ .connective .or :: ts)

namespace Open

variable {complete : Option Condition} {a b : Condition} {ss ts : List Lexeme}

/-- The condition may end here. -/
theorem disjunction (h : Open complete a ss) :
    ∃ c, Disjunction ss c ∧
      ∀ assign, c.truth assign = (completeTruth assign complete).or (a.truth assign) := by
  cases h with
  | first h => exact ⟨a, .one h, fun assign => (Truth.no_or _).symm⟩
  | later hd h => exact ⟨_, .more hd h, fun assign => rfl⟩

/-- `AND` goes on with the last conjunction. -/
theorem and (h : Open complete a ss) (hb : Factor ts b) :
    Open complete (.and a b) (ss ++ .connective .and :: ts) := by
  cases h with
  | first h => exact .first (.more h hb)
  | later hd h =>
      rw [List.append_assoc, List.cons_append]
      exact .later hd (.more h hb)

/-- `OR` completes the last conjunction. -/
theorem or (h : Open complete a ss) (hb : Factor ts b) :
    ∃ d, Open (some d) b (ss ++ .connective .or :: ts) ∧
      ∀ assign, d.truth assign = (completeTruth assign complete).or (a.truth assign) := by
  obtain ⟨d, hd, htruth⟩ := h.disjunction
  exact ⟨d, .later hd (.one hb), htruth⟩

end Open

mutual

/-- The lexemes of a filter with terms can be read as a condition of the same value. -/
theorem Filter.exists_disjunction : (f : Filter) → f.Sound → f.terms ≠ [] →
    ∃ c, Disjunction f.lexemes c ∧ ∀ assign, c.truth assign = f.truth assign
  | ⟨[]⟩, _, hterms => absurd rfl hterms
  | ⟨⟨c, p⟩ :: ts⟩, hsound, _ => by
    obtain ⟨a, ha, htruth⟩ := Predicate.exists_factor p hsound.1
    obtain ⟨d, hd, hvalue⟩ := Term.exists_disjunction ts hsound.2 (.first (.one ha))
    refine ⟨d, hd, fun assign => ?_⟩
    rw [hvalue assign c, htruth]
    exact Truth.no_or _

/-- The lexemes of further terms go on with a condition. -/
theorem Term.exists_disjunction : (ts : List Term) → Term.Sound ts →
    ∀ {complete : Option Condition} {a : Condition} {ss : List Lexeme}, Open complete a ss →
      ∃ d, Disjunction (ss ++ Term.lexemes ts) d ∧ ∀ assign (c : Connective),
        d.truth assign = (completeTruth assign complete).or
          (.ofNodes ((c, a.truth assign) :: Term.truths assign ts))
  | [], _, complete, a, ss, h => by
    obtain ⟨d, hd, htruth⟩ := h.disjunction
    refine ⟨d, by rwa [Term.lexemes, List.append_nil], fun assign c => ?_⟩
    rw [htruth, Term.truths, Truth.ofNodes_singleton]
  | ⟨.and, p⟩ :: ts, hsound, complete, a, ss, h => by
    obtain ⟨b, hb, htruth⟩ := Predicate.exists_factor p hsound.1
    obtain ⟨d, hd, hvalue⟩ := Term.exists_disjunction ts hsound.2 (h.and hb)
    rw [List.append_assoc, List.cons_append] at hd
    refine ⟨d, hd, fun assign c => ?_⟩
    rw [hvalue assign c, Term.truths, Truth.ofNodes_and, Condition.truth, htruth]
  | ⟨.or, p⟩ :: ts, hsound, complete, a, ss, h => by
    obtain ⟨b, hb, htruth⟩ := Predicate.exists_factor p hsound.1
    obtain ⟨e, he, hcomplete⟩ := h.or hb
    obtain ⟨d, hd, hvalue⟩ := Term.exists_disjunction ts hsound.2 he
    rw [List.append_assoc, List.cons_append] at hd
    refine ⟨d, hd, fun assign c => ?_⟩
    -- what was complete, and the piece that `OR` completed, stand before the next piece
    rw [hvalue assign .or, Term.truths, Truth.ofNodes_or, htruth, completeTruth, hcomplete,
      Truth.or_assoc]

/-- The lexemes of a predicate are a factor. -/
theorem Predicate.exists_factor : (p : Predicate) → p.Sound →
    ∃ a, Factor p.lexemes a ∧ ∀ assign, a.truth assign = p.truth assign
  | .compare column op v, _ => ⟨_, .atom (.compare column op v), fun _ => rfl⟩
  | .compareQuery column op s, _ => ⟨_, .atom (.compareQuery column op s), fun _ => rfl⟩
  | .isNull column false, _ => ⟨_, .atom (.isNull column), fun _ => rfl⟩
  | .isNull column true, _ => ⟨_, .atom (.isNotNull column), fun _ => rfl⟩
  | .inList _ [] negated, _ => ⟨_, .atom (.constant negated), fun _ => rfl⟩
  | .inList column (v :: vs) negated, _ =>
    ⟨_, .atom (.inList column negated (List.cons_ne_nil v vs)), fun _ => rfl⟩
  | .inQuery column s negated, _ => ⟨_, .atom (.inQuery column s negated), fun _ => rfl⟩
  | .between column low high, _ => ⟨_, .atom (.between column low high), fun _ => rfl⟩
  | .existence s, _ => ⟨_, .atom (.existence s), fun _ => rfl⟩
  | .raw sql, _ => ⟨_, .atom (.name sql), fun _ => rfl⟩
  | .group inside, hsound => by
    obtain ⟨a, ha, htruth⟩ := Filter.exists_disjunction inside hsound.2 hsound.1
    exact ⟨a, .parens ha, htruth⟩

end

/-- The text of a filter, however its steps went, is a condition that can be read in exactly one
way, and that has the value of the filter for any values of the atoms. The statements in it are
taken as they stand. A filter without terms has no text. -/
theorem Filter.existsUnique_reading (e : Engine) {steps : List FilterStep} {f : Filter}
    (hsteps : (FilterStep.runAll steps .empty).2 = f) (hnamed : f.Named) {b : Bindings}
    (hdialect : b.dialect = e.dialect) :
    (f.marks b).flatMap Mark.chars = (f.render b).1.toList ∧
      (f.terms = [] → (f.render b).1 = "") ∧
      (f.terms ≠ [] → ∃ c,
        (∀ c', Disjunction (BoundSelect.lexemes (f.render b).2.values b.values.length (f.marks b)) c'
          ↔ c' = c) ∧
        ∀ assign, c.truth assign = f.truth assign) := by
  have hsound : f.Sound := hsteps ▸ FilterStep.runAll_keepsSound steps .empty trivial
  refine ⟨f.chars_marks b, ?_, ?_⟩
  · intro hterms
    obtain ⟨ts⟩ := f
    obtain rfl : ts = [] := hterms
    rfl
  · intro hterms
    rw [Filter.lexemes_marks e hsound hnamed hdialect]
    obtain ⟨c, hc, htruth⟩ := f.exists_disjunction hsound hterms
    refine ⟨c, fun c' => ⟨fun hc' => hc'.unique hc, ?_⟩, htruth⟩
    rintro rfl
    exact hc

/-- A statement whose text would end the parentheses around it, if it were looked into. -/
def stray : Select :=
  { Select.ofTable .mysql "u" none with filter := ⟨[⟨.and, .raw "x) OR (y = $9"⟩]⟩ }

/-- A range in a run of `AND` and `OR`, a group that `OR` joins, a list without members in it, and a
statement inside. -/
def mixedSteps : List FilterStep :=
  [.equals .or "a" (.int 1), .between "b" (.int 2) (.int 3),
    .group .or [.equals .or "c" .null, .inList "d" [] true, .raw .or "flag"],
    .existence (.table .mysql none "u" [.filter (.raw .and "x) OR (y = $9")])]

/-- The filter of these steps. -/
def mixed : Filter :=
  ⟨[⟨.or, .compare "a" .equal (.int 1)⟩, ⟨.and, .between "b" (.int 2) (.int 3)⟩,
    ⟨.or, .group ⟨[⟨.or, .isNull "c" false⟩, ⟨.and, .inList "d" [] true⟩, ⟨.or, .raw "flag"⟩]⟩⟩,
    ⟨.and, .existence stray⟩]⟩

theorem Filter.existsUnique_reading_mixed :
    (FilterStep.runAll mixedSteps .empty).2 = mixed ∧ mixed.Named ∧
      (mixed.render ⟨.postgres, []⟩).1 =
        "a = $1 AND b BETWEEN $2 AND $3 OR (c IS NULL AND 1=1 OR flag) AND " ++
          "EXISTS (SELECT * FROM u WHERE x) OR (y = $9)" ∧
      ∃ c, (∀ c', Disjunction (BoundSelect.lexemes (mixed.render ⟨.postgres, []⟩).2.values 0
          (mixed.marks ⟨.postgres, []⟩)) c' ↔ c' = c) ∧
        ∀ assign, c.truth assign =
          ((assign (.compare "a" .equal (.int 1))).and
            (assign (.between "b" (.int 2) (.int 3)))).or
          ((((assign (.isNull "c" false)).and (assign (.inList "" [] true))).or
            (assign (.raw "flag"))).and (assign (.existence stray))) := by
  have hnamed : mixed.Named := by
    have ha : IsName "a" := by decide
    have hb : IsName "b" := by decide
    have hc : IsName "c" := by decide
    have hflag : IsName "flag" := by decide
    exact ⟨ha, hb, ⟨hc, fun h => absurd rfl h, hflag, trivial⟩, trivial, trivial⟩
  have hsteps : (FilterStep.runAll mixedSteps .empty).2 = mixed := rfl
  have hdialect : (Bindings.mk .postgres []).dialect = Engine.postgres.dialect := rfl
  obtain ⟨-, -, hread⟩ := Filter.existsUnique_reading .postgres hsteps hnamed hdialect
  obtain ⟨c, hc, htruth⟩ := hread (List.cons_ne_nil _ _)
  refine ⟨hsteps, hnamed, by decide +kernel, c, hc, fun assign => ?_⟩
  rw [htruth]
  simp only [mixed, Filter.truth, Term.truths, Predicate.truth, Predicate.shown, Truth.ofNodes_and,
    Truth.ofNodes_or, Truth.ofNodes_singleton]

end BoundSelect
