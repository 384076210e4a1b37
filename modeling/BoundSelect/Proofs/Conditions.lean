import BoundSelect.Select

/-!
# The grammar of conditions

A condition is read from lexemes by the grammar of SQL: a factor is an atom or a condition in
parentheses, a conjunction is a run of factors with `AND` between them, and a condition is a run of
conjunctions with `OR` between them. The `AND` of a range belongs to its atom.

The grammar says what a run of lexemes may be read as, not how to find it. A reader that goes over
the lexemes once finds every reading (`Disjunction.read_eq`), so there is at most one
(`Disjunction.unique`).
-/

set_option autoImplicit false

namespace BoundSelect

/-! ## Lexemes -/

/-- What a condition is made of. A statement in parentheses is one lexeme. -/
inductive Lexeme where
  | name (w : String)
  | operator (op : Operator)
  | connective (c : Connective)
  | is
  | not
  | null
  | member
  | between
  | existence
  /-- A comparison of two numbers that settles itself. -/
  | constant (holds : Bool)
  | value (v : Value)
  | query (s : Select)
  | opening
  | closing
  | comma

namespace Lexeme

/-- The words before a list or a statement that a column is looked for in. -/
def membership (negated : Bool) : List Lexeme :=
  if negated then [.not, .member] else [.member]

/-- A list of values. -/
def listing (vs : List Value) : List Lexeme :=
  .opening :: ((vs.map .value).intersperse .comma ++ [.closing])

end Lexeme

/-! ## The grammar -/

/-- A condition as it is read. -/
inductive Condition where
  | atom (p : Predicate)
  | and (a b : Condition)
  | or (a b : Condition)

/-- The lexemes of an atom. The two constants are read as lookups in a list without members, of
which no column is left. -/
inductive Atom : List Lexeme → Predicate → Prop where
  | compare (column : String) (op : Operator) (v : Value) :
      Atom [.name column, .operator op, .value v] (.compare column op v)
  | compareQuery (column : String) (op : Operator) (s : Select) :
      Atom [.name column, .operator op, .query s] (.compareQuery column op s)
  | isNull (column : String) : Atom [.name column, .is, .null] (.isNull column false)
  | isNotNull (column : String) : Atom [.name column, .is, .not, .null] (.isNull column true)
  | inList (column : String) {members : List Value} (negated : Bool) (h : members ≠ []) :
      Atom (.name column :: (Lexeme.membership negated ++ Lexeme.listing members))
        (.inList column members negated)
  | inQuery (column : String) (s : Select) (negated : Bool) :
      Atom (.name column :: (Lexeme.membership negated ++ [.query s])) (.inQuery column s negated)
  | between (column : String) (low high : Value) :
      Atom [.name column, .between, .value low, .connective .and, .value high]
        (.between column low high)
  | existence (s : Select) : Atom [.existence, .query s] (.existence s)
  | constant (holds : Bool) : Atom [.constant holds] (.inList "" [] holds)
  | name (w : String) : Atom [.name w] (.raw w)

mutual

/-- The lexemes of a condition. -/
inductive Disjunction : List Lexeme → Condition → Prop where
  | one {ss : List Lexeme} {a : Condition} (h : Conjunction ss a) : Disjunction ss a
  | more {ss ts : List Lexeme} {a b : Condition} (ha : Disjunction ss a) (hb : Conjunction ts b) :
      Disjunction (ss ++ .connective .or :: ts) (.or a b)

/-- The lexemes of a condition with no `OR` outside parentheses. -/
inductive Conjunction : List Lexeme → Condition → Prop where
  | one {ss : List Lexeme} {a : Condition} (h : Factor ss a) : Conjunction ss a
  | more {ss ts : List Lexeme} {a b : Condition} (ha : Conjunction ss a) (hb : Factor ts b) :
      Conjunction (ss ++ .connective .and :: ts) (.and a b)

/-- The lexemes of an atom, or of a condition in parentheses. -/
inductive Factor : List Lexeme → Condition → Prop where
  | atom {ss : List Lexeme} {p : Predicate} (h : Atom ss p) : Factor ss (.atom p)
  | parens {ss : List Lexeme} {a : Condition} (h : Disjunction ss a) :
      Factor (.opening :: (ss ++ [.closing])) a

end

/-! ## Reading from left to right -/

/-- What has been read since a parenthesis opened: the conjunctions that are complete, joined by
`OR`, and the factors of the one that is not. -/
structure Level where
  complete : Option Condition := none
  factors : Option Condition := none

namespace Level

/-- Nothing has been read. -/
def start : Level := {}

/-- All that has been read. -/
def total (l : Level) : Option Condition := l.complete.merge .or l.factors

/-- A further factor. -/
def join (l : Level) (a : Option Condition) : Level := { l with factors := l.factors.merge .and a }

/-- A further predicate. -/
def take (l : Level) (p : Predicate) : Level := l.join (some (.atom p))

/-- Goes over a connective: `OR` completes a conjunction. -/
def pass (l : Level) : Connective → Level
  | .and => l
  | .or => ⟨l.total, none⟩

end Level

mutual

/-- Reads lexemes. What was read before the parentheses that are open is kept level by level, the
innermost first. Whether predicates and connectives take turns is not checked: what lexemes may be
read as is for the grammar to say. -/
def Level.read (l : Level) (outer : List Level) : List Lexeme → Option Condition
  | [] => l.total
  | .connective c :: ts => (l.pass c).read outer ts
  | .opening :: ts => Level.start.read (l :: outer) ts
  | .closing :: ts =>
    match outer with
    -- no parenthesis is open
    | [] => none
    | l' :: outer => (l'.join l.total).read outer ts
  | .constant holds :: ts => (l.take (.inList "" [] holds)).read outer ts
  | .existence :: .query s :: ts => (l.take (.existence s)).read outer ts
  | .name column :: .operator op :: .value v :: ts => (l.take (.compare column op v)).read outer ts
  | .name column :: .operator op :: .query s :: ts =>
    (l.take (.compareQuery column op s)).read outer ts
  | .name column :: .is :: .null :: ts => (l.take (.isNull column false)).read outer ts
  | .name column :: .is :: .not :: .null :: ts => (l.take (.isNull column true)).read outer ts
  | .name column :: .member :: .opening :: ts => l.readMembers outer column false [] ts
  | .name column :: .not :: .member :: .opening :: ts => l.readMembers outer column true [] ts
  | .name column :: .member :: .query s :: ts => (l.take (.inQuery column s false)).read outer ts
  | .name column :: .not :: .member :: .query s :: ts =>
    (l.take (.inQuery column s true)).read outer ts
  | .name column :: .between :: .value low :: .connective .and :: .value high :: ts =>
    (l.take (.between column low high)).read outer ts
  -- a name that no predicate begins with is a condition of its own
  | .name w :: ts => (l.take (.raw w)).read outer ts
  | _ :: _ => none

/-- Reads the further members of a list. -/
def Level.readMembers (l : Level) (outer : List Level) (column : String) (negated : Bool)
    (members : List Value) : List Lexeme → Option Condition
  | .value v :: .comma :: ts => l.readMembers outer column negated (members ++ [v]) ts
  | .value v :: .closing :: ts => (l.take (.inList column (members ++ [v]) negated)).read outer ts
  | _ => none

end

/-- A factor can end here: nothing comes next, or a connective, or a closing parenthesis. -/
def EndsFactor : List Lexeme → Prop
  | [] | .connective _ :: _ | .closing :: _ => True
  | _ => False

namespace Level

variable (l : Level) (outer : List Level)

theorem readMembers_listing (column : String) (negated : Bool) (read : List Value) (v : Value)
    (vs : List Value) (rest : List Lexeme) :
    l.readMembers outer column negated read
        (((v :: vs).map .value).intersperse .comma ++ .closing :: rest) =
      (l.take (.inList column (read ++ v :: vs) negated)).read outer rest := by
  induction vs generalizing read v with
  | nil => rw [List.map_singleton, List.intersperse_singleton, List.singleton_append, readMembers]
  | cons w vs ih =>
      have hnext := ih (read ++ [v]) w
      rw [List.append_assoc, List.singleton_append] at hnext
      rw [← hnext]
      simp only [List.map_cons, List.intersperse_cons_cons, List.cons_append, readMembers]

/-- A name is read as a condition of its own only when the factor ends with it. -/
theorem read_name (w : String) {rest : List Lexeme} (h : EndsFactor rest) :
    l.read outer (.name w :: rest) = (l.take (.raw w)).read outer rest := by
  -- nothing that stands behind the name of a column can end a factor
  rw [read] <;> (intros; subst_vars; exact h)

/-- Whatever the grammar takes for an atom is read as that atom. -/
theorem read_atom {ss : List Lexeme} {p : Predicate} (h : Atom ss p) {rest : List Lexeme}
    (hrest : EndsFactor rest) :
    l.read outer (ss ++ rest) = (l.take p).read outer rest := by
  cases h with
  | @inList column members negated hne =>
      obtain ⟨v, vs, rfl⟩ := List.exists_cons_of_ne_nil hne
      have hmembers := readMembers_listing l outer column negated [] v vs rest
      rw [List.nil_append] at hmembers
      rw [← hmembers]
      cases negated <;> simp [Lexeme.membership, Lexeme.listing, read]
  | name w => exact read_name l outer w hrest
  | inQuery column s negated => cases negated <;> simp [Lexeme.membership, read]
  | compare | compareQuery | isNull | isNotNull | between | existence | constant => simp [read]

end Level

/-! ## Every reading is found -/

mutual

/-- The whole of a condition is read on the level of its parentheses. -/
theorem Disjunction.read : {ss : List Lexeme} → {a : Condition} → Disjunction ss a →
    ∃ l : Level, l.total = some a ∧ ∀ (outer : List Level) {rest : List Lexeme}, EndsFactor rest →
      Level.start.read outer (ss ++ rest) = l.read outer rest
  | _, _, .one h => ⟨⟨none, _⟩, rfl, fun outer _ hrest => h.read none outer hrest⟩
  | _, _, .more (b := b) ha hb => by
    obtain ⟨l, htotal, hread⟩ := ha.read
    refine ⟨⟨l.total, b⟩, by rw [htotal]; rfl, fun outer rest hrest => ?_⟩
    -- `OR` completes what was read before it
    rw [List.append_assoc, List.cons_append, hread outer (by trivial), Level.read]
    exact hb.read l.total outer hrest

/-- A conjunction is read behind those that are complete. -/
theorem Conjunction.read : {ss : List Lexeme} → {a : Condition} → Conjunction ss a →
    ∀ (complete : Option Condition) (outer : List Level) {rest : List Lexeme}, EndsFactor rest →
      (Level.mk complete none).read outer (ss ++ rest) = (Level.mk complete a).read outer rest
  | _, _, .one h, complete, outer, _, hrest => h.read ⟨complete, none⟩ outer hrest
  | _, _, .more (a := a) ha hb, complete, outer, rest, hrest => by
    rw [List.append_assoc, List.cons_append, ha.read complete outer (by trivial), Level.read]
    exact hb.read ⟨complete, some a⟩ outer hrest

/-- A factor is read behind those of its conjunction. -/
theorem Factor.read : {ss : List Lexeme} → {a : Condition} → Factor ss a →
    ∀ (l : Level) (outer : List Level) {rest : List Lexeme}, EndsFactor rest →
      l.read outer (ss ++ rest) = (l.join a).read outer rest
  | _, _, .atom h, l, outer, _, hrest => l.read_atom outer h hrest
  | _, _, .parens h, l, outer, rest, _ => by
    obtain ⟨inside, htotal, hread⟩ := h.read
    -- the parentheses put their condition on the level around them
    rw [List.cons_append, List.append_assoc, Level.read, hread (l :: outer) (by trivial),
      List.singleton_append, Level.read, htotal]

end

/-- The condition that lexemes are read as is the one that the grammar gives them. -/
theorem Disjunction.read_eq {ss : List Lexeme} {a : Condition} (h : Disjunction ss a) :
    Level.start.read [] ss = some a := by
  obtain ⟨l, htotal, hread⟩ := h.read
  have hend : EndsFactor [] := trivial
  have hall := hread [] hend
  rw [List.append_nil] at hall
  rw [hall, Level.read, htotal]

/-- No run of lexemes can be read in two ways. -/
theorem Disjunction.unique {ss : List Lexeme} {a b : Condition} (ha : Disjunction ss a)
    (hb : Disjunction ss b) : a = b :=
  Option.some.inj (ha.read_eq.symm.trans hb.read_eq)

end BoundSelect
