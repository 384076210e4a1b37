import BoundSelect.Draft
import BoundSelect.Proofs.Counting
import Mathlib.Data.List.Dedup

/-!
# The rows that a count counts

What a statement without groups and unions returns depends on how a database reads its list of
columns: an aggregate in it makes one row of all rows of the source, `DISTINCT` in front of it
leaves each row once, and a list of plain columns gives one row for each row of the source. The list
is text, and reading it is the database's matter; of the reading only what `ReadsColumns` says is
known. A list may also be read as something else, and then make any rows.

The count of such a statement takes the list away and always gives the number of rows of the source.
So it is the number of rows that the statement returns exactly when the list has not changed that
number (`Database.answer_count_iff`).
-/

set_option autoImplicit false

namespace BoundSelect

/-! ## Reading a list of columns -/

/-- How many rows a list of columns makes of the rows of the source. -/
inductive Listing where
  /-- One row of them all. -/
  | aggregate
  /-- One row for each row, and equal ones once. -/
  | distinct
  /-- One row for each row. -/
  | plain
  /-- Any rows. -/
  | other
  deriving DecidableEq

/-- What is known of reading a list of columns. Counting rows is an aggregate, no columns are all
columns, and a list that begins with `DISTINCT` never keeps a row for each row. -/
structure ReadsColumns (reading : List String → Listing) : Prop where
  count : reading ["COUNT(*)"] = .aggregate
  none : reading [] = .plain
  distinct : ∀ (first : String) (others : List String),
    reading (("DISTINCT " ++ first) :: others) ≠ .plain

/-! ## What a database answers -/

/-- A database, as far as statements without groups and unions can see it. -/
structure Database (Row Cell : Type) where
  /-- The rows that are there for common tables and a source, after joins and filter. -/
  rows : List CommonTable → Source → List Join → Filter → List Row
  reading : List String → Listing
  readsColumns : ReadsColumns reading
  /-- The cells that columns give, for each row one by one. They may depend on the other rows. -/
  tuples : List String → List Row → List (List Cell)
  length_tuples : ∀ columns rs, (tuples columns rs).length = rs.length
  /-- The cells that columns with an aggregate among them give for all rows. -/
  total : List String → List Row → List Cell
  /-- The rows that a list of columns makes which is read as something else. -/
  others : List String → List Row → List (List Cell)
  /-- The cell with a number in it. -/
  number : Nat → Cell
  number_injective : Function.Injective number
  total_count : ∀ rs, total ["COUNT(*)"] rs = [number rs.length]

namespace Database

variable {Row Cell : Type} [DecidableEq Cell] (db : Database Row Cell) (s : Select)

/-- The rows of the source of a statement, after joins and filter. -/
def sourceRows : List Row :=
  db.rows s.commonTables s.source s.joins s.filter

/-- The rows that a statement makes before it bounds them. -/
def madeRows : List (List Cell) :=
  match db.reading s.columns with
  | .aggregate => [db.total s.columns (db.sourceRows s)]
  | .distinct => (db.tuples s.columns (db.sourceRows s)).dedup
  | .plain => db.tuples s.columns (db.sourceRows s)
  | .other => db.others s.columns (db.sourceRows s)

/-- The rows that a statement without groups and unions returns. In which order they come is left
open, so sort keys have no part in it. -/
def answer : List (List Cell) :=
  let rs := (db.madeRows s).drop ((s.offset.map UInt64.toNat).getD 0)
  match s.effectiveLimit with
  | some n => rs.take n.toNat
  | none => rs

/-- Without bounds a statement returns all rows that it makes. -/
theorem answer_unbounded :
    db.answer { s with order := [], limit := none, offset := none, defaultLimit := none } =
      db.madeRows s := rfl

variable {s}

/-- The count of a statement without groups and unions is the number of rows of the source. -/
theorem answer_count (hflat : s.isFlat = true) :
    db.answer s.count = [[db.number (db.sourceRows s).length]] := by
  have hcount : s.count = { s.unpaged with columns := ["COUNT(*)"] } := by
    rw [Select.count, if_pos hflat]
    rfl
  -- the count has the source of the statement, and no bounds of its own
  have hanswer : db.answer s.count = db.madeRows s.count := by
    rw [hcount]
    rfl
  have hsource : db.sourceRows s.count = db.sourceRows s := by
    rw [hcount]
    rfl
  have hcolumns : s.count.columns = ["COUNT(*)"] := by rw [hcount]
  have hreading : db.reading s.count.columns = .aggregate := by
    rw [hcolumns]
    exact db.readsColumns.count
  rw [hanswer, madeRows, hreading, hsource, hcolumns, ← db.total_count]

/-- Dropping repeated rows keeps their number only if no row is repeated. -/
theorem length_dedup_eq_iff {α : Type} [DecidableEq α] (l : List α) :
    l.dedup.length = l.length ↔ l.Nodup := by
  rw [← List.dedup_eq_self]
  exact ⟨(List.dedup_sublist l).eq_of_length, congrArg List.length⟩

/-- The count of a statement without groups and unions is one row with one number in it. The number
is that of the rows which the statement returns without sort keys and bounds exactly when the
statement's list of columns is read as plain, or as an aggregate and there is one row in the source,
or as `DISTINCT` columns that no two rows of the source agree in, or as something else that makes as
many rows as the source has. -/
theorem answer_count_iff (hgroups : s.groups = []) (hhaving : s.having.terms = [])
    (harms : s.arms = []) :
    db.answer s.count = [[db.number (db.answer
        { s with order := [], limit := none, offset := none, defaultLimit := none }).length]] ↔
      match db.reading s.columns with
      | .aggregate => (db.sourceRows s).length = 1
      | .distinct => (db.tuples s.columns (db.sourceRows s)).Nodup
      | .plain => True
      | .other =>
        (db.others s.columns (db.sourceRows s)).length = (db.sourceRows s).length := by
  have hnumber : db.answer s.count = [[db.number (db.answer
        { s with order := [], limit := none, offset := none, defaultLimit := none }).length]] ↔
      (db.madeRows s).length = (db.sourceRows s).length := by
    rw [db.answer_count (s.isFlat_iff.2 ⟨hgroups, hhaving, harms⟩), db.answer_unbounded]
    simp only [List.cons.injEq, and_true, db.number_injective.eq_iff]
    exact eq_comm
  rw [hnumber, madeRows]
  cases db.reading s.columns with
  | aggregate => exact eq_comm
  | distinct =>
      dsimp only
      rw [← length_dedup_eq_iff, db.length_tuples]
  | plain => exact iff_true_intro (db.length_tuples _ _)
  | other => exact Iff.rfl

/-- Three users in two countries, and the lists of columns that are asked of them. -/
def users : Database String (String ⊕ Nat) where
  rows _ _ _ _ := ["NZ", "NZ", "CK"]
  reading
    | [] => .plain
    | first :: others =>
      if first = "COUNT(*)" ∧ others = [] then .aggregate
      else if "DISTINCT ".toList <+: first.toList then .distinct
      else .plain
  readsColumns := {
    count := rfl
    none := rfl
    distinct := by
      intro first others
      have hfront : "DISTINCT ".toList <+: ("DISTINCT " ++ first).toList := by
        rw [String.toList_append]
        exact List.prefix_append _ _
      dsimp only
      rw [if_pos hfront]
      split <;> exact nofun }
  tuples _ rs := rs.map fun country => [.inl country]
  length_tuples _ _ := List.length_map _
  total columns rs := columns.map fun _ => .inr rs.length
  others _ _ := []
  number := .inr
  number_injective _ _ := Sum.inr.inj
  total_count _ := rfl

/-- A page of the users, with the columns given. -/
def page (columns : List String) : Select :=
  { Select.ofTable .postgres "users" (some 10) with
    columns := columns, order := [⟨"country", .descending⟩], offset := some 1 }

/-- The page without its sort key and its bounds. -/
def unbounded (columns : List String) : Select :=
  { Select.ofTable .postgres "users" none with columns := columns }

theorem answer_count_plain :
    (page ["country"]).groups = [] ∧ (page ["country"]).having.terms = [] ∧
      (page ["country"]).arms = [] ∧
      users.answer (page ["country"]).count =
        [[users.number (users.answer (unbounded ["country"])).length]] := by
  have hplain : users.reading (page ["country"]).columns = .plain := by decide
  have hcount := users.answer_count_iff (s := page ["country"]) rfl rfl rfl
  rw [hplain] at hcount
  exact ⟨rfl, rfl, rfl, hcount.2 trivial⟩

theorem answer_count_distinct :
    (Draft.table .postgres (some 10) "users" [.columns ["DISTINCT country"],
        .orderBy ⟨"country", .descending⟩, .offset 1]).make = .ok (page ["DISTINCT country"]) ∧
      (page ["DISTINCT country"]).groups = [] ∧ (page ["DISTINCT country"]).having.terms = [] ∧
      (page ["DISTINCT country"]).arms = [] ∧
      users.answer (unbounded ["DISTINCT country"]) = [[.inl "NZ"], [.inl "CK"]] ∧
      users.answer (page ["DISTINCT country"]).count = [[.inr 3]] := by
  refine ⟨rfl, rfl, rfl, rfl, ?_, ?_⟩ <;> decide

end Database

end BoundSelect
