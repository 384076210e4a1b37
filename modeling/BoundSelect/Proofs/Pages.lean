import BoundSelect.Proofs.Counting
import Mathlib.Logic.ExistsUnique

/-!
# Pages

A page is a window on the rows of a result: the bounds behind the statement say where it starts and
how many rows it shows. Pages of one size lie side by side, so that every row is on exactly one of
them, up to the greatest row that an offset can reach (`Select.paginate_tiles`). The pages behind
that one all start at the greatest word.
-/

set_option autoImplicit false

namespace BoundSelect

/-! ## Windows -/

/-- A number of rows from one row on. Rows are counted from zero. -/
structure Window where
  start : Nat
  length : Nat

namespace Window

/-- Whether a row is in the window. -/
def Shows (w : Window) (row : Nat) : Prop :=
  w.start ≤ row ∧ row < w.start + w.length

/-- The window as bounds behind a statement. -/
def text (w : Window) : String :=
  " LIMIT " ++ toString w.length ++ " OFFSET " ++ toString w.start

/-- The window that a page is bounded to. -/
def ofPage (size page : UInt64) : Window where
  start := (Select.cappedMul (max page 1 - 1) (max size 1)).toNat
  length := (max size 1).toNat

end Window

/-! ## The arithmetic of pages -/

theorem toNat_max_one (n : UInt64) : (max n 1).toNat = max n.toNat 1 := by
  change (if n ≤ 1 then 1 else n).toNat = _
  split
  · next h =>
      have hle : n.toNat ≤ 1 := h
      have hone : (1 : UInt64).toNat = 1 := rfl
      omega
  · next h =>
      have hlt : ¬ n.toNat ≤ 1 := h
      omega

/-- There is always a page to count from, so the pages in front of a page are a word. -/
theorem toNat_max_one_sub_one (n : UInt64) : (max n 1 - 1).toNat = max n.toNat 1 - 1 := by
  have hone : 1 ≤ max n 1 := by
    rw [UInt64.le_iff_toNat_le, toNat_max_one]
    exact Nat.le_max_right n.toNat 1
  rw [UInt64.toNat_sub_of_le _ _ hone, toNat_max_one]
  rfl

theorem Select.toNat_cappedMul (m n : UInt64) :
    (cappedMul m n).toNat = min (m.toNat * n.toNat) (UInt64.size - 1) := by
  rw [cappedMul, UInt64.toNat_ofNat']
  exact Nat.mod_eq_of_lt (Nat.lt_of_le_of_lt (Nat.min_le_right _ _) (by decide))

namespace Window

theorem length_ofPage (size page : UInt64) : (ofPage size page).length = max size.toNat 1 :=
  toNat_max_one size

theorem start_ofPage (size page : UInt64) :
    (ofPage size page).start =
      min ((max page.toNat 1 - 1) * max size.toNat 1) (UInt64.size - 1) := by
  rw [ofPage, Select.toNat_cappedMul, toNat_max_one_sub_one, toNat_max_one]

/-- The page with a row is found by division. -/
theorem shows_ofPage_iff {size page : UInt64} (hpage : 1 ≤ page) {row : Nat}
    (hrow : row < UInt64.size - 1) :
    (ofPage size page).Shows row ↔ page.toNat = row / max size.toNat 1 + 1 := by
  have hsize : 0 < max size.toNat 1 := by omega
  have hone : 1 ≤ page.toNat := hpage
  have hmax : max page.toNat 1 = page.toNat := by omega
  rw [Shows, length_ofPage, start_ofPage, hmax]
  generalize max size.toNat 1 = n at hsize
  constructor
  · rintro ⟨hstart, hend⟩
    -- a page that starts in front of the row does not start at the cap
    have hbefore : (page.toNat - 1) * n ≤ row := by omega
    have hbehind : row < (page.toNat - 1 + 1) * n := by
      rw [Nat.succ_mul]
      omega
    have hdiv : row / n = page.toNat - 1 := Nat.div_eq_of_lt_le hbefore hbehind
    omega
  · intro hdiv
    have hpages : page.toNat - 1 = row / n := by omega
    have hbefore : row / n * n ≤ row := Nat.div_mul_le_self row n
    have hbehind : row < row / n * n + n := Nat.lt_div_mul_add hsize
    rw [hpages]
    omega

theorem existsUnique_page (size : UInt64) {row : Nat} (hrow : row < UInt64.size - 1) :
    ∃! page : UInt64, 1 ≤ page ∧ (ofPage size page).Shows row := by
  -- there are no more pages than rows, so the number of the page is a word
  have hword : row / max size.toNat 1 + 1 < UInt64.size := by
    have hle : row / max size.toNat 1 ≤ row := Nat.div_le_self row _
    omega
  have hpage : (UInt64.ofNat (row / max size.toNat 1 + 1)).toNat = row / max size.toNat 1 + 1 :=
    UInt64.toNat_ofNat_of_lt hword
  have hone : 1 ≤ UInt64.ofNat (row / max size.toNat 1 + 1) := by
    rw [UInt64.le_iff_toNat_le, hpage]
    exact Nat.le_add_left 1 _
  refine ⟨UInt64.ofNat (row / max size.toNat 1 + 1), ⟨hone, ?_⟩, ?_⟩
  · rwa [shows_ofPage_iff hone hrow]
  · rintro page ⟨hpos, hshows⟩
    rw [shows_ofPage_iff hpos hrow] at hshows
    rw [← UInt64.toNat_inj, hpage, hshows]

theorem start_ofPage_mono (size : UInt64) {page next : UInt64} (h : page ≤ next) :
    (ofPage size page).start ≤ (ofPage size next).start := by
  have hle : max page.toNat 1 - 1 ≤ max next.toNat 1 - 1 := by
    rw [UInt64.le_iff_toNat_le] at h
    omega
  have hmul := Nat.mul_le_mul_right (max size.toNat 1) hle
  rw [start_ofPage, start_ofPage]
  omega

theorem shows_start_ofPage (size page : UInt64) :
    (ofPage size page).Shows (ofPage size page).start := by
  rw [Shows, length_ofPage]
  omega

end Window

/-! ## Pages of statements -/

namespace Select

/-- The statement without bounds. Its sort keys stay. -/
def unbounded (s : Select) : Select :=
  { s with limit := none, offset := none, defaultLimit := none }

/-- A page is the statement without the bounds that it had, and the bounds of the page behind it. -/
theorem sql_query_paginate (s : Select) (page size : UInt64) :
    (s.paginate page size).query.sql =
      s.unbounded.query.sql ++ (Window.ofPage size page).text := by
  have hpaged : (s.paginate page size).writtenPaging =
      orderText s.order ++ (Window.ofPage size page).text := by
    simp only [writtenPaging, pagingText, Window.text, String.append_assoc]
    rfl
  have hunbounded : s.unbounded.writtenPaging = orderText s.order := by
    simp [writtenPaging, pagingText, unbounded, effectiveLimit, boundText]
  -- all in front of the bounds looks at other clauses
  have hfront : (s.paginate page size).writtenTables = s.unbounded.writtenTables ∧
      (s.paginate page size).writtenBody = s.unbounded.writtenBody := by
    cases s
    exact ⟨rfl, rfl⟩
  rw [sql_query, sql_query, hpaged, hunbounded, hfront.1, hfront.2]
  simp only [String.append_assoc]
  rfl

/-- The pages of one size, whatever bounds a statement had before: behind the statement without
bounds they write the windows whose bounds are these integers, where nothing wraps around, and the
one product that may be too large is capped. Every row below the cap is on exactly one page from the
first on. Page zero is the first page and starts with the first row; later pages start no earlier,
and no page is empty. -/
theorem paginate_tiles (s : Select) (size : UInt64) :
    ∃ window : UInt64 → Window,
      (∀ page : UInt64,
        (s.paginate page size).query.sql = s.unbounded.query.sql ++ (window page).text) ∧
      (∀ page : UInt64,
        ((max page 1 - 1).toNat : Int) = max (page.toNat : Int) 1 - 1 ∧
        ((window page).start : Int) =
          min ((max (page.toNat : Int) 1 - 1) * max (size.toNat : Int) 1) (UInt64.size - 1) ∧
        ((window page).length : Int) = max (size.toNat : Int) 1) ∧
      (∀ row < UInt64.size - 1, ∃! page : UInt64, 1 ≤ page ∧ (window page).Shows row) ∧
      window 0 = window 1 ∧ (window 0).start = 0 ∧
      (∀ page next : UInt64, page < next → (window page).start ≤ (window next).start) ∧
      ∀ page : UInt64, ∃ row, (window page).Shows row := by
  refine ⟨Window.ofPage size, fun page => sql_query_paginate s page size, ?_, ?_, ?_, ?_, ?_, ?_⟩
  · intro page
    have hbefore : ((max page.toNat 1 - 1 : Nat) : Int) = max (page.toNat : Int) 1 - 1 := by omega
    have hrows : ((max size.toNat 1 : Nat) : Int) = max (size.toNat : Int) 1 := by omega
    have hcap : ((UInt64.size - 1 : Nat) : Int) = UInt64.size - 1 := rfl
    refine ⟨?_, ?_, ?_⟩
    · rw [toNat_max_one_sub_one, hbefore]
    · rw [Window.start_ofPage, ← hbefore, ← hrows, ← Int.natCast_mul, ← hcap]
      omega
    · rw [Window.length_ofPage, hrows]
  · exact fun row hrow => Window.existsUnique_page size hrow
  · rfl
  · rw [Window.start_ofPage]
    simp
  · exact fun page next h => Window.start_ofPage_mono size (UInt64.le_of_lt h)
  · exact fun page => ⟨_, Window.shows_start_ofPage size page⟩

/-- Two pages of half a word reach the cap, where the third one starts. The last row in front of the
cap is on one page still. -/
theorem paginate_tiles_capped :
    18446744073709551614 < UInt64.size - 1 ∧ (2 : UInt64) < 3 ∧
      ∃ window : UInt64 → Window,
        (∀ page : UInt64,
          (((ofTable .postgres "t" (some 50)).setLimit 7).paginate page
            9223372036854775808).query.sql = "SELECT * FROM t" ++ (window page).text) ∧
        (∃! page : UInt64, 1 ≤ page ∧ (window page).Shows 18446744073709551614) ∧
        (window 2).start ≤ (window 3).start := by
  have hrow : 18446744073709551614 < UInt64.size - 1 := by decide
  obtain ⟨window, hwritten, -, hrows, -, -, hmono, -⟩ :=
    paginate_tiles ((ofTable .postgres "t" (some 50)).setLimit 7) 9223372036854775808
  refine ⟨hrow, by decide, window, ?_, hrows _ hrow, hmono 2 3 (by decide)⟩
  intro page
  rw [hwritten]
  rfl

end Select

end BoundSelect
