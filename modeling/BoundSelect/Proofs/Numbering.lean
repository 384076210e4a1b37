import BoundSelect.Proofs.Alphabet
import BoundSelect.Proofs.Fence
import BoundSelect.Proofs.Lockstep

/-!
# The numbers in a written statement

A statement written with numbered placeholders can be scanned without knowing its clauses: the runs
of digits behind the signs that open placeholders are the numbers from one to the number of its
parameters, each once and in order (`Select.numerals_query`). No text of the statement may hold
the sign itself.
-/

set_option autoImplicit false

namespace BoundSelect

/-- The runs of digits right behind the signs that open placeholders, from left to right. A sign
without digits behind it gives an empty run. -/
def numerals : List Char → List (List Char)
  | [] => []
  | c :: cs => if c = '$' then cs.takeWhile Char.isDigit :: numerals cs else numerals cs

/-- Text without the sign has no numbers. -/
theorem numerals_append {cs : List Char} (h : '$' ∉ cs) (rest : List Char) :
    numerals (cs ++ rest) = numerals rest := by
  induction cs with
  | nil => rfl
  | cons c cs ih =>
      rw [List.mem_cons, not_or] at h
      rw [List.cons_append, numerals, if_neg (Ne.symm h.1), ih h.2]

namespace Fragment

/-- The text of a parted fragment opens with a break. -/
theorem isBreak_of_parted {f : Fragment} (h : Parted f) (placeholder : Nat → String)
    (bound : Nat) : ∀ c ∈ (f.spell placeholder bound).toList.head?, isBreak c = true := by
  induction f with
  | nil => simp [spell]
  | cons p f ih =>
      cases p with
      | value v => exact h.elim
      | text s =>
          intro c hc
          rw [spell, String.toList_append] at hc
          unfold Parted at h
          split at h
          -- an empty text: what is behind it opens the whole
          · next hs =>
              rw [hs] at hc
              exact ih h c hc
          · next d ds hs =>
              rw [hs] at hc
              obtain rfl : d = c := by simpa using hc
              exact h

/-- The numbers in the text of a fragment are those that its values are bound with. -/
theorem numerals_spell {f : Fragment} (hfree : f.Free '$') (hfenced : Fenced f) (bound : Nat) :
    numerals (f.spell Dialect.postgres.placeholder bound).toList =
      (List.range' (bound + 1) f.values.length).map (Nat.toDigits 10) := by
  induction f generalizing bound with
  | nil => rfl
  | cons p f ih =>
      have hrest : Fragment.Free '$' f := fun s hs => hfree s (List.mem_cons_of_mem _ hs)
      cases p with
      | text s =>
          rw [spell, String.toList_append, numerals_append (hfree s List.mem_cons_self)]
          exact ih hrest hfenced bound
      | value v =>
          have hdigits : ∀ c ∈ Nat.toDigits 10 (bound + 1), c.isDigit = true := fun c hc =>
            Nat.isDigit_of_mem_toDigits (by decide) (by decide) hc
          -- the numeral itself holds no sign, and what is behind it is fenced off
          have hsign : '$' ∉ Nat.toDigits 10 (bound + 1) := fun h =>
            absurd (hdigits '$' h) (by decide)
          have hend : ∀ c ∈ (spell Dialect.postgres.placeholder (bound + 1) f).toList.head?,
              c.isDigit = false := fun c hc =>
            isDigit_of_isBreak (isBreak_of_parted hfenced.1 _ _ c hc)
          rw [spell, String.toList_append, Dialect.toList_placeholder_postgres, List.cons_append,
            numerals, if_pos rfl, Text.takeWhile_append_stop hdigits hend, numerals_append hsign,
            ih hrest hfenced.2, values_value, List.length_cons, List.range'_succ, List.map_cons]

end Fragment

namespace Select

/-- Where no text of a statement holds the sign of placeholders, the digits behind the signs in the
written statement are the decimal numbers from one to the number of parameters, in order. -/
theorem numerals_query (s : Select) (hdialect : s.dialect = .postgres)
    (hfree : s.Verbatim (Free '$')) :
    numerals s.query.sql.toList =
        (List.range' 1 s.query.params.length).map (Nat.toDigits 10) ∧
      (numerals s.query.sql.toList).map (Nat.ofDigitChars 10 · 0) =
        List.range' 1 s.query.params.length := by
  have hnumerals : numerals s.query.sql.toList =
      (List.range' 1 s.query.params.length).map (Nat.toDigits 10) := by
    rw [query_eq, hdialect, Fragment.numerals_spell (free_fragment rfl s hfree) (fenced s) 0,
      values_fragment]
  -- decimal numerals are read back as the numbers that they were printed from
  have hread : (Nat.ofDigitChars 10 · 0) ∘ Nat.toDigits 10 = id := by
    funext n
    exact Nat.ofDigitChars_ten_toDigits
  refine ⟨hnumerals, ?_⟩
  rw [hnumerals, List.map_map, hread, List.map_id]

/-- A statement with values in every clause that can hold some, twelve in all. -/
def crowded : Select :=
  let one : Select :=
    { ofTable .mysql "u" none with filter := ⟨[⟨.and, .compare "k" .equal (.text "$9")⟩]⟩ }
  { ofTable .postgres "t" none with
    source := .query one "s"
    filter := ⟨[⟨.and, .inList "m" (List.replicate 5 (.bool true)) false⟩,
      ⟨.or, .group ⟨[⟨.and, .between "n" (.int 1) (.int 2)⟩, ⟨.or, .existence one⟩]⟩⟩]⟩
    groups := ["g1"]
    having := ⟨[⟨.and, .compare "COUNT(*)" .greater (.int 10)⟩]⟩
    arms := [⟨true, { one with limit := some 10 }⟩]
    commonTables := [⟨"w", one, true⟩] }

theorem numerals_crowded :
    crowded.Verbatim (Free '$') ∧
      (numerals crowded.query.sql.toList).map (Nat.ofDigitChars 10 · 0) = List.range' 1 12 := by
  have hfree : crowded.Verbatim (Free '$') := by
    simp [crowded, ofTable, Filter.empty, Select.Verbatim, Source.Verbatim, CommonTable.Verbatim,
      Arm.Verbatim, Filter.Verbatim, Term.Verbatim, Predicate.Verbatim, Free]
  exact ⟨hfree, (numerals_query crowded rfl hfree).2⟩

end Select

end BoundSelect
