import BoundSelect.Proofs.Spelling

/-!
# Blanks and case in the text of an operator

A text names the operator whose words it has, and no text names two. So it makes no difference in
which ASCII case the text is written, nor how many blanks are put around its words or between two of
them. A blank inside a word makes two words of it: of the texts with and without such a blank at
most one names an operator (`Operator.parse_outcome`).
-/

set_option autoImplicit false

namespace BoundSelect

namespace Text

/-! ## Blanks put into a text -/

/-- The place between two stretches of a text lies inside a word. -/
def InsideWord (front back : List Char) : Prop :=
  (∃ c ∈ front.getLast?, isBlank c = false) ∧ ∃ c ∈ back.head?, isBlank c = false

theorem words_nil : words [] = [] := rfl

theorem words_append_gap {gap : List Char} (hne : gap ≠ []) (hgap : ∀ c ∈ gap, isBlank c = true)
    (front back : List Char) : words (front ++ (gap ++ back)) = words front ++ words back := by
  cases gap with
  | nil => exact absurd rfl hne
  | cons c gap =>
      obtain ⟨hc, hgap⟩ := List.forall_mem_cons.1 hgap
      rw [List.cons_append, words_append_blank hc, words_gap_append hgap]

/-- Outside of words a text can be cut. -/
theorem words_append {front back : List Char} (h : ¬ InsideWord front back) :
    words (front ++ back) = words front ++ words back := by
  cases back with
  | nil => rw [List.append_nil, words_nil, List.append_nil]
  | cons d back =>
      cases hd : isBlank d with
      | true =>
          have hback : words (d :: back) = words back := words_append_blank hd [] back
          rw [words_append_blank hd, hback]
      | false =>
          -- the first stretch is empty or ends in a blank
          rcases List.eq_nil_or_concat front with rfl | ⟨front, c, rfl⟩
          · rfl
          rw [List.concat_eq_append] at h ⊢
          have hc : isBlank c = true := by
            refine Bool.not_eq_false _ ▸ fun hc => h ⟨⟨c, ?_, hc⟩, d, rfl, hd⟩
            exact List.getLast?_concat
          have hfront : words (front ++ [c]) = words front := by
            rw [words_append_blank hc, words_nil, List.append_nil]
          rw [List.append_assoc, List.singleton_append, words_append_blank hc, hfront]

/-- Outside of words a gap can be put in. -/
theorem words_gap {front back gap : List Char} (h : ¬ InsideWord front back)
    (hgap : ∀ c ∈ gap, isBlank c = true) :
    words (front ++ (gap ++ back)) = words (front ++ back) := by
  cases gap with
  | nil => rfl
  | cons c gap => rw [words_append_gap (List.cons_ne_nil c gap) hgap, words_append h]

/-- Inside a word a cut makes one word more. -/
theorem length_words_of_insideWord {front back : List Char} (h : InsideWord front back) :
    (words front).length + (words back).length = (words (front ++ back)).length + 1 := by
  obtain ⟨⟨c, hlast, hc⟩, d, hhead, hd⟩ := h
  obtain ⟨ws, hfront⟩ := exists_hasWords front
  -- the second stretch begins with a word
  obtain ⟨v, rest, hback, hne, hv, hrest⟩ : ∃ v rest, back = v ++ rest ∧ v ≠ [] ∧
      (∀ e ∈ v, isBlank e = false) ∧ ∀ e ∈ rest.head?, isBlank e = true := by
    obtain ⟨vs, hvs⟩ := exists_hasWords back
    cases hvs with
    | blank hgap => simp [hgap d (List.mem_of_mem_head? hhead)] at hd
    | @word gap v rest vs hgap hne hv hrest _ =>
        cases gap with
        | nil => exact ⟨v, rest, rfl, hne, hv, hrest⟩
        | cons e gap =>
            obtain rfl : e = d := by simpa using hhead
            simp [hgap e List.mem_cons_self] at hd
  subst hback
  rw [words_word_append hne hv hrest]
  induction hfront with
  | blank hgap => simp [hgap c (List.mem_of_mem_getLast? hlast)] at hc
  | @word gap w tail ws hgap hwne hw htail hwords ih =>
      rw [List.append_assoc, List.append_assoc, words_gap_append hgap, words_gap_append hgap,
        words_word_append hwne hw htail]
      cases tail with
      | nil =>
          -- the two words become one
          have hword : ∀ e ∈ w ++ v, isBlank e = false := List.forall_mem_append.2 ⟨hw, hv⟩
          rw [List.nil_append, ← List.append_assoc,
            words_word_append (List.append_ne_nil_of_left_ne_nil hwne v) hword hrest]
          simp only [words_nil, List.length_cons, List.length_nil]
          omega
      | cons e tail =>
          have hbreak : ∀ f ∈ (e :: tail ++ (v ++ rest)).head?, isBlank f = true := htail
          have hlast' : c ∈ (e :: tail).getLast? := by
            simpa [List.getLast?_append, hwne] using hlast
          have hcount := ih hlast'
          rw [words_word_append hwne hw hbreak]
          simp only [List.length_cons] at hcount ⊢
          omega

theorem flatten_words (cs : List Char) : (words cs).flatten = cs.filter (!isBlank ·) := by
  obtain ⟨ws, hws⟩ := exists_hasWords cs
  rw [hws.words_eq]
  induction hws with
  | blank hgap =>
      rw [List.flatten_nil, eq_comm, List.filter_eq_nil_iff]
      intro c hc
      simp [hgap c hc]
  | @word gap w rest ws hgap _ hw _ _ ih =>
      have hgone : gap.filter (!isBlank ·) = [] := by
        rw [List.filter_eq_nil_iff]
        intro c hc
        simp [hgap c hc]
      have hkept : w.filter (!isBlank ·) = w := by
        rw [List.filter_eq_self]
        intro c hc
        simp [hw c hc]
      rw [List.flatten_cons, List.filter_append, List.filter_append, hgone, hkept, ih,
        List.nil_append]

/-! ## Case -/

theorem HasWords.map_toUpper {cs : List Char} {ws : List (List Char)} (h : HasWords cs ws) :
    HasWords (cs.map Char.toUpper) (ws.map (List.map Char.toUpper)) := by
  have hblank : ∀ {gap : List Char}, (∀ c ∈ gap, isBlank c = true) →
      ∀ c ∈ gap.map Char.toUpper, isBlank c = true := by
    intro gap hgap c hc
    obtain ⟨d, hd, rfl⟩ := List.mem_map.1 hc
    rw [isBlank_toUpper, hgap d hd]
  induction h with
  | blank hgap => exact .blank (hblank hgap)
  | @word gap w rest ws hgap hne hw hrest _ ih =>
      rw [List.map_append, List.map_append, List.map_cons]
      refine .word (hblank hgap) (by simpa using hne) ?_ ?_ ih
      · intro c hc
        obtain ⟨d, hd, rfl⟩ := List.mem_map.1 hc
        rw [isBlank_toUpper, hw d hd]
      · intro c hc
        rw [List.head?_map] at hc
        obtain ⟨d, hd, rfl⟩ := Option.map_eq_some_iff.1 hc
        rw [isBlank_toUpper, hrest d hd]

/-- Texts that differ in case alone have the same words. -/
theorem sameWords_of_map_toUpper {cs ds : List Char}
    (h : cs.map Char.toUpper = ds.map Char.toUpper) : SameWords cs ds := by
  have hwords : ∀ cs : List Char,
      (words cs).map (List.map Char.toUpper) = words (cs.map Char.toUpper) := fun cs =>
    (hasWords_iff.2 rfl).map_toUpper.words_eq.symm
  rw [sameWords_iff, hwords, hwords, h]

end Text

/-! ## Operators -/

namespace Operator

open Text

theorem spelled_iff {op : Operator} {text : String} :
    op.Spelled text ↔ (words text.toList).map (List.map Char.toUpper) =
      (words op.symbol.toList).map (List.map Char.toUpper) :=
  sameWords_iff

theorem spelled_unique {op other : Operator} {text : String} (hop : op.Spelled text)
    (hother : other.Spelled text) : other = op :=
  Except.ok.inj ((parse_eq_ok_iff.2 hother).symm.trans (parse_eq_ok_iff.2 hop))

/-- Texts with the same words name the same operator. -/
theorem spelled_congr {text other : String}
    (h : (words other.toList).map (List.map Char.toUpper) =
      (words text.toList).map (List.map Char.toUpper)) (op : Operator) :
    op.Spelled other ↔ op.Spelled text := by
  rw [spelled_iff, spelled_iff, h]

/-- Operators differ in the letters of their words, wherever these end. -/
theorem letters_injective {a b : Operator}
    (h : (a.symbol.toList.filter (!isBlank ·)).map Char.toUpper =
      (b.symbol.toList.filter (!isBlank ·)).map Char.toUpper) : a = b := by
  cases a <;> cases b <;> first | rfl | exact absurd h (by decide)

theorem letters_of_spelled {op : Operator} {text : String} (h : op.Spelled text) :
    (text.toList.filter (!isBlank ·)).map Char.toUpper =
      (op.symbol.toList.filter (!isBlank ·)).map Char.toUpper := by
  rw [← flatten_words, ← flatten_words, List.map_flatten, List.map_flatten, spelled_iff.1 h]

/-- Of the texts with and without a gap inside a word at most one spells an operator. -/
theorem not_spelled_both {front back gap : String} (hinside : InsideWord front.toList back.toList)
    (hne : gap ≠ "") (hgap : ∀ c ∈ gap.toList, isBlank c = true) {a b : Operator}
    (ha : a.Spelled (front ++ back)) (hb : b.Spelled (front ++ gap ++ back)) : False := by
  have hletters : (front ++ gap ++ back).toList.filter (!isBlank ·) =
      (front ++ back).toList.filter (!isBlank ·) := by
    have hgone : gap.toList.filter (!isBlank ·) = [] := by
      rw [List.filter_eq_nil_iff]
      intro c hc
      simp [hgap c hc]
    simp only [String.toList_append, List.filter_append, hgone, List.append_nil]
  -- the same letters are those of the same operator, which has so many words
  obtain rfl : a = b := by
    refine letters_injective ?_
    rw [← letters_of_spelled ha, ← letters_of_spelled hb, hletters]
  have hcount := congrArg List.length ((spelled_iff.1 ha).trans (spelled_iff.1 hb).symm)
  have hmore := length_words_of_insideWord hinside
  have hne' : gap.toList ≠ [] := by simpa using hne
  simp only [List.length_map, String.toList_append, List.append_assoc,
    words_append_gap hne' hgap, List.length_append] at hcount
  omega

/-- A text names an operator exactly if it has the words of the operator's symbol in any ASCII case,
and only that one; any other text is given back in the fault. So case makes no difference, nor do
blanks that are put in outside of words; but where blanks are put into a word, or all blanks between
two words are left out, the name of an operator becomes a text that names none. -/
theorem parse_outcome (text : String) :
    (∀ op : Operator, parse text = .ok op ↔ op.Spelled text) ∧
      ((∀ op : Operator, ¬ op.Spelled text) → parse text = .error (.unknownOperator text)) ∧
      (∀ op other : Operator, op.Spelled text → other.Spelled text → other = op) ∧
      (∀ other : String, other.toList.map Char.toUpper = text.toList.map Char.toUpper →
        ∀ op : Operator, parse other = .ok op ↔ parse text = .ok op) ∧
      ∀ front back gap : String, text = front ++ back → (∀ c ∈ gap.toList, isBlank c = true) →
        (¬ InsideWord front.toList back.toList →
          ∀ op : Operator, parse (front ++ gap ++ back) = .ok op ↔ parse text = .ok op) ∧
        (InsideWord front.toList back.toList → gap ≠ "" → ∀ op : Operator,
          (parse text = .ok op →
            parse (front ++ gap ++ back) = .error (.unknownOperator (front ++ gap ++ back))) ∧
          (parse (front ++ gap ++ back) = .ok op →
            parse text = .error (.unknownOperator text))) := by
  refine ⟨fun op => parse_eq_ok_iff, parse_of_not_spelled, fun op other => spelled_unique, ?_, ?_⟩
  · intro other hcase op
    rw [parse_eq_ok_iff, parse_eq_ok_iff]
    exact spelled_congr (sameWords_iff.1 (sameWords_of_map_toUpper hcase)) op
  · rintro front back gap rfl hgap
    constructor
    · intro houtside op
      rw [parse_eq_ok_iff, parse_eq_ok_iff]
      refine spelled_congr ?_ op
      simp only [String.toList_append, List.append_assoc, words_gap houtside hgap]
    · intro hinside hne op
      rw [parse_eq_ok_iff, parse_eq_ok_iff]
      constructor
      · intro hop
        exact parse_of_not_spelled fun other hother => not_spelled_both hinside hne hgap hop hother
      · intro hop
        exact parse_of_not_spelled fun other hother => not_spelled_both hinside hne hgap hother hop

/-- Without the blank between its words an operator is no operator. -/
theorem parse_outcome_joined :
    InsideWord "not".toList "iN ".toList ∧ parse "not\u2003iN " = .ok .nonMember ∧
      parse "notiN " = .error (.unknownOperator "notiN ") := by
  have hblank : ∀ c ∈ "\u2003".toList, isBlank c = true := by
    rintro c ⟨⟩
    · rfl
    · contradiction
  have hinside : InsideWord "not".toList "iN ".toList := ⟨⟨'t', rfl, rfl⟩, 'i', rfl, rfl⟩
  have hparse : parse ("not" ++ "\u2003" ++ "iN ") = .ok .nonMember := by
    rw [(parse_outcome _).1]
    exact sameWords_iff.2 (by decide)
  obtain ⟨-, -, -, -, hgaps⟩ := parse_outcome "notiN "
  obtain ⟨-, hjoined⟩ := hgaps "not" "iN " "\u2003" rfl hblank
  exact ⟨hinside, hparse, (hjoined hinside (by decide) .nonMember).2 hparse⟩

end Operator

end BoundSelect
