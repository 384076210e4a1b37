import BoundSelect.Operator

/-!
# Texts that name operators

The words of a text are its longest runs of characters that are not blank, so a text is its words
with blanks around them and between any two (`Text.hasWords_iff`). A text spells an operator when it
has the words of the operator's symbol in any ASCII case, whatever blanks are around them. These
texts and no others name the operator (`Operator.parse_eq_ok_iff`).
-/

set_option autoImplicit false

namespace BoundSelect

namespace Text

/-! ## Words and the blanks around them -/

/-- A text is the given words with blanks around them. Between two words there is a blank, since
what follows a word starts with one. -/
inductive HasWords : List Char → List (List Char) → Prop where
  | blank {gap : List Char} (hgap : ∀ c ∈ gap, isBlank c = true) : HasWords gap []
  | word {gap w rest : List Char} {ws : List (List Char)} (hgap : ∀ c ∈ gap, isBlank c = true)
      (hne : w ≠ []) (hw : ∀ c ∈ w, isBlank c = false) (hrest : ∀ c ∈ rest.head?, isBlank c = true) :
      HasWords rest ws → HasWords (gap ++ (w ++ rest)) (w :: ws)

/-- A blank separates the words in front of it from those behind it. -/
theorem words_append_blank {c : Char} (hc : isBlank c = true) (cs ds : List Char) :
    words (cs ++ c :: ds) = words cs ++ words ds := by
  unfold words
  rw [cutAt_eq_splitOnP, cutAt_eq_splitOnP, cutAt_eq_splitOnP, List.splitOnP_append_cons cs ds hc,
    List.filter_append]

theorem words_gap_append {gap : List Char} (hgap : ∀ c ∈ gap, isBlank c = true) (cs : List Char) :
    words (gap ++ cs) = words cs := by
  induction gap with
  | nil => rfl
  | cons c gap ih =>
      obtain ⟨hc, hgap⟩ := List.forall_mem_cons.1 hgap
      rw [List.cons_append, ← ih hgap]
      exact words_append_blank hc [] (gap ++ cs)

theorem words_word {w : List Char} (hne : w ≠ []) (hw : ∀ c ∈ w, isBlank c = false) :
    words w = [w] := by
  rw [words, cutAt_eq_splitOnP, List.splitOnP_eq_singleton hw]
  simpa using hne

/-- A word ends where a blank or nothing follows. -/
theorem words_word_append {w rest : List Char} (hne : w ≠ []) (hw : ∀ c ∈ w, isBlank c = false)
    (hrest : ∀ c ∈ rest.head?, isBlank c = true) : words (w ++ rest) = w :: words rest := by
  cases rest with
  | nil =>
      rw [List.append_nil, words_word hne hw]
      rfl
  | cons c rest =>
      have hc : isBlank c = true := hrest c rfl
      have htail : words (c :: rest) = words rest := words_append_blank hc [] rest
      rw [words_append_blank hc, words_word hne hw, htail, List.singleton_append]

theorem HasWords.words_eq {cs : List Char} {ws : List (List Char)} (h : HasWords cs ws) :
    words cs = ws := by
  induction h with
  | @blank gap hgap =>
      have hwords := words_gap_append hgap []
      rwa [List.append_nil] at hwords
  | word hgap hne hw hrest _ ih => rw [words_gap_append hgap, words_word_append hne hw hrest, ih]

/-- A word may be the first thing in a text. -/
theorem HasWords.first {w rest : List Char} {ws : List (List Char)} (hne : w ≠ [])
    (hw : ∀ c ∈ w, isBlank c = false) (hrest : ∀ c ∈ rest.head?, isBlank c = true)
    (h : HasWords rest ws) : HasWords (w ++ rest) (w :: ws) :=
  .word (List.forall_mem_nil _) hne hw hrest h

theorem exists_hasWords (cs : List Char) : ∃ ws, HasWords cs ws := by
  induction cs with
  | nil => exact ⟨[], .blank (by simp)⟩
  | cons c cs ih =>
      obtain ⟨ws, hws⟩ := ih
      cases hc : isBlank c with
      | true =>
          -- the gap in front is one blank longer
          cases hws with
          | blank hgap => exact ⟨[], .blank (List.forall_mem_cons.2 ⟨hc, hgap⟩)⟩
          | word hgap hne hw hrest htail =>
              exact ⟨_, .word (List.forall_mem_cons.2 ⟨hc, hgap⟩) hne hw hrest htail⟩
      | false =>
          have hword : ∀ d ∈ [c], isBlank d = false := by simpa using hc
          cases hws with
          | blank hgap =>
              have hrest : ∀ d ∈ cs.head?, isBlank d = true := fun d hd =>
                hgap d (List.mem_of_mem_head? hd)
              exact ⟨_, .first (List.cons_ne_nil c []) hword hrest (.blank hgap)⟩
          | @word gap w rest ws hgap hne hw hrest htail =>
              cases gap with
              | nil =>
                  -- the character goes to the front of the first word
                  exact ⟨_, .first (List.cons_ne_nil c w) (List.forall_mem_cons.2 ⟨hc, hw⟩) hrest
                    htail⟩
              | cons d gap =>
                  have hd : ∀ e ∈ (d :: gap ++ (w ++ rest)).head?, isBlank e = true := by
                    rintro e ⟨⟩
                    exact hgap d List.mem_cons_self
                  exact ⟨_, .first (List.cons_ne_nil c []) hword hd (.word hgap hne hw hrest htail)⟩

theorem hasWords_iff {cs : List Char} {ws : List (List Char)} :
    HasWords cs ws ↔ words cs = ws := by
  refine ⟨HasWords.words_eq, ?_⟩
  rintro rfl
  obtain ⟨ws, hws⟩ := exists_hasWords cs
  rwa [hws.words_eq]

/-! ## Words in any case -/

/-- Two texts have the same words, up to the case of ASCII letters. -/
def SameWords (cs ds : List Char) : Prop :=
  ∃ ws vs, HasWords cs ws ∧ HasWords ds vs ∧
    ws.map (List.map Char.toUpper) = vs.map (List.map Char.toUpper)

theorem sameWords_iff {cs ds : List Char} :
    SameWords cs ds ↔
      (words cs).map (List.map Char.toUpper) = (words ds).map (List.map Char.toUpper) := by
  constructor
  · rintro ⟨ws, vs, hws, hvs, h⟩
    rwa [hws.words_eq, hvs.words_eq]
  · intro h
    exact ⟨words cs, words ds, hasWords_iff.2 rfl, hasWords_iff.2 rfl, h⟩

theorem mem_words {cs w : List Char} (h : w ∈ words cs) :
    w ≠ [] ∧ ∀ c ∈ w, isBlank c = false := by
  have hparts : ∀ {ds : List Char} {ws : List (List Char)}, HasWords ds ws →
      ∀ v ∈ ws, v ≠ [] ∧ ∀ c ∈ v, isBlank c = false := by
    intro ds ws hws
    induction hws with
    | blank _ => simp
    | word _ hne hw _ _ ih => exact List.forall_mem_cons.2 ⟨⟨hne, hw⟩, ih⟩
  exact hparts (hasWords_iff.2 rfl) w h

/-- An upper-case letter is no space, so only the space becomes one. -/
theorem toUpper_ne_space {c : Char} (h : c ≠ ' ') : c.toUpper ≠ ' ' := by
  intro heq
  unfold Char.toUpper at heq
  split at heq
  · rw [Char.ext_iff] at heq
    dsimp only at heq
    grind
  · exact h heq

/-- Words with single spaces between them are told apart again. -/
theorem intercalate_space_injective {ws vs : List (List Char)}
    (hws : ∀ w ∈ ws, w ≠ [] ∧ ' ' ∉ w) (hvs : ∀ v ∈ vs, v ≠ [] ∧ ' ' ∉ v)
    (h : [' '].intercalate ws = [' '].intercalate vs) : ws = vs := by
  have hback : ∀ us : List (List Char), (∀ u ∈ us, u ≠ [] ∧ ' ' ∉ u) →
      (([' '].intercalate us).splitOn ' ').filter (!·.isEmpty) = us := by
    intro us hus
    cases us with
    | nil => rfl
    | cons u us =>
        rw [List.splitOn_intercalate ' ' (fun w hw => (hus w hw).2) (List.cons_ne_nil _ _),
          List.filter_eq_self]
        intro w hw
        simpa using (hus w hw).1
  rw [← hback ws hws, h, hback vs hvs]

theorem map_spaced (cs : List Char) :
    (spaced cs).map Char.toUpper = [' '].intercalate ((words cs).map (List.map Char.toUpper)) := by
  unfold spaced
  induction words cs with
  | nil => rfl
  | cons w ws ih =>
      cases ws with
      | nil => simp
      | cons v ws =>
          rw [List.intercalate_cons_cons, List.map_append, List.map_append, ih]
          simp only [List.map_cons, List.map_nil, List.intercalate_cons_cons]
          rfl

/-- Two texts have the same words exactly if they are the same once they are evened out. -/
theorem sameWords_iff_spaced {cs ds : List Char} :
    SameWords cs ds ↔ (spaced cs).map Char.toUpper = (spaced ds).map Char.toUpper := by
  have hwords : ∀ cs : List Char, ∀ w ∈ (words cs).map (List.map Char.toUpper),
      w ≠ [] ∧ ' ' ∉ w := by
    intro cs w hw
    obtain ⟨v, hv, rfl⟩ := List.mem_map.1 hw
    obtain ⟨hne, hblank⟩ := mem_words hv
    refine ⟨by simpa using hne, ?_⟩
    intro hspace
    obtain ⟨c, hc, heq⟩ := List.mem_map.1 hspace
    refine toUpper_ne_space ?_ heq
    rintro rfl
    exact absurd (hblank ' ' hc) (by decide)
  rw [sameWords_iff, map_spaced, map_spaced]
  exact ⟨congrArg _, intercalate_space_injective (hwords cs) (hwords ds)⟩

end Text

/-! ## Operators -/

namespace Operator

/-- A text spells an operator: it has the words of the operator's symbol in any ASCII case, with any
blanks around them. -/
def Spelled (op : Operator) (text : String) : Prop :=
  Text.SameWords text.toList op.symbol.toList

theorem spelled_symbol (op : Operator) : op.Spelled op.symbol :=
  Text.sameWords_iff.2 rfl

/-- Symbols are written as their words with single spaces, in upper case. -/
theorem map_spaced_symbol (op : Operator) :
    (Text.spaced op.symbol.toList).map Char.toUpper = op.symbol.toList := by
  cases op <;> decide

/-- The names of operators are their spellings. -/
theorem ofWords?_eq_some_iff {name : String} {op : Operator} :
    ofWords? name = some op ↔ name = op.symbol := by
  constructor
  · intro h
    unfold ofWords? at h
    split at h
    case h_14 => cases h
    all_goals
      cases h
      rfl
  · rintro rfl
    cases op <;> rfl

/-- A text names the operator that it spells. -/
theorem parse?_eq_some_iff {text : String} {op : Operator} :
    parse? text = some op ↔ op.Spelled text := by
  rw [parse?, ofWords?_eq_some_iff, Spelled, Text.sameWords_iff_spaced, map_spaced_symbol,
    ← String.toList_inj, String.toList_ofList]

theorem parse_eq_ok_iff {text : String} {op : Operator} :
    parse text = .ok op ↔ op.Spelled text := by
  rw [← parse?_eq_some_iff, parse]
  cases parse? text <;> simp

/-- A text that spells no operator is given back in the fault. -/
theorem parse_of_not_spelled {text : String} (h : ∀ op : Operator, ¬ op.Spelled text) :
    parse text = .error (.unknownOperator text) := by
  cases hparse : parse? text with
  | none => rw [parse, hparse]
  | some op => exact absurd (parse?_eq_some_iff.1 hparse) (h op)

end Operator

end BoundSelect
